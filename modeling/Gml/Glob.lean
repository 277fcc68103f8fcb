import Gml.Disk

/-!
# Patterns of paths

A pattern is a path in which `?` stands for any character, `*` for any text, brackets
for one of some characters and, with a `!`, for one of all others. A part of two stars
stands for any number of directories. Paths are found from the root on, part by part.
-/
namespace Gml

structure CharSpan where
  first : Char
  last : Char
  deriving DecidableEq, Repr

def CharSpan.contains (span : CharSpan) (c : Char) : Bool := span.first ≤ c && c ≤ span.last

inductive GlobToken where
  | char (c : Char)
  | any
  | within (spans : List CharSpan)
  | without (spans : List CharSpan)
  | sequence
  deriving DecidableEq, Repr

/-- Whether a token that stands for one character stands for this one. -/
def GlobToken.accepts (c : Char) : GlobToken → Bool
  | .char d => d == c
  | .any => true
  | .within spans => spans.any (·.contains c)
  | .without spans => !spans.any (·.contains c)
  | .sequence => false

inductive GlobPart where
  | name (tokens : List GlobToken)
  /-- Two stars. -/
  | directories
  deriving DecidableEq, Repr

namespace Glob

/-! ### Reading -/

def spans : List Char → List CharSpan
  | a :: '-' :: b :: rest => ⟨a, b⟩ :: spans rest
  | a :: rest => ⟨a, a⟩ :: spans rest
  | [] => []

/-- Reads up to the closing bracket. The first character is one of those meant, even if
it is a bracket. -/
def readSpans? : List Char → Option (List CharSpan × List Char)
  | [] => none
  | c :: rest => (Text.splitFirst? (· == ']') rest).map fun (more, rest) => (spans (c :: more), rest)

/-- The tokens of a name. Every round takes a character at least. -/
def tokens? : Nat → List Char → Option (List GlobToken)
  | _, [] => some []
  | 0, _ :: _ => none
  | _ + 1, '*' :: '*' :: _ => none
  | rounds + 1, '*' :: rest => (tokens? rounds rest).map (.sequence :: ·)
  | rounds + 1, '?' :: rest => (tokens? rounds rest).map (.any :: ·)
  | rounds + 1, '[' :: '!' :: rest => do
      let (spans, rest) ← readSpans? rest
      return .without spans :: (← tokens? rounds rest)
  | rounds + 1, '[' :: rest => do
      let (spans, rest) ← readSpans? rest
      return .within spans :: (← tokens? rounds rest)
  | rounds + 1, c :: rest => (tokens? rounds rest).map (.char c :: ·)

def part? (text : String) : Option GlobPart :=
  if text = "**" then some .directories
  else (tokens? text.length text.toList).map .name

/-! ### Matching -/

/-- A list and all that is left of it when items are taken from its front. -/
def suffixes {α : Type} : List α → List (List α)
  | [] => [[]]
  | a :: rest => (a :: rest) :: suffixes rest

def accepts : List GlobToken → List Char → Bool
  | [], cs => cs.isEmpty
  | .sequence :: tokens, cs => (suffixes cs).any (accepts tokens)
  | _ :: _, [] => false
  | token :: tokens, c :: cs => token.accepts c && accepts tokens cs

/-- The one name that tokens stand for, if they are all characters. -/
def literal? : List GlobToken → Option (List Char)
  | [] => some []
  | .char c :: tokens => (literal? tokens).map (c :: ·)
  | _ :: _ => none

/-! ### Searching -/

/-- The paths that a part leads to from a path. A name without other tokens is looked
for as it is. The names of a directory and of the one above are found only by tokens
that start with a dot. -/
def namesFrom (disk : Disk) (tokens : List GlobToken) (path : String) : List String :=
  match literal? tokens with
  | some name =>
      let next := Path.join path (String.ofList name)
      let isStep := name == ['.'] || name == ['.', '.']
      if (if isStep then disk.isDirectory path else disk.exists? next) then [next] else []
  | none =>
      let steps := if tokens.head? == some (.char '.') then [".", ".."] else []
      let names := ((disk.list? path).map (· ++ steps)).getD []
      (names.filter fun name => accepts tokens name.toList).map (Path.join path)

/-- The paths that parts lead to from a path. Behind two stars the next part is the
name of something at any depth. -/
def search (disk : Disk) : List GlobPart → String → List String
  | [], path => [path]
  | .name tokens :: rest, path => (namesFrom disk tokens path).flatMap (search disk rest)
  | [.directories], path =>
      ((disk.descendants path).filter fun (_, node) => node.isDirectory).map fun (names, _) =>
        Path.join path ("/".intercalate names)
  | .directories :: .directories :: rest, path => search disk (.directories :: rest) path
  | .directories :: .name tokens :: rest, path =>
      let found := (disk.descendants path).filterMap fun (names, _) =>
        if ((names.getLast?).map fun name => accepts tokens name.toList).getD false then
          some (Path.join path ("/".intercalate names))
        else none
      found.flatMap (search disk rest)

def find (disk : Disk) (pattern : String) : List String :=
  match Path.parts pattern with
  | "" :: parts =>
      match parts.mapM part? with
      | some parts => (search disk parts "/").mergeSort Path.le
      | none => []
  | _ => []

end Glob

end Gml
