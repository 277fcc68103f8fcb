import Gml.Json.Basic
import Gml.Numeral

/-!
# Reading JSON

Strict JSON: one value with blanks, tabs and line ends around it, no byte order
mark, no trailing commas, no raw control characters in strings. Nesting is not
limited here.
-/
namespace Gml.Json

def isSpace (c : Char) : Bool := c == ' ' || c == '\t' || c == '\n' || c == '\r'

def skipSpace (cs : List Char) : List Char := cs.dropWhile isSpace

def hexUnit? (a b c d : Char) : Option Nat :=
  Numeral.value? 16 [a, b, c, d]

/-- A part of a string literal: a character, or a UTF-16 unit given by an escape. -/
inductive Piece where
  | char (c : Char)
  | unit (n : Nat)
  deriving DecidableEq

def simpleEscape? : Char → Option Char
  | '"' => some '"'
  | '\\' => some '\\'
  | '/' => some '/'
  | 'b' => some '\x08'
  | 'f' => some '\x0c'
  | 'n' => some '\n'
  | 'r' => some '\r'
  | 't' => some '\t'
  | _ => none

/-- The pieces up to the closing quote, after the pieces already read in reverse,
and what follows the quote. -/
def readPieces : List Char → List Piece → Option (List Piece × List Char)
  | '"' :: rest, done => some (done.reverse, rest)
  | '\\' :: 'u' :: a :: b :: c :: d :: rest, done =>
      match hexUnit? a b c d with
      | some n => readPieces rest (.unit n :: done)
      | none => none
  | '\\' :: e :: rest, done =>
      match simpleEscape? e with
      | some c => readPieces rest (.char c :: done)
      | none => none
  | c :: rest, done => if c == '\\' || c.toNat < 0x20 then none else readPieces rest (.char c :: done)
  | [], _ => none

def isHighSurrogate (n : Nat) : Bool := 0xD800 ≤ n && n ≤ 0xDBFF

def isLowSurrogate (n : Nat) : Bool := 0xDC00 ≤ n && n ≤ 0xDFFF

/-- Joins pairs of surrogates; `none` if one has no partner. -/
def joinPieces : List Piece → List Char → Option (List Char)
  | [], done => some done.reverse
  | .char c :: rest, done => joinPieces rest (c :: done)
  | .unit a :: .unit b :: rest, done =>
      if isHighSurrogate a && isLowSurrogate b then
        joinPieces rest (Char.ofNat (0x10000 + (a - 0xD800) * 0x400 + (b - 0xDC00)) :: done)
      else if isHighSurrogate a || isLowSurrogate a then none
      else joinPieces (.unit b :: rest) (Char.ofNat a :: done)
  | .unit a :: rest, done =>
      if isHighSurrogate a || isLowSurrogate a then none
      else joinPieces rest (Char.ofNat a :: done)

/-- A string behind its opening quote. -/
def readString (cs : List Char) : Option (Option String × List Char) :=
  (readPieces cs []).map fun (pieces, rest) => ((joinPieces pieces []).map String.ofList, rest)

/-- The digits at the front, at least one. -/
def readDigits? (cs : List Char) : Option (List Char × List Char) :=
  match cs.takeWhile Char.isDigit with
  | [] => none
  | digits => some (digits, cs.dropWhile Char.isDigit)

/-- The whole part of a number; more than one digit does not start with zero. -/
def readWhole? : List Char → Option (List Char × List Char)
  | '0' :: rest => some (['0'], rest)
  | cs => readDigits? cs

def readFraction? : List Char → Option (List Char × List Char)
  | '.' :: rest => (readDigits? rest).map fun (digits, rest) => ('.' :: digits, rest)
  | cs => some ([], cs)

def readExponent? : List Char → Option (List Char × List Char)
  | e :: rest =>
      if e == 'e' || e == 'E' then
        match rest with
        | '+' :: rest => (readDigits? rest).map fun (digits, rest) => (e :: '+' :: digits, rest)
        | '-' :: rest => (readDigits? rest).map fun (digits, rest) => (e :: '-' :: digits, rest)
        | rest => (readDigits? rest).map fun (digits, rest) => (e :: digits, rest)
      else some ([], e :: rest)
  | [] => some ([], [])

def readNumber (cs : List Char) : Option (Json × List Char) := do
  let (sign, cs) := match cs with
    | '-' :: rest => (['-'], rest)
    | cs => ([], cs)
  let (whole, cs) ← readWhole? cs
  let (fraction, cs) ← readFraction? cs
  let (exponent, cs) ← readExponent? cs
  match sign, fraction, exponent with
  | [], [], [] => some (.natural (Numeral.decimal whole), cs)
  | _, _, _ => some (.number (String.ofList (sign ++ whole ++ fraction ++ exponent)), cs)

mutual

/-- A value, and what follows it. The first argument bounds the work. -/
def readValue : Nat → List Char → Option (Json × List Char)
  | 0, _ => none
  | n + 1, cs =>
      match skipSpace cs with
      | 'n' :: 'u' :: 'l' :: 'l' :: rest => some (.null, rest)
      | 't' :: 'r' :: 'u' :: 'e' :: rest => some (.bool true, rest)
      | 'f' :: 'a' :: 'l' :: 's' :: 'e' :: rest => some (.bool false, rest)
      | '"' :: rest => (readString rest).map fun (s, rest) => (.str s, rest)
      | '[' :: rest =>
          match skipSpace rest with
          | ']' :: rest => some (.arr [], rest)
          | rest => (readItems n rest).map fun (items, rest) => (.arr items, rest)
      | '\x7b' :: rest =>
          match skipSpace rest with
          | '\x7d' :: rest => some (.obj [], rest)
          | rest => (readMembers n rest).map fun (members, rest) => (.obj members, rest)
      | c :: rest => if c == '-' || c.isDigit then readNumber (c :: rest) else none
      | [] => none

/-- At least one item, and the closing bracket. -/
def readItems : Nat → List Char → Option (List Json × List Char)
  | 0, _ => none
  | n + 1, cs =>
      match readValue n cs with
      | none => none
      | some (item, rest) =>
          match skipSpace rest with
          | ',' :: rest => (readItems n rest).map fun (items, rest) => (item :: items, rest)
          | ']' :: rest => some ([item], rest)
          | _ => none

/-- At least one member, and the closing brace. -/
def readMembers : Nat → List Char → Option (List (Option String × Json) × List Char)
  | 0, _ => none
  | n + 1, cs =>
      match skipSpace cs with
      | '"' :: rest =>
          match readString rest with
          | none => none
          | some (name, rest) =>
              match skipSpace rest with
              | ':' :: rest =>
                  match readValue n rest with
                  | none => none
                  | some (value, rest) =>
                      match skipSpace rest with
                      | ',' :: rest =>
                          (readMembers n rest).map fun (members, rest) =>
                            ((name, value) :: members, rest)
                      | '\x7d' :: rest => some ([(name, value)], rest)
                      | _ => none
              | _ => none
      | _ => none

end

/-- The value that a text writes, if it writes one. Each step of the reader takes a
character or goes one level down right after taking one. -/
def read? (text : String) : Option Json :=
  match readValue (2 * text.length + 2) text.toList with
  | some (value, rest) => if (skipSpace rest).isEmpty then some value else none
  | none => none

/-- A text is read by its characters. -/
theorem read?_ofList (cs : List Char) : read? (String.ofList cs) =
    ((readValue (2 * cs.length + 2) cs).filter fun found => (skipSpace found.2).isEmpty).map
      Prod.fst := by
  rw [read?, String.length_ofList, String.toList_ofList]
  cases readValue (2 * cs.length + 2) cs with
  | none => rfl
  | some found =>
      rw [Option.filter_some]
      dsimp only
      split
      · rfl
      · rfl

end Gml.Json
