/-!
# Blank characters, trimming and lines

Blank is the Unicode property `White_Space`: twenty-five characters, which is
more than the ASCII set the lexer skips. Trimming, splitting at blanks and
cutting into lines all work on character lists.
-/
namespace Gml.Text

/-- The Unicode property `White_Space`. -/
def isBlank (c : Char) : Bool :=
  let n := c.toNat
  (9 ≤ n && n ≤ 13) || n == 0x20 || n == 0x85 || n == 0xA0 || n == 0x1680
    || (0x2000 ≤ n && n ≤ 0x200A) || n == 0x2028 || n == 0x2029 || n == 0x202F
    || n == 0x205F || n == 0x3000

def trimStart (cs : List Char) : List Char := cs.dropWhile isBlank

def trimEnd (cs : List Char) : List Char := (cs.reverse.dropWhile isBlank).reverse

def trim (cs : List Char) : List Char := trimEnd (trimStart cs)

/-- Cuts at the first character that satisfies `p`, which belongs to neither part. -/
def splitFirst? (p : Char → Bool) : List Char → Option (List Char × List Char)
  | [] => none
  | c :: cs =>
      if p c then some ([], cs)
      else (splitFirst? p cs).map fun (before, after) => (c :: before, after)

/-- Cuts at every character that satisfies `p`: one part more than there are cuts. -/
def splitAll (p : Char → Bool) : List Char → List (List Char)
  | [] => [[]]
  | c :: cs =>
      if p c then [] :: splitAll p cs
      else
        match splitAll p cs with
        | part :: parts => (c :: part) :: parts
        | [] => [[c]]

/-- What is left of a text after a leading word, if it starts with that word. -/
def dropWord? : List Char → List Char → Option (List Char)
  | [], cs => some cs
  | _ :: _, [] => none
  | w :: ws, c :: cs => if w = c then dropWord? ws cs else none

/-- What is left of a text before a last character, if it ends with that character. -/
def dropLast? (c : Char) (cs : List Char) : Option (List Char) :=
  if cs.getLast? = some c then some cs.dropLast else none

/-- What is left of a text before a last word, if it ends with that word. -/
def dropEnding? (word cs : List Char) : Option (List Char) :=
  (dropWord? word.reverse cs.reverse).map List.reverse

/-- Drops one carriage return at the end. -/
def dropReturn (cs : List Char) : List Char := (dropLast? '\r' cs).getD cs

/-- The lines of a text. Each newline ends a line together with a carriage return
before it; after the last newline a line follows only if there is text left, and
that one keeps its carriage return. -/
def lines (cs : List Char) : List (List Char) :=
  let parts := splitAll (· == '\n') cs
  let closed := parts.dropLast.map dropReturn
  match parts.getLast? with
  | none | some [] => closed
  | some last => closed ++ [last]

end Gml.Text
