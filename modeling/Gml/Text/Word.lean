import Gml.Text.Bytes
import Gml.Token.Lexer

/-!
# The word at a place

The letters, digits and underscores around an offset. Only ASCII letters belong to a
word, as in identifiers.
-/
namespace Gml.Text

def lastWord (cs : List Char) : List Char := (cs.reverse.takeWhile Token.isIdentChar).reverse

/-- The identifier that touches an offset. -/
def wordAt? (cs : List Char) (offset : Nat) : Option (String × Span) := do
  let (before, after) ← splitAtByte? (min offset (byteLength cs)) cs
  let left := lastWord before
  let right := after.takeWhile Token.isIdentChar
  match left ++ right with
  | [] => none
  | c :: word =>
      if c.isDigit then none
      else
        let start := byteLength before - byteLength left
        return (String.ofList (c :: word), ⟨start, byteLength before + byteLength right⟩)

/-- What has been typed of a word before an offset. -/
def wordBefore (cs : List Char) (offset : Nat) : String :=
  match takeBytes? (min offset (byteLength cs)) cs with
  | some before => String.ofList (lastWord before)
  | none => ""

end Gml.Text
