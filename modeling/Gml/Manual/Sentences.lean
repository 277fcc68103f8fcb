import Gml.Text.Blank

/-!
# Sentences

A sentence ends at a full stop, an exclamation mark or a question mark that a blank
or the end of the text follows.
-/
namespace Gml.Sentences

def isMark (c : Char) : Bool := c == '.' || c == '!' || c == '?'

/-- Whether a sentence can end before these characters. -/
def endsBefore : List Char → Bool
  | [] => true
  | c :: _ => Text.isBlank c

/-- The text up to the end of its sentence number `count + 1`, or all of it. -/
def take : Nat → List Char → List Char
  | _, [] => []
  | count, c :: cs =>
      if isMark c && endsBefore cs then
        match count with
        | 0 => [c]
        | count + 1 => c :: take count cs
      else c :: take count cs

/-- The first sentences of a text; zero stands for all of them. -/
def first (text : String) (count : Nat) : String :=
  let trimmed := Text.trim text.toList
  String.ofList <| match count with
    | 0 => trimmed
    | count + 1 => take count trimmed

end Gml.Sentences
