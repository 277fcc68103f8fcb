import Gml.Text.Position

/-!
# Edits

A change replaces a stretch of a text, or the whole text. Changes are applied one
after another, each to the text that the ones before it left.
-/
namespace Gml

structure TextChange where
  /-- The stretch to replace; without it, everything is replaced. -/
  range : Option TextRange
  text : String
  deriving DecidableEq, Repr

namespace Text

/-- The text with other characters between two offsets. -/
def splice? (cs : List Char) (start stop : Nat) (inner : List Char) : Option (List Char) := do
  if stop < start then none
  else
    let before ← takeBytes? start cs
    let after ← dropBytes? stop cs
    return before ++ inner ++ after

/-- Applies a change. It fails if a line does not exist or the end is before the start. -/
def applyChange? (cs : List Char) (change : TextChange) : Option (List Char) :=
  match change.range with
  | none => some change.text.toList
  | some range => do
      let start ← offsetAt? cs range.start
      let stop ← offsetAt? cs range.stop
      splice? cs start stop change.text.toList

def applyChanges? (text : String) (changes : List TextChange) : Option String :=
  (changes.foldlM applyChange? text.toList).map String.ofList

end Text

end Gml
