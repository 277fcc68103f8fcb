import Gml.Text.Bytes

/-!
# Lines and columns

A position counts lines and, within a line, characters, both from zero. Two ways
lead from byte offsets to positions and back. A `LineIndex` looks the line up in a
table of line starts; `positionAt` and `offsetAt?` walk through the text. A column
behind the end of its line stands for the line end, and an offset behind the end of
the text for the end.
-/
namespace Gml

structure Position where
  line : Nat
  column : Nat
  deriving DecidableEq, Repr, Inhabited

namespace Position

/-- Reading order. -/
def le (a b : Position) : Bool :=
  a.line < b.line || (a.line == b.line && a.column ≤ b.column)

variable {a b c : Position}

theorem eq_iff : a = b ↔ a.line = b.line ∧ a.column = b.column := by
  cases a
  cases b
  simp

theorem le_iff : a.le b = true ↔ a.line < b.line ∨ a.line = b.line ∧ a.column ≤ b.column := by
  simp [le]

theorem le_total (a b : Position) : a.le b = true ∨ b.le a = true := by
  rw [le_iff, le_iff]
  omega

theorem le_trans (hab : a.le b = true) (hbc : b.le c = true) : a.le c = true := by
  rw [le_iff] at *
  omega

theorem le_antisymm (hab : a.le b = true) (hba : b.le a = true) : a = b := by
  rw [le_iff] at hab hba
  rw [eq_iff]
  omega

end Position

structure TextRange where
  start : Position
  stop : Position
  deriving DecidableEq, Repr, Inhabited

structure LineIndex where
  chars : List Char
  /-- Byte length of the text. -/
  size : Nat
  /-- Byte offset of the start of every line, from the first line on. -/
  starts : List Nat

namespace LineIndex

/-- The offsets behind the newlines, for characters that start at an offset. -/
def startsAfter : Nat → List Char → List Nat
  | _, [] => []
  | offset, c :: cs =>
      let next := offset + c.utf8Size
      if c = '\n' then next :: startsAfter next cs else startsAfter next cs

def ofText (text : String) : LineIndex :=
  let chars := text.toList
  ⟨chars, text.utf8ByteSize, 0 :: startsAfter 0 chars⟩

/-- Number of lines; a line follows every newline, if only an empty one. -/
def lineCount (index : LineIndex) : Nat := index.starts.length

/-- The position of an offset. Inside a character the column is zero. -/
def position (index : LineIndex) (offset : Nat) : Position :=
  let offset := min offset index.size
  let line := index.starts.countP (· ≤ offset) - 1
  let start := index.starts.getD line 0
  ⟨line, ((Text.slice? index.chars start offset).getD []).length⟩

/-- The offset of a position, if the line exists. -/
def offset? (index : LineIndex) (position : Position) : Option Nat := do
  let start ← index.starts[position.line]?
  let stop := match index.starts[position.line + 1]? with
    | some next => next - 1
    | none => index.size
  let line := (Text.slice? index.chars start stop).getD []
  return start + Text.byteLength (line.take position.column)

def range (index : LineIndex) (start stop : Nat) : TextRange :=
  ⟨index.position start, index.position stop⟩

end LineIndex

namespace Text

/-- Walks to an offset, from an offset and a position already reached. -/
def walkTo (target : Nat) : Nat → Position → List Char → Position
  | _, here, [] => here
  | offset, here, c :: cs =>
      if target ≤ offset then here
      else
        walkTo target (offset + c.utf8Size)
          (if c = '\n' then ⟨here.line + 1, 0⟩ else ⟨here.line, here.column + 1⟩) cs

/-- The position of an offset; an offset inside a character counts as the one behind
it. -/
def positionAt (cs : List Char) (offset : Nat) : Position := walkTo offset 0 ⟨0, 0⟩ cs

/-- Walks to a position, from an offset and a position already reached. -/
def walkUntil? (target : Position) : Nat → Position → List Char → Option Nat
  | offset, here, [] => if here.line = target.line then some offset else none
  | offset, here, c :: cs =>
      if here = target then some offset
      else if c = '\n' then
        if here.line = target.line then some offset
        else walkUntil? target (offset + c.utf8Size) ⟨here.line + 1, 0⟩ cs
      else walkUntil? target (offset + c.utf8Size) ⟨here.line, here.column + 1⟩ cs

/-- The offset of a position, if the line exists. -/
def offsetAt? (cs : List Char) (position : Position) : Option Nat :=
  walkUntil? position 0 ⟨0, 0⟩ cs

end Text

end Gml
