import Gml.Proofs.Text.Walking

/-!
# The positions of a text

The boundaries of a text and the places of its lines are in one-to-one correspondence. What
stands between two boundaries moves the position on in reading order, character by character,
and every place of a line is behind some characters of the text.
-/
namespace Gml

namespace Position

/-- Strict reading order. -/
def Precedes (a b : Position) : Prop := a.le b = true ∧ a ≠ b

variable {a b c : Position}

theorem precedes_iff :
    a.Precedes b ↔ a.line < b.line ∨ a.line = b.line ∧ a.column < b.column := by
  rw [Precedes, le_iff, ne_eq, eq_iff]
  omega

theorem Precedes.trans (hab : a.Precedes b) (hbc : b.Precedes c) : a.Precedes c := by
  rw [precedes_iff] at *
  omega

theorem Precedes.not_precedes (h : a.Precedes b) : ¬b.Precedes a :=
  fun hback => h.2 (le_antisymm h.1 hback.1)

end Position

namespace Text

/-- The line of the position is in the text, and has at least as many characters as its column
says. -/
def HasPosition (cs : List Char) (position : Position) : Prop :=
  ∃ line ∈ (cs.splitOn '\n')[position.line]?, position.column ≤ line.length

/-! ### Lines between newlines -/

theorem length_splitOn (c : Char) (cs : List Char) : (cs.splitOn c).length = cs.count c + 1 := by
  induction cs with
  | nil => rw [List.splitOn_nil, List.count_nil, List.length_singleton]
  | cons d cs ih =>
      rw [List.splitOn_cons_eq_if_modifyHead, List.count_cons]
      split
      · rw [List.length_cons, ih]
      · rw [List.length_modifyHead, ih]

/-- As many newlines stand in front of a line as there are lines before it. -/
theorem getElem?_splitOn {front line after : List Char} (hfront : OpensLine front)
    (hline : '\n' ∉ line) (hafter : EndsLine after) :
    ((front ++ (line ++ after)).splitOn '\n')[front.count '\n']? = some line := by
  have hfirst : ((line ++ after).splitOn '\n')[0]? = some line := by
    obtain rfl | ⟨more, rfl⟩ := hafter
    · rw [List.append_nil, List.splitOn_eq_singleton hline, List.getElem?_cons_zero]
    · rw [List.splitOn_append_cons_self_of_not_mem hline, List.getElem?_cons_zero]
  obtain rfl | ⟨before, rfl⟩ := hfront
  · exact hfirst
  · have hcount : (before ++ ['\n']).count '\n' = (before.splitOn '\n').length := by
      rw [List.count_append, length_splitOn]
      rfl
    rw [List.append_assoc, List.singleton_append, List.splitOn_append_cons_self, hcount,
      List.getElem?_append_right (Nat.le_refl _), Nat.sub_self, hfirst]

/-- A position of a text is a place in one of its lines. -/
theorem hasPosition_iff {cs : List Char} {position : Position} :
    HasPosition cs position ↔
      ∃ front line after, cs = front ++ (line ++ after) ∧ OpensLine front ∧ '\n' ∉ line ∧
        EndsLine after ∧ front.count '\n' = position.line ∧ position.column ≤ line.length := by
  constructor
  · rintro ⟨line, hmem, hcolumn⟩
    have hnumber : position.line ≤ cs.count '\n' := by
      have hlt := (List.getElem?_eq_some_iff.mp hmem).1
      rw [length_splitOn] at hlt
      exact Nat.le_of_lt_succ hlt
    obtain ⟨front, found, after, rfl, hfront, hfound, hafter, hcount⟩ := exists_line hnumber
    have hsame : found = line := by
      rw [Option.mem_def, ← hcount, getElem?_splitOn hfront hfound hafter] at hmem
      exact Option.some.inj hmem
    exact ⟨front, found, after, rfl, hfront, hfound, hafter, hcount, hsame ▸ hcolumn⟩
  · rintro ⟨front, line, after, rfl, hfront, hline, hafter, hcount, hcolumn⟩
    exact ⟨line, hcount ▸ getElem?_splitOn hfront hline hafter, hcolumn⟩

/-! ### Reading on -/

/-- A character moves the position on. -/
theorem precedes_behind_singleton (here : Position) (c : Char) :
    here.Precedes (behind here [c]) := by
  rw [behind, behind, Position.precedes_iff]
  split
  · exact .inl (Nat.lt_succ_self _)
  · exact .inr ⟨rfl, Nat.lt_succ_self _⟩

/-- Characters move the position on, if there are any. -/
theorem precedes_behind {cs : List Char} (h : cs ≠ []) (here : Position) :
    here.Precedes (behind here cs) := by
  induction cs generalizing here with
  | nil => exact absurd rfl h
  | cons c cs ih =>
      have hstep := precedes_behind_singleton here c
      by_cases hlast : cs = []
      · rw [hlast]
        exact hstep
      · exact hstep.trans (ih hlast (behind here [c]))

end Text

namespace LineIndex

open Text

variable {text : String}

/-- The position of a boundary is behind all that stands in front of it. -/
theorem position_eq_behind {before after : List Char} (h : text.toList = before ++ after) :
    (ofText text).position (byteLength before) = behind ⟨0, 0⟩ before := by
  obtain ⟨front, line, rfl, hfront, hline⟩ := exists_opensLine before
  rw [List.append_assoc] at h
  rw [position_eq h hfront hline, behind_append, behind_of_opensLine hfront,
    behind_of_notMem hline, Nat.zero_add]

/-- Of two boundaries the one in front has the position in front. -/
theorem position_precedes {a b : Nat} (ha : isBoundary text.toList a = true)
    (hb : isBoundary text.toList b = true) (hlt : a < b) :
    ((ofText text).position a).Precedes ((ofText text).position b) := by
  obtain ⟨before, after, htext, rfl⟩ := isBoundary_iff.mp ha
  obtain ⟨front, rest, htext', rfl⟩ := isBoundary_iff.mp hb
  have hmore : ∃ between, front = before ++ between := by
    rcases List.append_eq_append_iff.mp (htext.symm.trans htext') with
      ⟨between, hfront, -⟩ | ⟨between, rfl, -⟩
    · exact ⟨between, hfront⟩
    · rw [byteLength_append] at hlt
      omega
  obtain ⟨between, rfl⟩ := hmore
  have hnonempty : between ≠ [] := by
    rintro rfl
    rw [List.append_nil] at hlt
    exact Nat.lt_irrefl _ hlt
  rw [position_eq_behind htext, position_eq_behind htext', behind_append]
  exact precedes_behind hnonempty _

/-- Boundaries stand in the order of their positions. -/
theorem position_precedes_iff {a b : Nat} (ha : isBoundary text.toList a = true)
    (hb : isBoundary text.toList b = true) :
    ((ofText text).position a).Precedes ((ofText text).position b) ↔ a < b := by
  constructor
  · intro h
    rcases Nat.lt_trichotomy a b with hlt | rfl | hgt
    · exact hlt
    · exact absurd rfl h.2
    · exact absurd h (position_precedes hb ha hgt).not_precedes
  · exact position_precedes ha hb

/-- A boundary has a position of the text. -/
theorem hasPosition_position {offset : Nat} (h : isBoundary text.toList offset = true) :
    HasPosition text.toList ((ofText text).position offset) := by
  obtain ⟨front, line, tail, rest, htext, hfront, hnone, hrest, rfl⟩ := exists_divided_line h
  have hline : '\n' ∉ line := fun hmem => hnone (List.mem_append_left tail hmem)
  rw [position_eq htext hfront hline, hasPosition_iff]
  refine ⟨front, line ++ tail, rest, ?_, hfront, hnone, hrest, rfl, ?_⟩
  · rw [htext, List.append_assoc]
  · rw [List.length_append]
    exact Nat.le_add_right _ _

/-- A position of the text is the position of a boundary, and this boundary is its offset. -/
theorem exists_position_eq {position : Position} (h : HasPosition text.toList position) :
    ∃ offset, (ofText text).offset? position = some offset ∧
      isBoundary text.toList offset = true ∧ (ofText text).position offset = position := by
  obtain ⟨front, line, after, htext, hfront, hline, hafter, hcount, hcolumn⟩ := hasPosition_iff.mp h
  obtain ⟨number, column⟩ := position
  dsimp only at hcount hcolumn
  subst hcount
  have hcut : text.toList = front ++ (line.take column ++ (line.drop column ++ after)) := by
    rw [htext, ← List.append_assoc (line.take column), List.take_append_drop]
  have hnone : '\n' ∉ line.take column := fun hmem => hline (List.mem_of_mem_take hmem)
  have hlength : (line.take column).length = column := List.length_take_of_le hcolumn
  refine ⟨byteLength (front ++ line.take column), ?_, ?_, ?_⟩
  · rw [offset?_eq htext hfront hline hafter, byteLength_append]
  · rw [hcut, ← List.append_assoc]
    exact isBoundary_append _ _
  · rw [position_eq hcut hfront hnone, hlength]

/-- Boundaries and the positions of a text correspond to each other: an offset is found again
from its position and a position from its offset, and the order is the same. -/
theorem positions_correspond (text : String) :
    (∀ offset, isBoundary text.toList offset = true →
      HasPosition text.toList ((ofText text).position offset) ∧
        (ofText text).offset? ((ofText text).position offset) = some offset) ∧
    (∀ a b, isBoundary text.toList a = true → isBoundary text.toList b = true →
      (a < b ↔ ((ofText text).position a).Precedes ((ofText text).position b))) ∧
    ∀ position, HasPosition text.toList position →
      ∃ offset, (ofText text).offset? position = some offset ∧
        isBoundary text.toList offset = true ∧ (ofText text).position offset = position := by
  refine ⟨?_, ?_, ?_⟩
  · intro offset hoffset
    exact ⟨hasPosition_position hoffset, offset?_position hoffset⟩
  · intro a b ha hb
    exact (position_precedes_iff ha hb).symm
  · intro position hposition
    exact exists_position_eq hposition

/-- The carriage return of a line end still belongs to its line, and the newline ends it. -/
theorem correspond_at_line_ends :
    isBoundary "é\r\n".toList 3 = true ∧ isBoundary "é\r\n".toList 4 = true ∧
      HasPosition "é\r\n".toList ⟨0, 2⟩ ∧
      (ofText "é\r\n").offset? ((ofText "é\r\n").position 4) = some 4 ∧
      ((ofText "é\r\n").position 3).Precedes ((ofText "é\r\n").position 4) ∧
      ∃ offset, (ofText "é\r\n").offset? ⟨0, 2⟩ = some offset ∧
        isBoundary "é\r\n".toList offset = true ∧ (ofText "é\r\n").position offset = ⟨0, 2⟩ := by
  have hbefore : isBoundary "é\r\n".toList 3 = true := by decide
  have hbehind : isBoundary "é\r\n".toList 4 = true := by decide
  have hend : HasPosition "é\r\n".toList ⟨0, 2⟩ := ⟨['é', '\r'], rfl, Nat.le_refl 2⟩
  obtain ⟨hback, horder, hforth⟩ := positions_correspond "é\r\n"
  refine ⟨hbefore, hbehind, hend, ?_, ?_, ?_⟩
  · exact (hback 4 hbehind).2
  · exact (horder 3 4 hbefore hbehind).mp (by decide)
  · exact hforth ⟨0, 2⟩ hend

end LineIndex

end Gml
