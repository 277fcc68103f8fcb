import Gml.Proofs.Text.Lines

/-!
# Walking to a position

Walking through a text from its start reaches the positions and offsets that the table
of line starts gives. Both are read off one description: a position stands for the place
behind so many characters of its line, or for the end of this line if it is shorter.
-/
namespace Gml

namespace Text

/-- The position behind some characters that start at a position. -/
def behind (here : Position) : List Char → Position
  | [] => here
  | c :: cs => behind (if c = '\n' then ⟨here.line + 1, 0⟩ else ⟨here.line, here.column + 1⟩) cs

theorem behind_append (here : Position) (before after : List Char) :
    behind here (before ++ after) = behind (behind here before) after := by
  induction before generalizing here with
  | nil => rfl
  | cons c before ih => exact ih _

@[simp] theorem line_behind (here : Position) (cs : List Char) :
    (behind here cs).line = here.line + cs.count '\n' := by
  induction cs generalizing here with
  | nil => rfl
  | cons c cs ih =>
      by_cases hnewline : c = '\n'
      · simp only [behind, hnewline, if_true, ih, List.count_cons_self]
        omega
      · simp [behind, hnewline, ih]

theorem behind_of_notMem {line : List Char} (h : '\n' ∉ line) (here : Position) :
    behind here line = ⟨here.line, here.column + line.length⟩ := by
  induction line generalizing here with
  | nil => rfl
  | cons c line ih =>
      rw [List.mem_cons, not_or] at h
      rw [behind, if_neg (Ne.symm h.1), ih h.2, List.length_cons]
      dsimp only
      rw [Nat.add_assoc, Nat.add_comm 1]

theorem behind_of_opensLine {front : List Char} (h : OpensLine front) :
    behind ⟨0, 0⟩ front = ⟨front.count '\n', 0⟩ := by
  obtain rfl | ⟨before, rfl⟩ := h
  · rfl
  · rw [behind_append]
    simp [behind]

/-! ### Offsets to positions -/

theorem walkTo_of_le {target offset : Nat} (h : target ≤ offset) (here : Position)
    (cs : List Char) : walkTo target offset here cs = here := by
  cases cs with
  | nil => rfl
  | cons c cs => rw [walkTo, if_pos h]

/-- What lies in front of the target is walked through. -/
theorem walkTo_append {target offset : Nat} {before : List Char}
    (h : offset + byteLength before ≤ target) (here : Position) (after : List Char) :
    walkTo target offset here (before ++ after) =
      walkTo target (offset + byteLength before) (behind here before) after := by
  induction before generalizing offset here with
  | nil => rfl
  | cons c before ih =>
      have hsize := c.utf8Size_pos
      rw [byteLength] at h
      have hshort : ¬target ≤ offset := by omega
      have hrest : offset + c.utf8Size + byteLength before ≤ target := by omega
      rw [List.cons_append, walkTo, if_neg hshort, ih hrest, byteLength, ← Nat.add_assoc]
      rfl

theorem positionAt_append (before after : List Char) :
    positionAt (before ++ after) (byteLength before) = behind ⟨0, 0⟩ before := by
  rw [positionAt, walkTo_append (by omega), walkTo_of_le (by omega)]

theorem positionAt_of_le {cs : List Char} {offset : Nat} (h : byteLength cs ≤ offset) :
    positionAt cs offset = behind ⟨0, 0⟩ cs := by
  have hwalk : walkTo offset 0 ⟨0, 0⟩ (cs ++ []) =
      walkTo offset (0 + byteLength cs) (behind ⟨0, 0⟩ cs) [] :=
    walkTo_append (by omega) ⟨0, 0⟩ []
  rwa [List.append_nil] at hwalk

/-- A boundary in a line has the position that its line and the characters in front of it say. -/
theorem positionAt_eq {front line : List Char} (hfront : OpensLine front) (hline : '\n' ∉ line)
    (after : List Char) :
    positionAt (front ++ (line ++ after)) (byteLength (front ++ line)) =
      ⟨front.count '\n', line.length⟩ := by
  rw [← List.append_assoc, positionAt_append, behind_append, behind_of_opensLine hfront,
    behind_of_notMem hline]
  dsimp only
  rw [Nat.zero_add]

/-! ### Positions to offsets -/

/-- The lines in front of the target are walked through. -/
theorem walkUntil?_append {target here : Position} {before : List Char}
    (h : here.line + before.count '\n' < target.line) (offset : Nat) (rest : List Char) :
    walkUntil? target offset here (before ++ '\n' :: rest) =
      walkUntil? target (offset + byteLength (before ++ ['\n']))
        (behind here (before ++ ['\n'])) rest := by
  induction before generalizing offset here with
  | nil =>
      have hline : here.line ≠ target.line := by
        rw [List.count_nil] at h
        omega
      have hhere : here ≠ target := fun heq => hline (congrArg Position.line heq)
      simp [walkUntil?, hline, hhere, behind, byteLength]
  | cons c before ih =>
      have hline : here.line ≠ target.line := by omega
      have hhere : here ≠ target := fun heq => hline (congrArg Position.line heq)
      have hsize : offset + byteLength (c :: (before ++ ['\n'])) =
          offset + c.utf8Size + byteLength (before ++ ['\n']) := by
        rw [byteLength, Nat.add_assoc]
      rw [List.cons_append, List.cons_append, walkUntil?, if_neg hhere, hsize, behind]
      by_cases hnewline : c = '\n'
      · rw [if_pos hnewline, if_neg hline, if_pos hnewline, ih]
        simp only [hnewline, List.count_cons_self] at h
        dsimp only
        omega
      · rw [if_neg hnewline, if_neg hnewline, ih]
        rw [List.count_cons_of_ne hnewline] at h
        exact h

/-- In its line a position is walked to, or the end of the line is. -/
theorem walkUntil?_line {target : Position} {column : Nat} {line after : List Char}
    (hcolumn : column ≤ target.column) (hline : '\n' ∉ line) (hafter : EndsLine after)
    (offset : Nat) :
    walkUntil? target offset ⟨target.line, column⟩ (line ++ after) =
      some (offset + byteLength (line.take (target.column - column))) := by
  induction line generalizing offset column with
  | nil =>
      rw [List.take_nil, byteLength, List.nil_append]
      obtain rfl | ⟨more, rfl⟩ := hafter
      · rw [walkUntil?, if_pos rfl, Nat.add_zero]
      · rw [walkUntil?, if_pos rfl, if_pos rfl, ite_self, Nat.add_zero]
  | cons c line ih =>
      rw [List.mem_cons, not_or] at hline
      rw [List.cons_append, walkUntil?, if_neg (Ne.symm hline.1)]
      by_cases hhere : column = target.column
      · rw [if_pos (by rw [hhere]), hhere, Nat.sub_self, List.take_zero, byteLength, Nat.add_zero]
      · have hother : (⟨target.line, column⟩ : Position) ≠ target :=
          fun heq => hhere (congrArg Position.column heq)
        have hmore : target.column - column = target.column - (column + 1) + 1 := by omega
        rw [if_neg hother]
        dsimp only
        rw [ih (by omega) hline.2, hmore, List.take_succ_cons, byteLength, ← Nat.add_assoc]

theorem walkUntil?_eq_none {target here : Position} {cs : List Char}
    (h : here.line + cs.count '\n' < target.line) (offset : Nat) :
    walkUntil? target offset here cs = none := by
  induction cs generalizing offset here with
  | nil =>
      rw [List.count_nil] at h
      rw [walkUntil?, if_neg (by omega)]
  | cons c cs ih =>
      have hline : here.line ≠ target.line := by omega
      have hhere : here ≠ target := fun heq => hline (congrArg Position.line heq)
      rw [walkUntil?, if_neg hhere, if_neg hline]
      by_cases hnewline : c = '\n'
      · rw [if_pos hnewline, ih]
        simp only [hnewline, List.count_cons_self] at h
        dsimp only
        omega
      · rw [if_neg hnewline, ih]
        rw [List.count_cons_of_ne hnewline] at h
        exact h

/-- A column of a whole line stands for the place behind so many of its characters. -/
theorem offsetAt?_eq {front line after : List Char} (hfront : OpensLine front)
    (hline : '\n' ∉ line) (hafter : EndsLine after) (column : Nat) :
    offsetAt? (front ++ (line ++ after)) ⟨front.count '\n', column⟩ =
      some (byteLength front + byteLength (line.take column)) := by
  have hwalk : offsetAt? (front ++ (line ++ after)) ⟨front.count '\n', column⟩ =
      walkUntil? ⟨front.count '\n', column⟩ (byteLength front) (behind ⟨0, 0⟩ front)
        (line ++ after) := by
    obtain rfl | ⟨before, rfl⟩ := hfront
    · rfl
    · rw [offsetAt?, List.append_assoc, List.singleton_append, walkUntil?_append, Nat.zero_add]
      simp
  rw [hwalk, behind_of_opensLine hfront]
  exact walkUntil?_line (Nat.zero_le column) hline hafter (byteLength front)

theorem offsetAt?_eq_none {cs : List Char} {position : Position}
    (h : cs.count '\n' < position.line) : offsetAt? cs position = none :=
  walkUntil?_eq_none (by rwa [Nat.zero_add]) 0

/-! ### Both ways agree -/

/-- Every line whose number does not exceed the count of newlines is in the text. -/
theorem exists_line {number : Nat} {cs : List Char} (h : number ≤ cs.count '\n') :
    ∃ front line after, cs = front ++ (line ++ after) ∧ OpensLine front ∧ '\n' ∉ line ∧
      EndsLine after ∧ front.count '\n' = number := by
  induction number generalizing cs with
  | zero =>
      obtain ⟨line, after, rfl, hline, hafter⟩ := exists_endsLine cs
      exact ⟨[], line, after, rfl, .inl rfl, hline, hafter, rfl⟩
  | succ number ih =>
      obtain ⟨before, rest, rfl, hbefore⟩ :=
        List.eq_append_cons_of_mem (List.count_pos_iff.mp (Nat.zero_lt_of_lt h))
      have hcount : before.count '\n' = 0 := List.count_eq_zero.mpr hbefore
      rw [List.count_append, hcount, List.count_cons_self] at h
      have hless : number ≤ rest.count '\n' := by omega
      obtain ⟨front, line, after, rfl, hfront, hline, hafter, hnumber⟩ := ih hless
      refine ⟨before ++ '\n' :: front, line, after, by simp, .inr ?_, hline, hafter, ?_⟩
      · obtain rfl | ⟨first, rfl⟩ := hfront
        · exact ⟨before, rfl⟩
        · exact ⟨before ++ '\n' :: first, by simp⟩
      · rw [List.count_append, hcount, List.count_cons_self, hnumber, Nat.zero_add]

end Text

namespace LineIndex

open Text

theorem position_of_le {text : String} {offset : Nat} (h : text.utf8ByteSize ≤ offset) :
    (ofText text).position offset = (ofText text).position text.utf8ByteSize := by
  rw [position, position, ofText, Nat.min_eq_right h, Nat.min_self]

theorem offset?_eq_none {text : String} {position : Position}
    (h : text.toList.count '\n' < position.line) : (ofText text).offset? position = none := by
  have hbeyond : (ofText text).starts[position.line]? = none := by
    rw [List.getElem?_eq_none_iff, ofText, List.length_cons, length_startsAfter]
    exact h
  rw [offset?, hbeyond]
  rfl

/-- Walking through a text and looking lines up in the table lead to the same positions of
boundaries and of what lies behind the text, and to the same offsets of all positions. -/
theorem agrees_with_walking (text : String) :
    (∀ offset, isBoundary text.toList offset = true ∨ text.utf8ByteSize < offset →
      positionAt text.toList offset = (ofText text).position offset) ∧
    ∀ position, offsetAt? text.toList position = (ofText text).offset? position := by
  have hboundary : ∀ offset, isBoundary text.toList offset = true →
      positionAt text.toList offset = (ofText text).position offset := by
    intro offset hoffset
    obtain ⟨before, after, htext, rfl⟩ := isBoundary_iff.mp hoffset
    obtain ⟨front, line, rfl, hfront, hline⟩ := exists_opensLine before
    rw [List.append_assoc] at htext
    rw [position_eq htext hfront hline, htext, positionAt_eq hfront hline]
  constructor
  · rintro offset (hoffset | hbeyond)
    · exact hboundary offset hoffset
    · have hend : isBoundary text.toList text.utf8ByteSize = true := by
        rw [← byteLength_toList, isBoundary_iff]
        exact ⟨text.toList, [], by simp, rfl⟩
      rw [position_of_le (by omega), ← hboundary _ hend, ← byteLength_toList,
        positionAt_of_le (Nat.le_refl _), positionAt_of_le (by rw [byteLength_toList]; omega)]
  · intro position
    by_cases hline : position.line ≤ text.toList.count '\n'
    · obtain ⟨front, line, after, htext, hfront, hnone, hafter, hnumber⟩ := exists_line hline
      have hposition : position = ⟨front.count '\n', position.column⟩ := by rw [hnumber]
      rw [hposition, offset?_eq htext hfront hnone hafter, htext,
        offsetAt?_eq hfront hnone hafter]
    · rw [offsetAt?_eq_none (by omega), offset?_eq_none (by omega)]

/-- The line behind the last newline is empty, and all that lies behind the text is there. -/
theorem agrees_on_empty_last_line :
    isBoundary "é\n".toList 2 = true ∧ "é\n".utf8ByteSize < 7 ∧
      (ofText "é\n").position 2 = ⟨0, 1⟩ ∧ (ofText "é\n").position 7 = ⟨1, 0⟩ ∧
      (ofText "é\n").offset? ⟨0, 9⟩ = some 2 ∧ (ofText "é\n").offset? ⟨1, 4⟩ = some 3 ∧
      (ofText "é\n").offset? ⟨2, 0⟩ = none := by
  have hboundary : isBoundary "é\n".toList 2 = true := by decide
  have hbeyond : "é\n".utf8ByteSize < 7 := by decide
  obtain ⟨hposition, hoffset⟩ := agrees_with_walking "é\n"
  refine ⟨hboundary, hbeyond, ?_, ?_, ?_, ?_, ?_⟩
  · exact (hposition 2 (.inl hboundary)).symm
  · exact (hposition 7 (.inr hbeyond)).symm
  · exact (hoffset ⟨0, 9⟩).symm
  · exact (hoffset ⟨1, 4⟩).symm
  · exact (hoffset ⟨2, 0⟩).symm

end LineIndex

end Gml
