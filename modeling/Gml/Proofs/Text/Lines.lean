import Gml.Proofs.Text.Pieces
import Gml.Text.Position
import Mathlib.Data.List.Induction

/-!
# Lines of a text

A character boundary divides a text at some place of some line. Its position counts the
newlines in front of the line and the characters in front of the boundary, and from this
position the offset of the boundary is found again.
-/
namespace Gml

namespace Text

/-- A new line starts behind these characters. -/
def OpensLine (front : List Char) : Prop := front = [] ∨ ∃ before, front = before ++ ['\n']

/-- A line ends in front of these characters. -/
def EndsLine (rest : List Char) : Prop := rest = [] ∨ ∃ more, rest = '\n' :: more

theorem exists_opensLine (before : List Char) :
    ∃ front line, before = front ++ line ∧ OpensLine front ∧ '\n' ∉ line := by
  induction before using List.reverseRecOn with
  | nil => exact ⟨[], [], rfl, .inl rfl, List.not_mem_nil⟩
  | append_singleton before c ih =>
      by_cases hnewline : c = '\n'
      · subst hnewline
        exact ⟨before ++ ['\n'], [], by rw [List.append_nil], .inr ⟨before, rfl⟩, List.not_mem_nil⟩
      · obtain ⟨front, line, rfl, hfront, hline⟩ := ih
        refine ⟨front, line ++ [c], List.append_assoc .., hfront, ?_⟩
        rw [List.mem_append, List.mem_singleton, not_or]
        exact ⟨hline, Ne.symm hnewline⟩

theorem exists_endsLine (after : List Char) :
    ∃ line rest, after = line ++ rest ∧ '\n' ∉ line ∧ EndsLine rest := by
  induction after with
  | nil => exact ⟨[], [], rfl, List.not_mem_nil, .inl rfl⟩
  | cons c after ih =>
      by_cases hnewline : c = '\n'
      · exact ⟨[], c :: after, rfl, List.not_mem_nil, .inr ⟨after, by rw [hnewline]⟩⟩
      · obtain ⟨line, rest, rfl, hline, hrest⟩ := ih
        refine ⟨c :: line, rest, rfl, ?_, hrest⟩
        rw [List.mem_cons, not_or]
        exact ⟨Ne.symm hnewline, hline⟩

/-- A boundary divides a line of the text. -/
theorem exists_divided_line {cs : List Char} {offset : Nat} (h : isBoundary cs offset = true) :
    ∃ front line tail rest, cs = front ++ (line ++ (tail ++ rest)) ∧ OpensLine front ∧
      '\n' ∉ line ++ tail ∧ EndsLine rest ∧ byteLength (front ++ line) = offset := by
  obtain ⟨before, after, rfl, rfl⟩ := isBoundary_iff.mp h
  obtain ⟨front, line, rfl, hfront, hline⟩ := exists_opensLine before
  obtain ⟨tail, rest, rfl, htail, hrest⟩ := exists_endsLine after
  refine ⟨front, line, tail, rest, List.append_assoc .., hfront, ?_, hrest, rfl⟩
  rw [List.mem_append, not_or]
  exact ⟨hline, htail⟩

end Text

namespace LineIndex

open Text

/-! ### Line starts -/

theorem startsAfter_append (offset : Nat) (before after : List Char) :
    startsAfter offset (before ++ after) =
      startsAfter offset before ++ startsAfter (offset + byteLength before) after := by
  induction before generalizing offset with
  | nil => rfl
  | cons c before ih =>
      have hnext : startsAfter (offset + c.utf8Size) (before ++ after) =
          startsAfter (offset + c.utf8Size) before ++
            startsAfter (offset + byteLength (c :: before)) after := by
        rw [ih, byteLength, Nat.add_assoc]
      rw [List.cons_append, startsAfter, startsAfter, hnext]
      split
      · rfl
      · rfl

theorem length_startsAfter (offset : Nat) (cs : List Char) :
    (startsAfter offset cs).length = cs.count '\n' := by
  induction cs generalizing offset with
  | nil => rfl
  | cons c cs ih =>
      rw [startsAfter, List.count_cons]
      by_cases hnewline : c = '\n'
      · simp [hnewline, ih]
      · simp [hnewline, ih]

theorem startsAfter_of_notMem {cs : List Char} (h : '\n' ∉ cs) (offset : Nat) :
    startsAfter offset cs = [] := by
  rw [← List.length_eq_zero_iff, length_startsAfter, List.count_eq_zero]
  exact h

theorem mem_startsAfter {offset start : Nat} {cs : List Char} (h : start ∈ startsAfter offset cs) :
    offset < start ∧ start ≤ offset + byteLength cs := by
  induction cs generalizing offset with
  | nil => cases h
  | cons c cs ih =>
      have hsize := c.utf8Size_pos
      rw [startsAfter] at h
      rw [byteLength]
      have hlater : start ∈ startsAfter (offset + c.utf8Size) cs →
          offset < start ∧ start ≤ offset + (c.utf8Size + byteLength cs) := by
        intro hmem
        have hbounds := ih hmem
        omega
      split at h
      · rcases List.mem_cons.mp h with rfl | hmem
        · omega
        · exact hlater hmem
      · exact hlater h

/-- The last line of what is read so far starts where it ends, if a line starts there. -/
theorem getElem?_starts_of_opensLine {front : List Char} (h : OpensLine front) :
    (0 :: startsAfter 0 front)[front.count '\n']? = some (byteLength front) := by
  obtain rfl | ⟨before, rfl⟩ := h
  · rfl
  · have hlast : startsAfter (0 + byteLength before) ['\n'] = [byteLength (before ++ ['\n'])] := by
      rw [byteLength_append, Nat.zero_add]
      rfl
    have hcount : (before ++ ['\n']).count '\n' = (startsAfter 0 before).length + 1 := by
      rw [List.count_append, length_startsAfter]
      rfl
    rw [startsAfter_append, hlast, hcount, List.getElem?_cons_succ, List.getElem?_concat_length]

section

variable {text : String} {front line after : List Char}

/-- The lines that start in front of a line with it, and those that start behind. -/
theorem starts_eq (h : text.toList = front ++ (line ++ after)) (hline : '\n' ∉ line) :
    (ofText text).starts =
      (0 :: startsAfter 0 front) ++ startsAfter (byteLength (front ++ line)) after := by
  rw [ofText, h]
  dsimp only
  rw [startsAfter_append, startsAfter_append, startsAfter_of_notMem hline, Nat.zero_add,
    List.nil_append, ← byteLength_append]
  rfl

theorem slice?_line (h : text.toList = front ++ (line ++ after)) :
    slice? (ofText text).chars (byteLength front) (byteLength (front ++ line)) = some line := by
  have hstands : StandsAt line (byteLength front) (ofText text).chars := ⟨front, after, h, rfl⟩
  rw [byteLength_append]
  exact hstands.slice?

/-- A boundary in a line has the position that its line and the characters in front of it say. -/
theorem position_eq (h : text.toList = front ++ (line ++ after)) (hfront : OpensLine front)
    (hline : '\n' ∉ line) :
    (ofText text).position (byteLength (front ++ line)) = ⟨front.count '\n', line.length⟩ := by
  have hsize : min (byteLength (front ++ line)) (ofText text).size = byteLength (front ++ line) := by
    have hall : (ofText text).size = byteLength (front ++ line) + byteLength after := by
      rw [ofText, ← byteLength_toList, h, ← List.append_assoc, byteLength_append]
    omega
  have hstarts := starts_eq h hline
  have hbefore : (0 :: startsAfter 0 front).countP (· ≤ byteLength (front ++ line)) =
      front.count '\n' + 1 := by
    rw [← length_startsAfter 0 front, ← List.length_cons (a := 0), List.countP_eq_length]
    intro start hstart
    rw [decide_eq_true_eq, byteLength_append]
    rcases List.mem_cons.mp hstart with rfl | hmem
    · exact Nat.zero_le _
    · have hbound := (mem_startsAfter hmem).2
      omega
  have hbehind : (startsAfter (byteLength (front ++ line)) after).countP
      (· ≤ byteLength (front ++ line)) = 0 := by
    rw [List.countP_eq_zero]
    intro start hstart hle
    have hbound := (mem_startsAfter hstart).1
    rw [decide_eq_true_eq] at hle
    omega
  have hnumber : (ofText text).starts.countP (· ≤ byteLength (front ++ line)) - 1 =
      front.count '\n' := by
    rw [hstarts, List.countP_append, hbefore, hbehind]
    rfl
  have hstart : (ofText text).starts.getD (front.count '\n') 0 = byteLength front := by
    rw [hstarts, List.getD_eq_getElem?_getD, List.getElem?_append_left,
      getElem?_starts_of_opensLine hfront, Option.getD_some]
    rw [List.length_cons, length_startsAfter]
    exact Nat.lt_succ_self _
  rw [position, hsize, hnumber, hstart, slice?_line h, Option.getD_some]

/-- A column of a whole line stands for the place behind so many of its characters. -/
theorem offset?_eq (h : text.toList = front ++ (line ++ after)) (hfront : OpensLine front)
    (hline : '\n' ∉ line) (hafter : EndsLine after) (column : Nat) :
    (ofText text).offset? ⟨front.count '\n', column⟩ =
      some (byteLength front + byteLength (line.take column)) := by
  have hstarts := starts_eq h hline
  have hlength : (0 :: startsAfter 0 front).length = front.count '\n' + 1 := by
    rw [List.length_cons, length_startsAfter]
  have hstart : (ofText text).starts[front.count '\n']? = some (byteLength front) := by
    rw [hstarts, List.getElem?_append_left (by omega), getElem?_starts_of_opensLine hfront]
  have hnext : (ofText text).starts[front.count '\n' + 1]? =
      (startsAfter (byteLength (front ++ line)) after)[0]? := by
    rw [hstarts, List.getElem?_append_right (by omega), hlength, Nat.sub_self]
  rw [offset?, hstart, hnext]
  obtain rfl | ⟨more, rfl⟩ := hafter
  · have hsize : (ofText text).size = byteLength (front ++ line) := by
      rw [ofText, ← byteLength_toList, h, List.append_nil]
    dsimp only [Option.bind_eq_bind, Option.bind_some, startsAfter, List.getElem?_nil]
    rw [hsize, slice?_line h]
    rfl
  · dsimp only [Option.bind_eq_bind, Option.bind_some, startsAfter]
    rw [if_pos rfl, List.getElem?_cons_zero]
    dsimp only
    rw [show '\n'.utf8Size = 1 from rfl, Nat.add_sub_cancel, slice?_line h]
    rfl

end

/-- The offset of a boundary is found again from its position. -/
theorem offset?_position {text : String} {offset : Nat}
    (h : isBoundary text.toList offset = true) :
    (ofText text).offset? ((ofText text).position offset) = some offset := by
  obtain ⟨front, line, tail, rest, htext, hfront, hnone, hrest, rfl⟩ := exists_divided_line h
  have hwhole : text.toList = front ++ ((line ++ tail) ++ rest) := by
    rw [htext, List.append_assoc]
  have hline : '\n' ∉ line := fun hmem => hnone (List.mem_append_left tail hmem)
  rw [position_eq htext hfront hline, offset?_eq hwhole hfront hnone hrest, List.take_left,
    byteLength_append]

end LineIndex

end Gml
