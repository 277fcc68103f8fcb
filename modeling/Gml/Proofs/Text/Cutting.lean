import Gml.Text.Blank
import Mathlib.Data.List.DropRight
import Mathlib.Data.List.TakeWhile

/-!
# Cutting and trimming

What is cut off a text at a character, and what is left of it without the blanks at its ends.
Trimming twice is trimming once, and a text whose ends are no blanks is left as it is.
-/
namespace Gml

namespace Text

variable {p : Char → Bool} {c d : Char} {cs before after : List Char}

/-! ### Blanks at the ends -/

@[simp] theorem trim_nil : trim [] = [] := rfl

theorem trim_sublist (cs : List Char) : (trim cs).Sublist cs :=
  (List.rdropWhile_prefix isBlank _).sublist.trans (List.dropWhile_sublist isBlank)

theorem trimStart_of_not_blank (h : isBlank c = false) (cs : List Char) :
    trimStart (c :: cs) = c :: cs :=
  List.dropWhile_cons_of_neg (by simp [h])

theorem trimEnd_of_not_blank (h : isBlank c = false) (cs : List Char) :
    trimEnd (cs ++ [c]) = cs ++ [c] :=
  List.rdropWhile_concat_neg isBlank cs c (by simp [h])

/-- What stands between two characters that are no blanks is left as it is. -/
theorem trim_enclosed (hc : isBlank c = false) (hd : isBlank d = false) (cs : List Char) :
    trim (c :: (cs ++ [d])) = c :: (cs ++ [d]) := by
  rw [trim, trimStart_of_not_blank hc, ← List.cons_append, trimEnd_of_not_blank hd]

theorem trim_cons_of_blank (h : isBlank c = true) (cs : List Char) : trim (c :: cs) = trim cs := by
  rw [trim, trimStart, List.dropWhile_cons_of_pos h]
  rfl

theorem trim_concat_of_blank (h : isBlank c = true) (cs : List Char) :
    trim (cs ++ [c]) = trim cs := by
  rw [trim, trim, trimStart, trimStart, List.dropWhile_append]
  split
  next hempty =>
      rw [List.isEmpty_iff.mp hempty, List.dropWhile_cons_of_pos h]
      rfl
  · exact List.rdropWhile_concat_pos isBlank _ _ h

theorem trimEnd_append_of_blank {cs blanks : List Char} (h : ∀ c ∈ blanks, isBlank c = true) :
    trimEnd (cs ++ blanks) = trimEnd cs := by
  induction blanks generalizing cs with
  | nil => rw [List.append_nil]
  | cons c blanks ih =>
      obtain ⟨hc, hmore⟩ := List.forall_mem_cons.mp h
      rw [List.append_cons, ih hmore]
      exact List.rdropWhile_concat_pos isBlank cs c hc

theorem trim_eq_self (h : ∀ c ∈ cs, isBlank c = false) : trim cs = cs := by
  have hstart : trimStart cs = cs :=
    List.dropWhile_eq_self_iff.mpr fun hlength => by simp [h _ (List.getElem_mem hlength)]
  have hend : trimEnd cs = cs :=
    List.rdropWhile_eq_self_iff.mpr fun hne => by simp [h _ (List.getLast_mem hne)]
  rw [trim, hstart, hend]

theorem trimStart_trim (cs : List Char) : trimStart (trim cs) = trim cs := by
  cases htrim : trim cs with
  | nil => rfl
  | cons c rest =>
      obtain ⟨blanks, hblanks⟩ : trim cs <+: trimStart cs := List.rdropWhile_prefix isBlank _
      rw [htrim] at hblanks
      have hne : cs.dropWhile isBlank ≠ [] := by
        rw [← trimStart, ← hblanks]
        exact List.cons_ne_nil _ _
      have hhead := List.head_dropWhile_not isBlank hne
      simp only [← trimStart.eq_def, ← hblanks, List.cons_append, List.head_cons] at hhead
      exact trimStart_of_not_blank hhead rest

@[simp] theorem trim_trim (cs : List Char) : trim (trim cs) = trim cs := by
  conv => lhs; rw [trim, trimStart_trim, trim]
  exact List.rdropWhile_idempotent isBlank _

/-! ### Cutting at every place -/

theorem splitAll_eq_splitOnP (p : Char → Bool) (cs : List Char) :
    splitAll p cs = cs.splitOnP p := by
  induction cs with
  | nil => rw [List.splitOnP_nil]; rfl
  | cons c cs ih =>
      rw [splitAll, List.splitOnP_cons_eq_if_modifyHead, ih]
      split
      · rfl
      · cases hparts : cs.splitOnP p with
        | nil => exact absurd hparts (List.splitOnP_ne_nil p cs)
        | cons part parts => rfl

/-- No part of a text that is cut has a character at which it is cut. -/
theorem eq_false_of_mem_splitAll {p : Char → Bool} {cs part : List Char}
    (h : part ∈ splitAll p cs) {c : Char} (hc : c ∈ part) : p c = false := by
  induction cs generalizing part with
  | nil =>
      rw [List.mem_singleton.mp h] at hc
      cases hc
  | cons d cs ih =>
      rw [splitAll] at h
      split at h
      · rcases List.mem_cons.mp h with rfl | h
        · cases hc
        · exact ih h hc
      next hd =>
          have hd' : p d = false := Bool.eq_false_iff.mpr hd
          split at h
          next first parts hparts =>
              rcases List.mem_cons.mp h with rfl | h
              · rcases List.mem_cons.mp hc with rfl | hc
                · exact hd'
                · exact ih (hparts ▸ List.mem_cons_self) hc
              · exact ih (hparts ▸ List.mem_cons_of_mem first h) hc
          · rw [List.mem_singleton.mp h, List.mem_singleton] at hc
            rw [hc]
            exact hd'

/-- The first part ends where the text is cut for the first time. -/
theorem splitAll_append (h : ∀ d ∈ before, p d = false) (hc : p c = true) (after : List Char) :
    splitAll p (before ++ c :: after) = before :: splitAll p after := by
  rw [splitAll_eq_splitOnP, splitAll_eq_splitOnP,
    List.splitOnP_append_cons_of_forall_mem h c hc after]

/-- At a character at which it is cut a text falls into two that are cut apart from each other. -/
theorem splitAll_append_cons (hc : p c = true) (before after : List Char) :
    splitAll p (before ++ c :: after) = splitAll p before ++ splitAll p after := by
  induction before with
  | nil => simp [splitAll, hc]
  | cons d before ih =>
      rw [List.cons_append, splitAll, splitAll, ih]
      split
      · rfl
      · cases hparts : splitAll p before with
        | nil =>
            rw [splitAll_eq_splitOnP] at hparts
            exact absurd hparts (List.splitOnP_ne_nil p before)
        | cons part parts => rfl

/-- What stands before the first cut belongs to the first part. -/
theorem splitAll_append_left (h : ∀ d ∈ before, p d = false) (cs : List Char) :
    splitAll p (before ++ cs) = (splitAll p cs).modifyHead (before ++ ·) := by
  rw [splitAll_eq_splitOnP, splitAll_eq_splitOnP]
  induction before with
  | nil => exact (congrFun List.modifyHead_id _).symm
  | cons d before ih =>
      obtain ⟨hd, hmore⟩ := List.forall_mem_cons.mp h
      rw [List.cons_append, List.splitOnP_cons_eq_if_modifyHead, hd, if_neg Bool.false_ne_true,
        ih hmore, List.modifyHead_modifyHead]
      rfl

theorem splitAll_of_forall (h : ∀ d ∈ cs, p d = false) : splitAll p cs = [cs] := by
  rw [splitAll_eq_splitOnP, List.splitOnP_eq_singleton h]

/-- A blank that follows a cut counts nothing once the parts are trimmed. -/
theorem map_trim_splitAll_cons (hblank : isBlank c = true) (hc : p c = false) (cs : List Char) :
    (splitAll p (c :: cs)).map trim = (splitAll p cs).map trim := by
  rw [splitAll, hc, if_neg Bool.false_ne_true]
  cases hparts : splitAll p cs with
  | nil =>
      rw [splitAll_eq_splitOnP] at hparts
      exact absurd hparts (List.splitOnP_ne_nil p cs)
  | cons part parts =>
      dsimp only
      rw [List.map_cons, List.map_cons, trim_cons_of_blank hblank]

/-! ### Cutting once -/

theorem dropWord?_append (word cs : List Char) : dropWord? word (word ++ cs) = some cs := by
  induction word with
  | nil => rfl
  | cons w word ih => rw [List.cons_append, dropWord?, if_pos rfl, ih]

theorem dropEnding?_append (word cs : List Char) : dropEnding? word (cs ++ word) = some cs := by
  rw [dropEnding?, List.reverse_append, dropWord?_append, Option.map_some, List.reverse_reverse]

theorem splitFirst?_append (h : ∀ d ∈ before, p d = false) (hc : p c = true)
    (after : List Char) : splitFirst? p (before ++ c :: after) = some (before, after) := by
  induction before with
  | nil => rw [List.nil_append, splitFirst?, if_pos hc]
  | cons d before ih =>
      obtain ⟨hd, hmore⟩ := List.forall_mem_cons.mp h
      rw [List.cons_append, splitFirst?, hd, if_neg Bool.false_ne_true, ih hmore]
      rfl

theorem splitFirst?_eq_some_iff : splitFirst? p cs = some (before, after) ↔
    ∃ c, cs = before ++ c :: after ∧ p c = true ∧ ∀ d ∈ before, p d = false := by
  constructor
  · intro h
    induction cs generalizing before with
    | nil => cases h
    | cons c cs ih =>
        rw [splitFirst?] at h
        split at h
        next hc =>
            cases h
            exact ⟨c, rfl, hc, by simp⟩
        next hc =>
            obtain ⟨⟨first, rest⟩, hsplit, heq⟩ := Option.map_eq_some_iff.mp h
            cases heq
            obtain ⟨d, rfl, hd, hbefore⟩ := ih hsplit
            exact ⟨d, rfl, hd, List.forall_mem_cons.mpr ⟨Bool.eq_false_iff.mpr hc, hbefore⟩⟩
  · rintro ⟨c, rfl, hc, hbefore⟩
    exact splitFirst?_append hbefore hc after

theorem splitFirst?_eq_none_iff : splitFirst? p cs = none ↔ ∀ c ∈ cs, p c = false := by
  induction cs with
  | nil => simp [splitFirst?]
  | cons c cs ih =>
      rw [splitFirst?, List.forall_mem_cons]
      split
      next hc => simp [hc]
      next hc => rw [Option.map_eq_none_iff, ih, and_iff_right (Bool.eq_false_iff.mpr hc)]

/-- What stands before the first cut, or all if there is none. -/
theorem takeWhile_eq_splitFirst? (p : Char → Bool) (cs : List Char) :
    cs.takeWhile (!p ·) = ((splitFirst? p cs).map Prod.fst).getD cs := by
  cases hsplit : splitFirst? p cs with
  | none =>
      have hall := splitFirst?_eq_none_iff.mp hsplit
      exact List.takeWhile_eq_self_iff.mpr fun c hc => by simp [hall c hc]
  | some parts =>
      obtain ⟨before, after⟩ := parts
      obtain ⟨c, rfl, hc, hbefore⟩ := splitFirst?_eq_some_iff.mp hsplit
      rw [List.takeWhile_append_of_pos fun d hd => by simp [hbefore d hd],
        List.takeWhile_cons_of_neg (by simp [hc]), List.append_nil]
      rfl

theorem dropLast?_concat (c : Char) (cs : List Char) : dropLast? c (cs ++ [c]) = some cs := by
  rw [dropLast?, if_pos List.getLast?_concat, List.dropLast_concat]

theorem dropLast?_eq_some_iff : dropLast? c cs = some before ↔ cs = before ++ [c] := by
  constructor
  · intro h
    rw [dropLast?] at h
    split at h
    next hlast =>
        cases h
        exact (List.dropLast_append_getLast? c hlast).symm
    · cases h
  · rintro rfl
    exact dropLast?_concat c before

theorem dropLast?_eq_none_iff : dropLast? c cs = none ↔ cs.getLast? ≠ some c := by
  rw [dropLast?]
  split <;> simp_all

end Text

end Gml
