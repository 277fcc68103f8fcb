import Gml.Manual.Sentences
import Gml.Proofs.Text.Cutting

/-!
# The first sentences of a text

Some first sentences are a front of the text, and the front ends where its last sentence ends.
There the text may go on with a blank only, so whether a mark ends a sentence does not change when
the text is cut behind a later one. Cutting twice is therefore cutting once, at the smaller of the
two numbers.
-/
namespace Gml.Sentences

variable {c : Char} {cs : List Char}

/-- The number of marks that a blank or the end of the text follows. -/
def ends : List Char → Nat
  | [] => 0
  | c :: cs => (if isMark c && endsBefore cs then 1 else 0) + ends cs

/-- A text is cut behind a mark, with a blank next, and this is where its sentence of some number
ends. -/
def CutAfter (count : Nat) (cs front : List Char) : Prop :=
  ∃ inner mark blank rest, front = inner ++ [mark] ∧ cs = front ++ blank :: rest ∧
    isMark mark = true ∧ Text.isBlank blank = true ∧ ends front = count

theorem isBlank_of_isMark (h : isMark c = true) : Text.isBlank c = false := by
  simp only [isMark, Bool.or_eq_true, beq_iff_eq] at h
  rcases h with (rfl | rfl) | rfl <;> decide

/-! ### Taking sentences -/

theorem take_of_end (h : (isMark c && endsBefore cs) = true) :
    take 0 (c :: cs) = [c] ∧ ∀ n, take (n + 1) (c :: cs) = c :: take n cs :=
  ⟨if_pos h, fun _ => if_pos h⟩

theorem take_of_not_end (h : ¬(isMark c && endsBefore cs) = true) (n : Nat) :
    take n (c :: cs) = c :: take n cs := by
  rw [take.eq_def]
  exact if_neg h

theorem take_isPrefix (n : Nat) (cs : List Char) : take n cs <+: cs := by
  fun_induction take n cs with
  | case1 => exact List.prefix_rfl
  | case2 c cs => exact ⟨cs, rfl⟩
  | case3 c cs _ n ih => exact List.cons_prefix_cons.mpr ⟨rfl, ih⟩
  | case4 n c cs _ ih => exact List.cons_prefix_cons.mpr ⟨rfl, ih⟩

/-- A front of a text starts like the text. -/
theorem endsBefore_take (n : Nat) (cs : List Char) : endsBefore (take n cs) = endsBefore cs := by
  cases cs with
  | nil => rw [take]
  | cons c cs =>
      by_cases hend : (isMark c && endsBefore cs) = true
      · cases n with
        | zero => rw [(take_of_end hend).1, endsBefore, endsBefore]
        | succ n => rw [(take_of_end hend).2, endsBefore, endsBefore]
      · rw [take_of_not_end hend, endsBefore, endsBefore]

/-- The last sentence that is taken ends with the front, and it ended at the same mark before. -/
theorem take_take (n m : Nat) (cs : List Char) : take n (take m cs) = take (min n m) cs := by
  induction cs generalizing n m with
  | nil => simp [take]
  | cons c cs ih =>
      by_cases hend : (isMark c && endsBefore cs) = true
      · have hagain : ∀ rest, endsBefore rest = true → (isMark c && endsBefore rest) = true :=
          fun _ hrest => Bool.and_eq_true_iff.mpr ⟨(Bool.and_eq_true_iff.mp hend).1, hrest⟩
        cases m with
        | zero =>
            have hlast := hagain [] rfl
            rw [Nat.min_zero, (take_of_end hend).1]
            cases n with
            | zero => exact (take_of_end hlast).1
            | succ n => rw [(take_of_end hlast).2, take]
        | succ m =>
            have hrest := hagain (take m cs) (by
              rw [endsBefore_take]
              exact (Bool.and_eq_true_iff.mp hend).2)
            rw [(take_of_end hend).2]
            cases n with
            | zero => rw [Nat.zero_min, (take_of_end hrest).1, (take_of_end hend).1]
            | succ n => rw [Nat.succ_min_succ, (take_of_end hrest).2, (take_of_end hend).2, ih]
      · have hrest : ¬(isMark c && endsBefore (take m cs)) = true := by
          rwa [endsBefore_take]
        rw [take_of_not_end hend, take_of_not_end hend, take_of_not_end hrest, ih]

/-- Either the text has no more sentences than are taken, or it goes on behind the last one. -/
theorem take_cases (n : Nat) (cs : List Char) :
    take n cs = cs ∧ ends cs ≤ n + 1 ∨ CutAfter (n + 1) cs (take n cs) := by
  fun_induction take n cs with
  | case1 n => exact .inl ⟨rfl, Nat.zero_le _⟩
  | case2 c cs hend =>
      obtain ⟨hmark, hbefore⟩ := Bool.and_eq_true_iff.mp hend
      cases cs with
      | nil => exact .inl ⟨rfl, by simp [ends, hmark, endsBefore]⟩
      | cons blank rest =>
          exact .inr ⟨[], c, blank, rest, rfl, rfl, hmark, hbefore, by simp [ends, hmark, endsBefore]⟩
  | case3 c cs hend n ih =>
      rcases ih with ⟨hall, hfew⟩ | ⟨inner, mark, blank, rest, hfront, hcs, hmark, hblank, hcount⟩
      · refine .inl ⟨by rw [hall], ?_⟩
        rw [ends, if_pos hend]
        omega
      · refine .inr ⟨c :: inner, mark, blank, rest, ?_, ?_, hmark, hblank, ?_⟩
        · rw [hfront, List.cons_append]
        · rw [List.cons_append, ← hcs]
        · rw [ends, endsBefore_take, if_pos hend, hcount]
          omega
  | case4 n c cs hend ih =>
      rcases ih with ⟨hall, hfew⟩ | ⟨inner, mark, blank, rest, hfront, hcs, hmark, hblank, hcount⟩
      · refine .inl ⟨by rw [hall], ?_⟩
        rw [ends, if_neg hend]
        omega
      · refine .inr ⟨c :: inner, mark, blank, rest, ?_, ?_, hmark, hblank, ?_⟩
        · rw [hfront, List.cons_append]
        · rw [List.cons_append, ← hcs]
        · rw [ends, endsBefore_take, if_neg hend, hcount]
          omega

/-! ### Blanks around the text -/

/-- A front that starts and ends like a trimmed text, or ends with a mark, is trimmed. -/
theorem trim_take (n : Nat) (h : Text.trim cs = cs) : Text.trim (take n cs) = take n cs := by
  rcases take_cases n cs with ⟨hall, -⟩ | ⟨inner, mark, blank, rest, hfront, hcs, hmark, -, -⟩
  · rw [hall, h]
  · have hlast := isBlank_of_isMark hmark
    rw [hfront]
    cases inner with
    | nil => exact Text.trim_eq_self (by simpa using hlast)
    | cons first inner =>
        -- The front starts with the first character of the text, which is no blank.
        have hfirst : Text.isBlank first = false := by
          by_contra hblank
          rw [Bool.not_eq_false] at hblank
          rw [hfront, List.cons_append, List.cons_append] at hcs
          have hshorter := (Text.trim_sublist (inner ++ [mark] ++ blank :: rest)).length_le
          rw [hcs, Text.trim_cons_of_blank hblank] at h
          rw [h, List.length_cons] at hshorter
          omega
        exact Text.trim_enclosed hfirst hlast inner

theorem toList_first (text : String) (n : Nat) :
    (first text (n + 1)).toList = take n (Text.trim text.toList) := by
  rw [first, String.toList_ofList]

/-- Some first sentences are the trimmed text, which then has no more of them, or the front of it
that a blank follows where the last of them ends. More sentences are a longer front, and sentences
of a front are those of the text. -/
theorem first_is_consistent_front (text : String) {n m : Nat} (hn : 0 < n) (hm : 0 < m) :
    let whole := Text.trim text.toList
    (first text n).toList <+: whole ∧
      ((first text n).toList = whole ∧ ends whole ≤ n ∨ CutAfter n whole (first text n).toList) ∧
      (n ≤ m → (first text n).toList <+: (first text m).toList) ∧
      first (first text m) n = first text (min n m) := by
  intro whole
  obtain ⟨n, rfl⟩ := Nat.exists_eq_add_one.mpr hn
  obtain ⟨m, rfl⟩ := Nat.exists_eq_add_one.mpr hm
  rw [toList_first, toList_first]
  refine ⟨take_isPrefix n whole, take_cases n whole, fun hle => ?_, ?_⟩
  · rw [← Nat.min_eq_left (Nat.le_of_succ_le_succ hle), ← take_take]
    exact take_isPrefix n _
  · rw [← String.toList_inj, toList_first, toList_first, Nat.succ_min_succ, toList_first,
      trim_take m (Text.trim_trim _), take_take]

/-- A point inside a number ends no sentence, and the one at a cut still does. -/
theorem first_of_three_sentences :
    (0 < 1 ∧ 0 < 2) ∧ first (first " Is 0.5 enough?  Yes. No." 2) 1 = "Is 0.5 enough?" ∧
      CutAfter 2 "Is 0.5 enough?  Yes. No.".toList "Is 0.5 enough?  Yes.".toList := by
  obtain ⟨-, -, -, htwice⟩ := first_is_consistent_front " Is 0.5 enough?  Yes. No."
    Nat.one_pos Nat.two_pos
  obtain ⟨-, hcut, -⟩ := first_is_consistent_front " Is 0.5 enough?  Yes. No."
    Nat.two_pos Nat.one_pos
  refine ⟨⟨Nat.one_pos, Nat.two_pos⟩, htwice.trans (by decide +kernel), ?_⟩
  exact hcut.resolve_left (by decide +kernel)

end Gml.Sentences
