import Gml.Proofs.Text.Walking
import Gml.Text.Edit

/-!
# Changes as splices

A change with a range replaces the bytes between two boundaries of the text that the
changes before it left. The boundaries are those that the positions of the range stand
for; a range fits if its lines exist and its end is not in front of its start.
-/
namespace Gml

open Text

/-- The position stands for the place behind so many characters of its line, or for the end of
the line if that is shorter. -/
def Position.StandsFor (position : Position) (cs : List Char) (offset : Nat) : Prop :=
  ∃ front line after, cs = front ++ (line ++ after) ∧ OpensLine front ∧ '\n' ∉ line ∧
    EndsLine after ∧ front.count '\n' = position.line ∧
    byteLength (front ++ line.take position.column) = offset

/-- The text has other bytes between two offsets. -/
def replaceBytes (bytes : ByteArray) (start stop : Nat) (inner : ByteArray) : ByteArray :=
  bytes.extract 0 start ++ inner ++ bytes.extract stop bytes.size

/-- The range names a line that does not exist, or its end stands in front of its start. -/
def TextRange.Misplaced (range : TextRange) (cs : List Char) : Prop :=
  cs.count '\n' < range.start.line ∨ cs.count '\n' < range.stop.line ∨
    ∃ start stop, range.start.StandsFor cs start ∧ range.stop.StandsFor cs stop ∧ stop < start

/-- What the changes make of a text, where a position denotes an offset of the text as it
stands: one after another replaces the bytes between two boundaries, or everything. -/
inductive Edits (denotes : String → Position → Nat → Prop) :
    String → List TextChange → String → Prop
  | done (text : String) : Edits denotes text [] text
  | whole {text inner final : String} {rest : List TextChange} :
      Edits denotes inner rest final → Edits denotes text (⟨none, inner⟩ :: rest) final
  | stretch {text inner next final : String} {range : TextRange} {rest : List TextChange}
      {start stop : Nat} : denotes text range.start start → denotes text range.stop stop →
      isBoundary text.toList start = true → isBoundary text.toList stop = true → start ≤ stop →
      next.toByteArray = replaceBytes text.toByteArray start stop inner.toByteArray →
      Edits denotes next rest final → Edits denotes text (⟨some range, inner⟩ :: rest) final

/-- Another reading of positions gives the same edits if it keeps what boundaries they denote. -/
theorem Edits.mono {denotes other : String → Position → Nat → Prop} {text final : String}
    {changes : List TextChange} (h : Edits denotes text changes final)
    (himp : ∀ text position offset, isBoundary text.toList offset = true →
      denotes text position offset → other text position offset) :
    Edits other text changes final := by
  induction h with
  | done text => exact .done text
  | whole _ ih => exact .whole ih
  | stretch hstart hstop hfirst hlast hle hnext _ ih =>
      exact .stretch (himp _ _ _ hfirst hstart) (himp _ _ _ hlast hstop) hfirst hlast hle hnext ih

namespace Text

/-! ### The offset of a position -/

theorem offsetAt?_eq_some_iff {cs : List Char} {position : Position} {offset : Nat} :
    offsetAt? cs position = some offset ↔ position.StandsFor cs offset := by
  constructor
  · intro h
    have hline : position.line ≤ cs.count '\n' := by
      by_contra hbeyond
      rw [offsetAt?_eq_none (by omega)] at h
      cases h
    obtain ⟨front, line, after, rfl, hfront, hnone, hafter, hnumber⟩ := exists_line hline
    refine ⟨front, line, after, rfl, hfront, hnone, hafter, hnumber, ?_⟩
    rw [show position = ⟨front.count '\n', position.column⟩ by rw [hnumber],
      offsetAt?_eq hfront hnone hafter] at h
    rw [byteLength_append]
    exact Option.some.inj h
  · rintro ⟨front, line, after, rfl, hfront, hnone, hafter, hnumber, rfl⟩
    rw [show position = ⟨front.count '\n', position.column⟩ by rw [hnumber],
      offsetAt?_eq hfront hnone hafter, byteLength_append]

theorem offsetAt?_eq_none_iff {cs : List Char} {position : Position} :
    offsetAt? cs position = none ↔ cs.count '\n' < position.line := by
  constructor
  · intro h
    by_contra hline
    obtain ⟨front, line, after, rfl, hfront, hnone, hafter, hnumber⟩ :=
      exists_line (Nat.le_of_not_lt hline)
    rw [show position = ⟨front.count '\n', position.column⟩ by rw [hnumber],
      offsetAt?_eq hfront hnone hafter] at h
    cases h
  · exact offsetAt?_eq_none

/-- No position stands for a place inside a character. -/
theorem isBoundary_of_standsFor {cs : List Char} {position : Position} {offset : Nat}
    (h : position.StandsFor cs offset) : isBoundary cs offset = true := by
  obtain ⟨front, line, after, rfl, -, -, -, -, rfl⟩ := h
  apply isBoundary_iff.mpr
  refine ⟨front ++ line.take position.column, line.drop position.column ++ after, ?_, rfl⟩
  rw [List.append_assoc, ← List.append_assoc (line.take _), List.take_append_drop]

/-- The position of a boundary stands for it. -/
theorem standsFor_positionAt {cs : List Char} {offset : Nat} (h : isBoundary cs offset = true) :
    (positionAt cs offset).StandsFor cs offset := by
  obtain ⟨before, after, rfl, rfl⟩ := isBoundary_iff.mp h
  obtain ⟨front, line, rfl, hfront, hline⟩ := exists_opensLine before
  obtain ⟨tail, rest, rfl, htail, hrest⟩ := exists_endsLine after
  rw [List.append_assoc, positionAt_eq hfront hline]
  have hnone : '\n' ∉ line ++ tail := fun hmem => (List.mem_append.mp hmem).elim hline htail
  refine ⟨front, line ++ tail, rest, ?_, hfront, hnone, hrest, rfl, ?_⟩
  · rw [List.append_assoc]
  · rw [List.take_left]

/-! ### Bytes between two boundaries -/

/-- Two boundaries cut a text into three parts. -/
theorem exists_parts {cs : List Char} {start stop : Nat} (hstart : isBoundary cs start = true)
    (hstop : isBoundary cs stop = true) (hle : start ≤ stop) :
    ∃ before middle after, cs = before ++ (middle ++ after) ∧ byteLength before = start ∧
      byteLength (before ++ middle) = stop := by
  obtain ⟨before, rest, hcs, rfl⟩ := isBoundary_iff.mp hstart
  obtain ⟨first, after, rfl, rfl⟩ := isBoundary_iff.mp hstop
  rcases List.append_eq_append_iff.mp hcs with ⟨excess, rfl, rfl⟩ | ⟨middle, rfl, rfl⟩
  · -- the second boundary is not in front of the first, so nothing lies between
    cases excess with
    | nil => exact ⟨first, [], rest, by simp, by simp, by simp⟩
    | cons c excess =>
        have hsize := c.utf8Size_pos
        rw [byteLength_append, byteLength] at hle
        omega
  · exact ⟨before, middle, after, List.append_assoc .., rfl, rfl⟩

theorem replaceBytes_parts (before middle after inner : List Char) :
    replaceBytes (String.ofList (before ++ (middle ++ after))).toByteArray (byteLength before)
        (byteLength (before ++ middle)) (String.ofList inner).toByteArray =
      (String.ofList (before ++ inner ++ after)).toByteArray := by
  have hsize : ∀ cs : List Char, (String.ofList cs).toByteArray.size = byteLength cs :=
    fun cs => utf8ByteSize_ofList cs
  have hfirst : (String.ofList (before ++ (middle ++ after))).toByteArray.extract 0
      (byteLength before) = (String.ofList before).toByteArray := by
    rw [String.ofList_append, String.toByteArray_append]
    exact ByteArray.extract_append_eq_left (hsize before).symm
  have hlast : (String.ofList (before ++ (middle ++ after))).toByteArray.extract
      (byteLength (before ++ middle)) (byteLength (before ++ (middle ++ after))) =
        (String.ofList after).toByteArray := by
    rw [← List.append_assoc, String.ofList_append, String.toByteArray_append]
    apply ByteArray.extract_append_eq_right
    · exact (hsize _).symm
    · rw [hsize, hsize, byteLength_append]
  rw [replaceBytes, hsize, hfirst, hlast]
  simp only [String.ofList_append, String.toByteArray_append]

theorem splice?_parts (before middle after inner : List Char) :
    splice? (before ++ (middle ++ after)) (byteLength before) (byteLength (before ++ middle))
      inner = some (before ++ inner ++ after) := by
  have hle : ¬byteLength (before ++ middle) < byteLength before := by
    rw [byteLength_append]
    omega
  have hafter : dropBytes? (byteLength (before ++ middle)) (before ++ (middle ++ after)) =
      some after := by
    rw [← List.append_assoc]
    exact dropBytes?_append _ after
  rw [splice?, if_neg hle, takeBytes?_append, hafter]
  rfl

theorem exists_splice? {text : String} {start stop : Nat} (inner : String)
    (hstart : isBoundary text.toList start = true) (hstop : isBoundary text.toList stop = true)
    (hle : start ≤ stop) :
    ∃ next, splice? text.toList start stop inner.toList = some next ∧
      (String.ofList next).toByteArray =
        replaceBytes text.toByteArray start stop inner.toByteArray := by
  obtain ⟨before, middle, after, htext, rfl, rfl⟩ := exists_parts hstart hstop hle
  have hreplace := replaceBytes_parts before middle after inner.toList
  rw [← htext, String.ofList_toList, String.ofList_toList] at hreplace
  refine ⟨before ++ inner.toList ++ after, ?_, hreplace.symm⟩
  rw [htext]
  exact splice?_parts before middle after inner.toList

/-! ### One change -/

theorem applyChange?_some (cs : List Char) (range : TextRange) (inner : String) :
    applyChange? cs ⟨some range, inner⟩ = (offsetAt? cs range.start).bind fun start =>
      (offsetAt? cs range.stop).bind fun stop => splice? cs start stop inner.toList := rfl

theorem applyChanges?_cons (text : String) (change : TextChange) (rest : List TextChange) :
    applyChanges? text (change :: rest) =
      (applyChange? text.toList change).bind fun next =>
        applyChanges? (String.ofList next) rest := by
  rw [applyChanges?, List.foldlM_cons]
  cases applyChange? text.toList change with
  | none => rfl
  | some next =>
      dsimp only [Option.bind_eq_bind, Option.bind_some]
      rw [applyChanges?, String.toList_ofList]

/-- A range that fits is replaced. -/
theorem applyChange?_eq_some {text : String} {range : TextRange} {start stop : Nat}
    (inner : String) (hstart : range.start.StandsFor text.toList start)
    (hstop : range.stop.StandsFor text.toList stop) (hle : start ≤ stop) :
    ∃ next, applyChange? text.toList ⟨some range, inner⟩ = some next ∧
      (String.ofList next).toByteArray =
        replaceBytes text.toByteArray start stop inner.toByteArray := by
  obtain ⟨next, hsplice, hnext⟩ := exists_splice? inner (isBoundary_of_standsFor hstart)
    (isBoundary_of_standsFor hstop) hle
  refine ⟨next, ?_, hnext⟩
  rw [applyChange?_some, offsetAt?_eq_some_iff.mpr hstart, offsetAt?_eq_some_iff.mpr hstop]
  exact hsplice

/-- Either the range of a change fits a text, or it is misplaced there. -/
theorem fits_or_misplaced (range : TextRange) (cs : List Char) :
    (∃ start stop, range.start.StandsFor cs start ∧ range.stop.StandsFor cs stop ∧
      start ≤ stop) ∨ range.Misplaced cs := by
  cases hstart : offsetAt? cs range.start with
  | none => exact .inr (.inl (offsetAt?_eq_none_iff.mp hstart))
  | some start =>
      cases hstop : offsetAt? cs range.stop with
      | none => exact .inr (.inr (.inl (offsetAt?_eq_none_iff.mp hstop)))
      | some stop =>
          rw [offsetAt?_eq_some_iff] at hstart hstop
          by_cases hle : start ≤ stop
          · exact .inl ⟨start, stop, hstart, hstop, hle⟩
          · exact .inr (.inr (.inr ⟨start, stop, hstart, hstop, by omega⟩))

theorem applyChange?_of_misplaced {cs : List Char} {range : TextRange} (inner : String)
    (h : range.Misplaced cs) : applyChange? cs ⟨some range, inner⟩ = none := by
  rw [applyChange?_some]
  obtain hline | hline | ⟨start, stop, hstart, hstop, hless⟩ := h
  · rw [offsetAt?_eq_none hline]
    rfl
  · rw [offsetAt?_eq_none hline]
    cases offsetAt? cs range.start <;> rfl
  · rw [offsetAt?_eq_some_iff.mpr hstart, offsetAt?_eq_some_iff.mpr hstop]
    dsimp only [Option.bind_some]
    rw [splice?, if_pos hless]

/-! ### Runs of changes -/

/-- A run of changes gives exactly the text that replacing stretch by stretch gives. -/
theorem applyChanges?_eq_some_iff {text final : String} {changes : List TextChange} :
    applyChanges? text changes = some final ↔
      Edits (fun text position offset => position.StandsFor text.toList offset)
        text changes final := by
  constructor
  · intro h
    induction changes generalizing text with
    | nil =>
        have heq : String.ofList text.toList = final := Option.some.inj h
        rw [String.ofList_toList] at heq
        exact heq ▸ .done text
    | cons change rest ih =>
        rw [applyChanges?_cons] at h
        obtain ⟨next, hnext, hrest⟩ := Option.bind_eq_some_iff.mp h
        obtain ⟨_ | range, inner⟩ := change
        · cases hnext
          rw [String.ofList_toList] at hrest
          exact .whole (ih hrest)
        · rcases fits_or_misplaced range text.toList with
            ⟨start, stop, hstart, hstop, hle⟩ | hmisplaced
          · obtain ⟨other, hother, hbytes⟩ := applyChange?_eq_some inner hstart hstop hle
            rw [hnext] at hother
            cases hother
            exact .stretch hstart hstop (isBoundary_of_standsFor hstart)
              (isBoundary_of_standsFor hstop) hle hbytes (ih hrest)
          · rw [applyChange?_of_misplaced inner hmisplaced] at hnext
            cases hnext
  · intro h
    induction h with
    | done text => rw [applyChanges?, List.foldlM_nil, ← String.ofList_toList (s := text)]; simp
    | whole _ ih =>
        rw [applyChanges?_cons]
        dsimp only [applyChange?, Option.bind_some]
        rw [String.ofList_toList, ih]
    | @stretch text inner next final range rest start stop hstart hstop _ _ hle hnext _ ih =>
        obtain ⟨other, hother, hbytes⟩ := applyChange?_eq_some inner hstart hstop hle
        have hsame : String.ofList other = next :=
          String.toByteArray_inj.mp (hbytes.trans hnext.symm)
        rw [applyChanges?_cons, hother, Option.bind_some, hsame, ih]

/-- A run of changes fails at the first range that is misplaced in the text it is for. -/
theorem applyChanges?_eq_none_iff {text : String} {changes : List TextChange} :
    applyChanges? text changes = none ↔
      ∃ earlier range inner later between, changes = earlier ++ ⟨some range, inner⟩ :: later ∧
        applyChanges? text earlier = some between ∧ range.Misplaced between.toList := by
  induction changes generalizing text with
  | nil =>
      constructor
      · intro h
        cases h
      · rintro ⟨earlier, range, inner, later, between, heq, -⟩
        simp at heq
  | cons change rest ih =>
      rw [applyChanges?_cons]
      constructor
      · intro h
        cases hnext : applyChange? text.toList change with
        | none =>
            obtain ⟨_ | range, inner⟩ := change
            · cases hnext
            · refine ⟨[], range, inner, rest, text, rfl, by simp [applyChanges?], ?_⟩
              rcases fits_or_misplaced range text.toList with
                ⟨start, stop, hstart, hstop, hle⟩ | hmisplaced
              · obtain ⟨other, hother, -⟩ :=
                  applyChange?_eq_some inner hstart hstop hle
                rw [hnext] at hother
                cases hother
              · exact hmisplaced
        | some next =>
            rw [hnext, Option.bind_some] at h
            obtain ⟨earlier, range, inner, later, between, rfl, hbetween, hmisplaced⟩ := ih.mp h
            refine ⟨change :: earlier, range, inner, later, between, rfl, ?_, hmisplaced⟩
            rw [applyChanges?_cons, hnext, Option.bind_some, hbetween]
      · rintro ⟨_ | ⟨first, earlier⟩, range, inner, later, between, heq, hbetween, hmisplaced⟩
        · cases heq
          have htext : text = between := by simpa [applyChanges?] using hbetween
          rw [htext, applyChange?_of_misplaced inner hmisplaced, Option.bind_none]
        · cases heq
          rw [applyChanges?_cons] at hbetween
          obtain ⟨next, hnext, hrest⟩ := Option.bind_eq_some_iff.mp hbetween
          rw [hnext, Option.bind_some]
          exact ih.mpr ⟨earlier, range, inner, later, between, rfl, hrest, hmisplaced⟩

/-- Changes whose ranges are given by boundaries replace the bytes between these, one after
another in the text as it stands. Whatever the positions are, only bytes between boundaries that
they stand for are replaced, and the changes fail exactly if one of them is misplaced. -/
theorem changes_are_splices (text : String) (changes : List TextChange) :
    (∀ start stop inner, isBoundary text.toList start = true →
      isBoundary text.toList stop = true → start ≤ stop →
      ∃ next : String, next.toByteArray =
          replaceBytes text.toByteArray start stop inner.toByteArray ∧
        applyChanges? text [⟨some ⟨positionAt text.toList start, positionAt text.toList stop⟩,
          inner⟩] = some next) ∧
    (∀ final, Edits (fun text position offset => position = positionAt text.toList offset)
        text changes final → applyChanges? text changes = some final) ∧
    (∀ final, applyChanges? text changes = some final ↔
      Edits (fun text position offset => position.StandsFor text.toList offset)
        text changes final) ∧
    (applyChanges? text changes = none ↔
      ∃ earlier range inner later between, changes = earlier ++ ⟨some range, inner⟩ :: later ∧
        applyChanges? text earlier = some between ∧ range.Misplaced between.toList) := by
  refine ⟨?_, ?_, fun final => applyChanges?_eq_some_iff, applyChanges?_eq_none_iff⟩
  · intro start stop inner hstart hstop hle
    have hfirst : TextRange.start ⟨positionAt text.toList start, positionAt text.toList stop⟩
      |>.StandsFor text.toList start := standsFor_positionAt hstart
    obtain ⟨next, hnext, hbytes⟩ :=
      applyChange?_eq_some inner hfirst (standsFor_positionAt hstop) hle
    refine ⟨String.ofList next, hbytes, ?_⟩
    rw [applyChanges?_cons, hnext]
    simp [applyChanges?]
  · intro final hedits
    apply applyChanges?_eq_some_iff.mpr
    apply hedits.mono
    rintro text position offset hboundary rfl
    exact standsFor_positionAt hboundary

/-- The second change is read in the text that the first one left. -/
theorem second_change_in_new_text :
    Edits (fun text position offset => position = positionAt text.toList offset) "é\nab"
        [⟨some ⟨⟨0, 1⟩, ⟨1, 1⟩⟩, "x\n"⟩, ⟨some ⟨⟨1, 0⟩, ⟨1, 1⟩⟩, "c"⟩] "éx\nc" ∧
      applyChanges? "é\nab" [⟨some ⟨⟨0, 1⟩, ⟨1, 1⟩⟩, "x\n"⟩, ⟨some ⟨⟨1, 0⟩, ⟨1, 1⟩⟩, "c"⟩] =
        some "éx\nc" := by
  have hedits : Edits (fun text position offset => position = positionAt text.toList offset)
      "é\nab" [⟨some ⟨⟨0, 1⟩, ⟨1, 1⟩⟩, "x\n"⟩, ⟨some ⟨⟨1, 0⟩, ⟨1, 1⟩⟩, "c"⟩] "éx\nc" := by
    have hfirst : "éx\nb".toByteArray =
        replaceBytes "é\nab".toByteArray 2 4 "x\n".toByteArray :=
      (replaceBytes_parts ['é'] ['\n', 'a'] ['b'] ['x', '\n']).symm
    have hsecond : "éx\nc".toByteArray =
        replaceBytes "éx\nb".toByteArray 4 5 "c".toByteArray :=
      (replaceBytes_parts ['é', 'x', '\n'] ['b'] [] ['c']).symm
    refine .stretch ?_ ?_ ?_ ?_ ?_ hfirst (.stretch ?_ ?_ ?_ ?_ ?_ hsecond (.done _))
    all_goals decide
  exact ⟨hedits, (changes_are_splices _ _).2.1 _ hedits⟩

end Text

end Gml
