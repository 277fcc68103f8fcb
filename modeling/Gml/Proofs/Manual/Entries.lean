import Gml.Manual.Basic
import Gml.Proofs.Text.Cutting

/-!
# Entries are independent

A heading ends the entry before it, whether or not it starts one of its own. So what stands from a
heading on is read as if nothing stood in front of it, and a manual can be taken apart at its
headings. The lines below a heading that starts no entry belong to none.
-/
namespace Gml

namespace Text

/-! ### Lines as parts between newlines -/

theorem trim_dropReturn (cs : List Char) : trim (dropReturn cs) = trim cs := by
  rw [dropReturn]
  cases hreturn : dropLast? '\r' cs with
  | none => rfl
  | some before =>
      rw [dropLast?_eq_some_iff.mp hreturn, trim_concat_of_blank (by decide)]
      rfl

/-- Once they are trimmed, the lines are the parts between newlines, but for an empty last part. -/
theorem exists_map_trim_splitAll (cs : List Char) : ∃ last, (∀ line ∈ last, line = []) ∧
    (splitAll (· == '\n') cs).map trim = (lines cs).map trim ++ last := by
  obtain ⟨closed, last, hparts⟩ : ∃ closed last, splitAll (· == '\n') cs = closed ++ [last] := by
    rw [splitAll_eq_splitOnP]
    exact (List.eq_nil_or_concat' _).resolve_left (List.splitOnP_ne_nil _ cs)
  have hclosed : (closed.map dropReturn).map trim = closed.map trim := by
    rw [List.map_map]
    exact List.map_congr_left fun part _ => trim_dropReturn part
  cases last with
  | nil =>
      refine ⟨[[]], by simp, ?_⟩
      simp [lines, hparts, hclosed]
  | cons c last =>
      refine ⟨[], by simp, ?_⟩
      simp [lines, hparts, hclosed]

end Text

namespace Manual

/-! ### What a manual is put together from -/

/-- The entries of one manual, and those of another behind them. -/
def append (first second : Manual) : Manual :=
  ⟨first.functions ++ second.functions, first.vars ++ second.vars⟩

theorem append_empty (manual : Manual) : manual.append {} = manual := by simp [append]

theorem finish_append (draft : Draft) (first second : Manual) :
    draft.finish (first.append second) = first.append (draft.finish second) := by
  obtain ⟨name, parameters, description, returns⟩ := draft
  cases parameters <;> simp [Draft.finish, append]

theorem finishDraft_append (first second : Manual) (draft : Option Draft) :
    finishDraft (first.append second) draft = first.append (finishDraft second draft) := by
  cases draft with
  | none => rfl
  | some draft => exact finish_append draft first second

/-- Entries that are finished stay in front of all that is read behind them. -/
theorem addLine_append (first second : Manual) (draft : Option Draft) (line : List Char) :
    addLine (first.append second, draft) line =
      (addLine (second, draft) line).map first.append id := by
  unfold addLine
  dsimp only
  split
  · rw [finishDraft_append]
    rfl
  · rfl

theorem foldl_addLine_append (first : Manual) (state : Manual × Option Draft)
    (lines : List (List Char)) :
    lines.foldl addLine (first.append state.1, state.2) =
      (lines.foldl addLine state).map first.append id := by
  induction lines generalizing state with
  | nil => rfl
  | cons line lines ih =>
      rw [List.foldl_cons, List.foldl_cons, addLine_append]
      exact ih (addLine state line)

/-! ### Headings -/

def IsHeading (line : List Char) : Prop := (Text.trim line).head? = some '#'

instance (line : List Char) : Decidable (IsHeading line) := inferInstanceAs (Decidable (_ = _))

/-- What a heading says behind its marks. -/
def title (line : List Char) : List Char := Text.trim ((Text.trim line).dropWhile (· == '#'))

theorem addLine_heading {line : List Char} (h : IsHeading line) (manual : Manual)
    (draft : Option Draft) :
    addLine (manual, draft) line = (finishDraft manual draft, Draft.ofHeading? (title line)) := by
  unfold IsHeading at h
  unfold addLine title
  cases hline : Text.trim line with
  | nil =>
      rw [hline] at h
      cases h
  | cons c rest =>
      rw [hline, List.head?_cons, Option.some.injEq] at h
      subst h
      rfl

theorem addLine_of_not_heading {line : List Char} (h : ¬ IsHeading line) (manual : Manual)
    (draft : Option Draft) :
    addLine (manual, draft) line = (manual, draft.map (·.addLine (Text.trim line))) := by
  unfold IsHeading at h
  unfold addLine
  dsimp only
  split
  next hline =>
      rw [hline] at h
      exact absurd rfl h
  · rfl

/-- The manual that some lines give. -/
def ofLines (lines : List (List Char)) : Manual :=
  let (manual, draft) := lines.foldl addLine ({}, none)
  finishDraft manual draft

/-- From a heading on the lines are read as if nothing stood in front of them. -/
theorem ofLines_append {line : List Char} (h : IsHeading line) (before after : List (List Char)) :
    ofLines (before ++ line :: after) = (ofLines before).append (ofLines (line :: after)) := by
  have hfirst : addLine (before.foldl addLine ({}, none)) line =
      ((ofLines before).append (addLine ({}, none) line).1, (addLine ({}, none) line).2) := by
    rw [addLine_heading h, addLine_heading h]
    exact congrArg (·, _) (append_empty _).symm
  unfold ofLines
  rw [List.foldl_append, List.foldl_cons, hfirst, foldl_addLine_append]
  exact finishDraft_append _ _ _

/-! ### Texts -/

theorem addLine_trim (state : Manual × Option Draft) (line : List Char) :
    addLine state (Text.trim line) = addLine state line := by
  rw [addLine, addLine, Text.trim_trim]

theorem ofLines_map_trim (lines : List (List Char)) :
    ofLines (lines.map Text.trim) = ofLines lines := by
  simp only [ofLines, List.foldl_map, addLine_trim]

theorem addLine_nil (manual : Manual) (draft : Option Draft) :
    addLine (manual, draft) [] = (manual, draft) := by
  cases draft <;> rfl

theorem ofLines_append_of_empty (lines : List (List Char)) {last : List (List Char)}
    (h : ∀ line ∈ last, line = []) : ofLines (lines ++ last) = ofLines lines := by
  have hlast : ∀ state, last.foldl addLine state = state := by
    induction last with
    | nil => exact fun _ => rfl
    | cons line last ih =>
        obtain ⟨rfl, hmore⟩ := List.forall_mem_cons.mp h
        intro state
        rw [List.foldl_cons, addLine_nil, ih hmore]
  rw [ofLines, ofLines, List.foldl_append, hlast]

/-- How a text is cut into lines makes no difference but at the newlines. -/
theorem entries_eq_ofLines (contents : String) :
    entries contents = ofLines (Text.splitAll (· == '\n') contents.toList) := by
  obtain ⟨last, hlast, hparts⟩ := Text.exists_map_trim_splitAll contents.toList
  calc entries contents
      = ofLines ((Text.lines contents.toList).map Text.trim) := (ofLines_map_trim _).symm
    _ = ofLines ((Text.splitAll (· == '\n') contents.toList).map Text.trim) := by
        rw [hparts, ofLines_append_of_empty _ hlast]
    _ = ofLines (Text.splitAll (· == '\n') contents.toList) := ofLines_map_trim _

/-- The first line of the text is a heading. -/
def StartsWithHeading (text : String) : Prop :=
  ∃ line ∈ (Text.lines text.toList).head?, IsHeading line

theorem startsWithHeading_iff {text : String} : StartsWithHeading text ↔
    ∃ line rest, Text.splitAll (· == '\n') text.toList = line :: rest ∧ IsHeading line := by
  obtain ⟨last, hlast, hparts⟩ := Text.exists_map_trim_splitAll text.toList
  constructor
  · rintro ⟨line, hline, hheading⟩
    obtain ⟨more, hlines⟩ := List.head?_eq_some_iff.mp hline
    rw [hlines, List.map_cons, List.cons_append] at hparts
    obtain ⟨first, rest, hsplit, htrim, -⟩ := List.map_eq_cons_iff.mp hparts
    refine ⟨first, rest, hsplit, ?_⟩
    rwa [IsHeading, htrim]
  · rintro ⟨line, rest, hsplit, hheading⟩
    unfold IsHeading at hheading
    rw [hsplit, List.map_cons] at hparts
    cases hlines : Text.lines text.toList with
    | nil =>
        rw [hlines, List.map_nil, List.nil_append] at hparts
        have hempty : Text.trim line = [] := hlast _ (hparts ▸ List.mem_cons_self)
        rw [hempty] at hheading
        cases hheading
    | cons first more =>
        rw [hlines, List.map_cons, List.cons_append] at hparts
        refine ⟨first, by rw [hlines]; rfl, ?_⟩
        rwa [IsHeading, ← (List.cons.inj hparts).1]

theorem splitAll_toList_append (a b : String) :
    Text.splitAll (· == '\n') (a ++ "\n" ++ b).toList =
      Text.splitAll (· == '\n') a.toList ++ Text.splitAll (· == '\n') b.toList := by
  have htext : (a ++ "\n" ++ b).toList = a.toList ++ '\n' :: b.toList := by simp
  rw [htext, Text.splitAll_append_cons rfl]

theorem entries_append (a : String) {b : String} (h : StartsWithHeading b) :
    entries (a ++ "\n" ++ b) = (entries a).append (entries b) := by
  obtain ⟨line, rest, hsplit, hheading⟩ := startsWithHeading_iff.mp h
  rw [entries_eq_ofLines, entries_eq_ofLines a, entries_eq_ofLines b, splitAll_toList_append,
    hsplit, ofLines_append hheading]

/-- The entries of an answer; a text that is refused as empty has none. -/
def counted : Except ManualError Manual → Option Manual
  | .ok manual => some manual
  | .error .empty => some {}
  | .error .malformed => none

theorem counted_ofMarkdown (text : String) : counted (ofMarkdown text) = some (entries text) := by
  rw [ofMarkdown, nonempty]
  obtain ⟨functions, vars⟩ := entries text
  split
  next hempty =>
      rw [isEmpty, Bool.and_eq_true, List.isEmpty_iff, List.isEmpty_iff] at hempty
      obtain ⟨rfl, rfl⟩ : functions = [] ∧ vars = [] := hempty
      rfl
  · rfl

/-! ### Headings that start no entry -/

def IsName (name : List Char) : Prop := name ≠ [] ∧ ∀ c ∈ name, Token.isIdentChar c = true

/-- What a heading that starts an entry says: a name, and for a function a list in brackets
behind it. -/
inductive StartsEntry : List Char → Prop
  | ofVariable {name : List Char} : IsName name → StartsEntry name
  | ofFunction {before list blanks : List Char} : '(' ∉ before → IsName (Text.trim before) →
      (∀ c ∈ blanks, Text.isBlank c = true) → StartsEntry (before ++ '(' :: (list ++ ')' :: blanks))

theorem ofName?_eq_none_iff {name : List Char} {parameters : Option (List Parameter × Bool)} :
    Draft.ofHeading?.ofName? name parameters = none ↔ ¬ IsName name := by
  rw [Draft.ofHeading?.ofName?, IsName]
  simp

/-- A text ends with a bracket, but for blanks behind it. -/
theorem exists_dropLast?_trimEnd_iff {cs : List Char} :
    (∃ list, Text.dropLast? ')' (Text.trimEnd cs) = some list) ↔
      ∃ list blanks, (∀ c ∈ blanks, Text.isBlank c = true) ∧ cs = list ++ ')' :: blanks := by
  constructor
  · rintro ⟨list, hlist⟩
    have hwhole : Text.trimEnd cs ++ cs.rtakeWhile Text.isBlank = cs :=
      List.rdropWhile_append_rtakeWhile
    refine ⟨list, cs.rtakeWhile Text.isBlank, fun c => List.mem_rtakeWhile_imp, ?_⟩
    rw [Text.dropLast?_eq_some_iff.mp hlist, List.append_assoc] at hwhole
    exact hwhole.symm
  · rintro ⟨list, blanks, hblanks, rfl⟩
    refine ⟨list, ?_⟩
    rw [List.append_cons, Text.trimEnd_append_of_blank hblanks,
      Text.trimEnd_of_not_blank (by decide), Text.dropLast?_concat]

theorem not_mem_of_isName {name : List Char} (h : IsName name) : '(' ∉ name := by
  intro hmem
  exact absurd (h.2 _ hmem) (by decide)

/-- A heading with an opening bracket can only start a function. -/
theorem startsEntry_append_iff {name rest : List Char} (h : '(' ∉ name) :
    StartsEntry (name ++ '(' :: rest) ↔ IsName (Text.trim name) ∧
      ∃ list, Text.dropLast? ')' (Text.trimEnd rest) = some list := by
  have hcut {before : List Char} (hbefore : '(' ∉ before) (after : List Char) :
      Text.splitFirst? (· == '(') (before ++ '(' :: after) = some (before, after) :=
    Text.splitFirst?_append
      (fun c hc => beq_eq_false_iff_ne.mpr (ne_of_mem_of_not_mem hc hbefore)) rfl after
  rw [exists_dropLast?_trimEnd_iff]
  constructor
  · intro hstarts
    generalize hwhole : name ++ '(' :: rest = whole at hstarts
    cases hstarts with
    | ofVariable hvariable =>
        rw [← hwhole] at hvariable
        exact absurd (by simp) (not_mem_of_isName hvariable)
    | @ofFunction before list blanks hbefore hfunction hblanks =>
        have hsame := hcut hbefore (list ++ ')' :: blanks)
        rw [← hwhole, hcut h] at hsame
        cases hsame
        exact ⟨hfunction, list, blanks, hblanks, rfl⟩
  · rintro ⟨hfunction, list, blanks, hblanks, rfl⟩
    exact .ofFunction h hfunction hblanks

theorem ofHeading?_eq_none_iff {title : List Char} :
    Draft.ofHeading? title = none ↔ ¬ StartsEntry title := by
  unfold Draft.ofHeading?
  cases hsplit : Text.splitFirst? (· == '(') title with
  | none =>
      have hopen : '(' ∉ title := fun hmem => by
        simpa using Text.splitFirst?_eq_none_iff.mp hsplit _ hmem
      dsimp only
      rw [ofName?_eq_none_iff, not_iff_not]
      refine ⟨.ofVariable, fun h => ?_⟩
      cases h with
      | ofVariable hname => exact hname
      | ofFunction => simp at hopen
  | some parts =>
      obtain ⟨name, rest⟩ := parts
      obtain ⟨mark, rfl, hmark, hname⟩ := Text.splitFirst?_eq_some_iff.mp hsplit
      obtain rfl : mark = '(' := eq_of_beq hmark
      rw [startsEntry_append_iff fun hmem => by simpa using hname _ hmem]
      dsimp only
      cases hlist : Text.dropLast? ')' (Text.trimEnd rest) with
      | none => exact ⟨fun _ hstarts => by simp at hstarts, fun _ => rfl⟩
      | some list =>
          exact ofName?_eq_none_iff.trans (not_congr ⟨fun h => ⟨h, list, rfl⟩, And.left⟩)

/-- A heading that starts no entry, and lines below it that are no headings. -/
def IsStray (text : String) : Prop :=
  ∃ line rest, Text.lines text.toList = line :: rest ∧ IsHeading line ∧
    ¬ StartsEntry (title line) ∧ ∀ other ∈ rest, ¬ IsHeading other

theorem IsStray.startsWithHeading {text : String} (h : IsStray text) : StartsWithHeading text := by
  obtain ⟨line, rest, hlines, hheading, -⟩ := h
  exact ⟨line, by rw [hlines]; rfl, hheading⟩

theorem IsStray.entries {text : String} (h : IsStray text) : entries text = {} := by
  obtain ⟨line, rest, hlines, hheading, hstarts, hrest⟩ := h
  have hbelow : rest.foldl addLine ({}, none) = ({}, none) := by
    clear hlines
    induction rest with
    | nil => rfl
    | cons other rest ih =>
        obtain ⟨hother, hmore⟩ := List.forall_mem_cons.mp hrest
        rw [List.foldl_cons, addLine_of_not_heading hother]
        exact ih hmore
  change ofLines (Text.lines text.toList) = {}
  rw [hlines, ofLines, List.foldl_cons, addLine_heading hheading,
    ofHeading?_eq_none_iff.mpr hstarts]
  exact congrArg (fun state => finishDraft state.1 state.2) hbelow

/-- A text and one behind it that starts with a heading have together the functions of the first
and then those of the second, and the variables likewise. What stands below a heading that starts
no entry has no entries and changes none in front of it or behind it. -/
theorem entries_are_independent (a b : String) (hb : StartsWithHeading b) :
    ∃ first second, counted (ofMarkdown a) = some first ∧ counted (ofMarkdown b) = some second ∧
      counted (ofMarkdown (a ++ "\n" ++ b)) = some (first.append second) ∧
      ∀ stray, IsStray stray → counted (ofMarkdown stray) = some {} ∧
        counted (ofMarkdown (a ++ "\n" ++ stray)) = some first ∧
        counted (ofMarkdown (a ++ "\n" ++ stray ++ "\n" ++ b)) = some (first.append second) := by
  simp only [counted_ofMarkdown]
  refine ⟨entries a, entries b, rfl, rfl, congrArg some (entries_append a hb), ?_⟩
  intro stray hstray
  have hbefore : entries (a ++ "\n" ++ stray) = entries a := by
    rw [entries_append a hstray.startsWithHeading, hstray.entries, append_empty]
  refine ⟨congrArg some hstray.entries, congrArg some hbefore, congrArg some ?_⟩
  rw [entries_append _ hb, hbefore]

def frameRate : String := "# fps\nFrames per second."

def twoWords : String := "# two words\nReturns: Id\n- val: Lost.\nLost too."

def absolute : String := "# abs(val)\nReturns: Real"

/-- A heading of two words starts no entry, so neither entry is given the lines below it. -/
theorem entries_around_stray :
    (StartsWithHeading absolute ∧ IsStray twoWords) ∧
      counted (ofMarkdown (frameRate ++ "\n" ++ twoWords ++ "\n" ++ absolute)) =
        some ⟨[{ name := "abs", parameters := [{ label := "val" }], returns := some "Real" }],
          [{ name := "fps", description := "Frames per second." }]⟩ := by
  have hheading : StartsWithHeading absolute :=
    ⟨"# abs(val)".toList, by decide +kernel, by decide +kernel⟩
  have hstray : IsStray twoWords := by
    refine ⟨"# two words".toList,
      ["Returns: Id".toList, "- val: Lost.".toList, "Lost too.".toList], by decide +kernel,
      by decide +kernel, ofHeading?_eq_none_iff.mp (by rfl), ?_⟩
    simp only [List.forall_mem_cons]
    exact ⟨by decide +kernel, by decide +kernel, by decide +kernel, by simp⟩
  obtain ⟨first, second, hfirst, hsecond, -, hbetween⟩ :=
    entries_are_independent frameRate absolute hheading
  have hframeRate : counted (ofMarkdown frameRate) =
      some ⟨[], [{ name := "fps", description := "Frames per second." }]⟩ := by
    decide +kernel
  have habsolute : counted (ofMarkdown absolute) = some
      ⟨[{ name := "abs", parameters := [{ label := "val" }], returns := some "Real" }], []⟩ := by
    decide +kernel
  obtain rfl := Option.some.inj (hframeRate.symm.trans hfirst)
  obtain rfl := Option.some.inj (habsolute.symm.trans hsecond)
  exact ⟨⟨hheading, hstray⟩, (hbetween _ hstray).2.2⟩

end Manual

end Gml
