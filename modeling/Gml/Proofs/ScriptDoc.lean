import Gml.Proofs.Text.Cutting
import Gml.ScriptDoc
import Mathlib.Data.List.Nodup

/-!
# Tags that cannot be read

Whether a tag can be read depends on its line alone, and a line with a tag that cannot leaves what
has been read as it is. So the report is all that such a line is good for: documentation without it
is the same.
-/
namespace Gml.ScriptDoc

variable {α : Type} {tag : String} {body name line : List Char} {fault : TagFault}

/-! ### What is wrong with a line -/

/-- What is wrong with the name of a parameter. -/
inductive FaultyName : List Char → TagFault → Prop
  | missing : FaultyName [] .noParameterName
  | unclosed {inner : List Char} : inner.getLast? ≠ some ']' →
      FaultyName ('[' :: inner) (.unclosedOptional (String.ofList ('[' :: inner)))
  /-- There is nothing but blanks before a default or the bracket. -/
  | unnamed {inner : List Char} : Text.trim (inner.takeWhile (· != '=')) = [] →
      FaultyName ('[' :: (inner ++ [']'])) .noParameterName

/-- What is wrong with the text behind a tag for a parameter. -/
inductive FaultyParameter : List Char → TagFault → Prop
  | openType {after : List Char} : '\x7d' ∉ after →
      FaultyParameter ('\x7b' :: after) (.unclosedType "@param")
  | typed {typeName rest : List Char} {fault : TagFault} : '\x7d' ∉ typeName →
      FaultyName (splitWord (Text.trim rest)).1 fault →
      FaultyParameter ('\x7b' :: (typeName ++ '\x7d' :: rest)) fault
  | untyped {body : List Char} {fault : TagFault} : body.head? ≠ some '\x7b' →
      FaultyName (splitWord body).1 fault → FaultyParameter body fault

/-- What is wrong with a comment line. -/
inductive FaultyLine : List Char → TagFault → Prop
  | parameter {line tagged : List Char} {fault : TagFault} : Text.trim line = '@' :: tagged →
      String.ofList (splitWord tagged).1 ∈ ["param", "arg", "argument"] →
      FaultyParameter (splitWord tagged).2 fault → FaultyLine line fault
  | returns {line tagged after : List Char} : Text.trim line = '@' :: tagged →
      String.ofList (splitWord tagged).1 ∈ ["return", "returns"] →
      (splitWord tagged).2 = '\x7b' :: after → '\x7d' ∉ after →
      FaultyLine line (.unclosedType "@returns")

/-! ### Reading a tag -/

/-- A type in braces is open, taken off the front, or not there. -/
inductive TypeSplit (tag : String) : List Char → Except TagFault (Option String × List Char) → Prop
  | openType {after : List Char} : '\x7d' ∉ after →
      TypeSplit tag ('\x7b' :: after) (.error (.unclosedType tag))
  | typed {typeName rest : List Char} (found : Option String) : '\x7d' ∉ typeName →
      TypeSplit tag ('\x7b' :: (typeName ++ '\x7d' :: rest)) (.ok (found, Text.trim rest))
  | untyped {body : List Char} : body.head? ≠ some '\x7b' → TypeSplit tag body (.ok (none, body))

theorem splitType_spec (tag : String) (body : List Char) :
    TypeSplit tag body (splitType tag body) := by
  unfold splitType
  split
  next after =>
      split
      next typeName rest hsplit =>
          obtain ⟨c, rfl, hc, hbefore⟩ := Text.splitFirst?_eq_some_iff.mp hsplit
          rw [beq_iff_eq.mp hc]
          exact .typed _ fun hmem => by simpa using hbefore _ hmem
      next hnone =>
          exact .openType fun hmem => by simpa using Text.splitFirst?_eq_none_iff.mp hnone _ hmem
  next hno =>
      refine .untyped fun hhead => ?_
      obtain ⟨after, hbody⟩ := List.head?_eq_some_iff.mp hhead
      exact hno after hbody

/-- A name in brackets is closed and has a label. -/
theorem faultyName_bracket_iff {inner : List Char} : FaultyName ('[' :: inner) fault ↔
    match Text.dropLast? ']' inner with
    | some label => Text.trim (label.takeWhile (· != '=')) = [] ∧ fault = .noParameterName
    | none => fault = .unclosedOptional (String.ofList ('[' :: inner)) := by
  cases hlast : Text.dropLast? ']' inner with
  | some label =>
      obtain rfl := Text.dropLast?_eq_some_iff.mp hlast
      constructor
      · intro h
        generalize hinner : label ++ [']'] = inner at h
        cases h with
        | unclosed hopen => exact absurd (hinner ▸ List.getLast?_concat) hopen
        | unnamed hblank =>
            rw [List.append_left_injective _ hinner]
            exact ⟨hblank, rfl⟩
      · rintro ⟨hblank, rfl⟩
        exact .unnamed hblank
  | none =>
      have hopen := Text.dropLast?_eq_none_iff.mp hlast
      constructor
      · intro h
        cases h with
        | unclosed => rfl
        | unnamed => exact absurd List.getLast?_concat hopen
      · rintro rfl
        exact .unclosed hopen

/-- The label of a name cannot be read, or there is none. -/
theorem faultyName_iff (hne : name ≠ []) : FaultyName name fault ↔
    match readLabel name with
    | .ok (label, _) => label.isEmpty = true ∧ fault = .noParameterName
    | .error found => fault = found := by
  obtain ⟨c, cs, rfl⟩ := List.exists_cons_of_ne_nil hne
  by_cases hc : c = '['
  · subst hc
    rw [faultyName_bracket_iff, readLabel]
    cases Text.dropLast? ']' cs with
    | none => exact Iff.rfl
    | some label =>
        have hbefore : label.takeWhile (· != '=') =
            ((Text.splitFirst? (· == '=') label).map Prod.fst).getD label :=
          Text.takeWhile_eq_splitFirst? (· == '=') label
        dsimp only
        rw [hbefore]
        cases Text.splitFirst? (· == '=') label <;> simp
  · have hread : readLabel (c :: cs) = .ok (String.ofList (c :: cs), false) := by
      rw [readLabel]
      exact fun _ heq => hc (List.cons.inj heq).1
    rw [hread]
    constructor
    · rintro (_ | _ | _) <;> exact absurd rfl hc
    · rintro ⟨hempty, -⟩
      simp at hempty

/-- Behind the type only the name can be wrong. -/
theorem readParameter_eq_error_iff_of_type (doc : ScriptDoc) {typeName : Option String}
    {rest : List Char} (h : splitType "@param" body = .ok (typeName, rest)) :
    doc.readParameter body = .error fault ↔ FaultyName (splitWord rest).1 fault := by
  rw [readParameter, h]
  simp only [bind, Except.bind, pure, Except.pure, throw, throwThe, MonadExceptOf.throw]
  generalize (splitWord rest).1 = name
  split
  next hempty =>
      rw [List.isEmpty_iff.mp hempty]
      constructor
      · rintro ⟨⟩
        exact .missing
      · rintro ⟨⟩
        rfl
  next hname =>
      rw [faultyName_iff (by simpa using hname)]
      split
      next hdots =>
          rw [beq_iff_eq.mp hdots]
          simp [readLabel, Parameter.dots]
      next =>
          cases readLabel name with
          | error found => simp [eq_comm]
          | ok label =>
              dsimp only
              split
              next hlabel => simp [hlabel, eq_comm]
              next hlabel => simp [hlabel]

theorem readParameter_eq_error_iff (doc : ScriptDoc) (body : List Char) :
    doc.readParameter body = .error fault ↔ FaultyParameter body fault := by
  have hspec := splitType_spec "@param" body
  generalize hsplit : splitType "@param" body = split at hspec
  cases hspec with
  | @openType after hopen =>
      have hread : doc.readParameter ('\x7b' :: after) = .error (.unclosedType "@param") := by
        rw [readParameter, hsplit]
        rfl
      rw [hread, Except.error.injEq]
      constructor
      · rintro rfl
        exact .openType hopen
      · intro h
        cases h with
        | openType => rfl
        | typed => simp at hopen
        | untyped hhead => exact absurd rfl hhead
  | @typed typeName rest found hname =>
      rw [readParameter_eq_error_iff_of_type doc hsplit]
      constructor
      · exact .typed hname
      · intro h
        generalize hbody : '\x7b' :: (typeName ++ '\x7d' :: rest) = body at h
        cases h with
        | openType hopen =>
            obtain rfl := (List.cons.inj hbody).2
            simp at hopen
        | @typed other rest' _ hother hfaulty =>
            have hcut : ∀ before after : List Char, '\x7d' ∉ before →
                Text.splitFirst? (· == '\x7d') (before ++ '\x7d' :: after) =
                  some (before, after) := by
              intro before after hno
              refine Text.splitFirst?_append (fun d hd => beq_eq_false_iff_ne.mpr ?_) rfl _
              rintro rfl
              exact hno hd
            have hsame := hcut typeName rest hname
            rw [(List.cons.inj hbody).2, hcut other rest' hother] at hsame
            cases hsame
            exact hfaulty
        | untyped hhead => exact absurd (hbody ▸ rfl) hhead
  | untyped hhead =>
      rw [readParameter_eq_error_iff_of_type doc hsplit]
      constructor
      · exact .untyped hhead
      · intro h
        cases h with
        | openType => exact absurd rfl hhead
        | typed => exact absurd rfl hhead
        | untyped _ hfaulty => exact hfaulty

theorem readReturns_eq_error_iff (doc : ScriptDoc) (body : List Char) :
    doc.readReturns body = .error fault ↔
      ∃ after, body = '\x7b' :: after ∧ '\x7d' ∉ after ∧ fault = .unclosedType "@returns" := by
  have hspec := splitType_spec "@returns" body
  generalize hsplit : splitType "@returns" body = split at hspec
  rw [readReturns, hsplit]
  cases hspec with
  | @openType after hopen =>
      constructor
      · rintro ⟨⟩
        exact ⟨after, rfl, hopen, rfl⟩
      · rintro ⟨_, _, _, rfl⟩
        rfl
  | typed found hname =>
      constructor
      · rintro ⟨⟩
      · rintro ⟨after, hbody, hopen, -⟩
        obtain rfl := (List.cons.inj hbody).2
        simp at hopen
  | untyped hhead =>
      constructor
      · rintro ⟨⟩
      · rintro ⟨after, rfl, -⟩
        exact absurd rfl hhead

namespace Draft

theorem readTag_eq_error_iff (draft : Draft) (tagged : List Char) :
    draft.readTag tagged = .error fault ↔
      String.ofList (splitWord tagged).1 ∈ ["param", "arg", "argument"] ∧
        FaultyParameter (splitWord tagged).2 fault ∨
      String.ofList (splitWord tagged).1 ∈ ["return", "returns"] ∧
        ∃ after, (splitWord tagged).2 = '\x7b' :: after ∧ '\x7d' ∉ after ∧
          fault = .unclosedType "@returns" := by
  rw [readTag]
  dsimp only
  generalize (splitWord tagged).2 = body
  generalize String.ofList (splitWord tagged).1 = tag
  rw [← readParameter_eq_error_iff draft.doc, ← readReturns_eq_error_iff draft.doc]
  split
  · simp
  · simp
  · cases draft.doc.readParameter body <;> simp [Except.map]
  · cases draft.doc.readParameter body <;> simp [Except.map]
  · cases draft.doc.readParameter body <;> simp [Except.map]
  · cases draft.doc.readReturns body <;> simp [Except.map]
  · cases draft.doc.readReturns body <;> simp [Except.map]
  · simp
  · simp
  · simp_all

/-- What is wrong with a line is wrong wherever it stands and whatever stands before it. -/
theorem readLine_eq_error_iff (draft : Draft) (isFirst : Bool) (line : List Char) :
    draft.readLine isFirst line = .error fault ↔ FaultyLine line fault := by
  rw [readLine]
  split
  next tagged htrim =>
      rw [readTag_eq_error_iff]
      constructor
      · rintro (⟨htag, hfaulty⟩ | ⟨htag, after, hbody, hopen, rfl⟩)
        · exact .parameter htrim htag hfaulty
        · exact .returns htrim htag hbody hopen
      · intro h
        cases h with
        | parameter htrim' htag hfaulty =>
            obtain rfl := (List.cons.inj (htrim.symm.trans htrim')).2
            exact .inl ⟨htag, hfaulty⟩
        | returns htrim' htag hbody hopen =>
            obtain rfl := (List.cons.inj (htrim.symm.trans htrim')).2
            exact .inr ⟨htag, _, hbody, hopen, rfl⟩
  next hno =>
      constructor
      · intro h
        split at h <;> cases h
      · intro h
        cases h with
        | parameter htrim => exact absurd htrim (hno _)
        | returns htrim => exact absurd htrim (hno _)

theorem readLine_nil (draft : Draft) (isFirst : Bool) : draft.readLine isFirst [] = .ok draft := by
  cases isFirst <;> rfl

end Draft

/-! ### Lines without the faulty ones -/

theorem places_sublist (isFirst : Bool) (draft : Draft) (lines : List (List Char × α)) :
    ((readLines isFirst draft lines).2.map Prod.fst).Sublist (lines.map Prod.snd) := by
  induction lines generalizing isFirst draft with
  | nil => exact .slnil
  | cons first lines ih =>
      obtain ⟨line, place⟩ := first
      rw [readLines]
      split
      · exact (ih false _).cons _
      · exact (ih false _).cons_cons _

theorem mem_readLines_iff (isFirst : Bool) (draft : Draft) (lines : List (List Char × α))
    (place : α) (fault : TagFault) : (place, fault) ∈ (readLines isFirst draft lines).2 ↔
      ∃ line, (line, place) ∈ lines ∧ FaultyLine line fault := by
  induction lines generalizing isFirst draft with
  | nil => simp [readLines]
  | cons first lines ih =>
      obtain ⟨line, place'⟩ := first
      have hfirst : (∃ other, (other, place) ∈ (line, place') :: lines ∧ FaultyLine other fault) ↔
          place = place' ∧ draft.readLine isFirst line = .error fault ∨
            ∃ other, (other, place) ∈ lines ∧ FaultyLine other fault := by
        simp only [draft.readLine_eq_error_iff, List.mem_cons, Prod.mk.injEq, or_and_right,
          exists_or, and_assoc, exists_eq_left]
      rw [hfirst, readLines]
      split
      next draft' hread =>
          rw [ih, hread]
          simp
      next found hread =>
          rw [List.mem_cons, ih, hread]
          simp [eq_comm]

theorem mem_parse_iff (lines : List (List Char × α)) (place : α) (fault : TagFault) :
    (place, fault) ∈ (parse lines).2 ↔ ∃ line, (line, place) ∈ lines ∧ FaultyLine line fault :=
  mem_readLines_iff true {} lines place fault

/-- The lines with nothing in those at the given places. -/
def emptied [DecidableEq α] (places : List α) (lines : List (List Char × α)) :
    List (List Char × α) :=
  lines.map fun (line, place) => (if place ∈ places then [] else line, place)

/-- Emptying exactly the faulty lines leaves what is read, and nothing to report. -/
theorem readLines_emptied [DecidableEq α] {places : List α} {lines : List (List Char × α)}
    (h : ∀ line place, (line, place) ∈ lines → (place ∈ places ↔ ∃ fault, FaultyLine line fault))
    (isFirst : Bool) (draft : Draft) :
    readLines isFirst draft (emptied places lines) = ((readLines isFirst draft lines).1, []) := by
  induction lines generalizing isFirst draft with
  | nil => rfl
  | cons first lines ih =>
      obtain ⟨line, place⟩ := first
      have hrest := ih fun line place hmem => h line place (List.mem_cons_of_mem _ hmem)
      have hplace := h line place List.mem_cons_self
      rw [emptied, List.map_cons, ← emptied]
      dsimp only
      split
      next hin =>
          obtain ⟨fault, hfaulty⟩ := hplace.mp hin
          rw [readLines, Draft.readLine_nil, readLines,
            (draft.readLine_eq_error_iff isFirst line).mpr hfaulty]
          exact hrest false draft
      next hout =>
          rw [readLines, readLines]
          cases hread : draft.readLine isFirst line with
          | ok draft' => exact hrest false draft'
          | error fault =>
              exact absurd (hplace.mpr ⟨fault, (draft.readLine_eq_error_iff isFirst line).mp hread⟩)
                hout

/-- Of lines at different places those with a tag that cannot be read are reported, in their order
and each for what is wrong with it. With nothing in these lines the same documentation is read, and
nothing is reported. -/
theorem faulty_lines_are_only_reported [DecidableEq α] (lines : List (List Char × α))
    (h : (lines.map Prod.snd).Nodup) :
    ((parse lines).2.map Prod.fst).Sublist (lines.map Prod.snd) ∧
    ((parse lines).2.map Prod.fst).Nodup ∧
    (∀ place fault, (place, fault) ∈ (parse lines).2 ↔
      ∃ line, (line, place) ∈ lines ∧ FaultyLine line fault) ∧
    parse (emptied ((parse lines).2.map Prod.fst) lines) = ((parse lines).1, []) := by
  have hsublist := places_sublist true {} lines
  have hreports := mem_parse_iff lines
  refine ⟨hsublist, hsublist.nodup h, hreports, ?_⟩
  have hplaces : ∀ line place, (line, place) ∈ lines →
      (place ∈ (parse lines).2.map Prod.fst ↔ ∃ fault, FaultyLine line fault) := by
    intro line place hmem
    constructor
    · intro hreported
      obtain ⟨⟨_, fault⟩, hfault, rfl⟩ := List.mem_map.mp hreported
      obtain ⟨other, hother, hfaulty⟩ := (hreports _ fault).mp hfault
      -- No other line stands at this place.
      have hsame := List.inj_on_of_nodup_map h hother hmem rfl
      cases hsame
      exact ⟨fault, hfaulty⟩
    · rintro ⟨fault, hfaulty⟩
      exact List.mem_map.mpr ⟨(place, fault), (hreports place fault).mpr ⟨line, hmem, hfaulty⟩, rfl⟩
  have hread := readLines_emptied hplaces true {}
  rw [parse, hread]
  rfl

/-- A name, a type and a bracket are missing in three lines of four. -/
theorem three_faulty_lines_are_reported :
    let lines : List (List Char × Nat) := [("@param".toList, 0), ("@param \x7breal x".toList, 1),
      ("@param [speed".toList, 2), ("@param ok".toList, 3)]
    (lines.map Prod.snd).Nodup ∧
    (parse lines).2 = [(0, .noParameterName), (1, .unclosedType "@param"),
      (2, .unclosedOptional "[speed")] ∧
    parse [([], 0), ([], 1), ([], 2), ("@param ok".toList, 3)] = ((parse lines).1, []) := by
  intro lines
  have hplaces : (lines.map Prod.snd).Nodup := by decide
  have hfaults : (parse lines).2 = [(0, .noParameterName), (1, .unclosedType "@param"),
      (2, .unclosedOptional "[speed")] := by
    decide +kernel
  refine ⟨hplaces, hfaults, ?_⟩
  have hemptied := (faulty_lines_are_only_reported lines hplaces).2.2.2
  rwa [hfaults] at hemptied

end Gml.ScriptDoc
