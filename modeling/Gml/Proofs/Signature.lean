import Gml.Proofs.Text.Cutting
import Gml.Proofs.Text.Pieces
import Gml.Proofs.Token.Lexeme
import Gml.Signature.Basic

/-!
# Signatures read back

A label between brackets or commas is trimmed, holds no comma and, where it is not optional, is
neither empty nor the dots nor in brackets. Every parameter that is read from a list is of this
kind, and a list of such parameters that is written out is read as the same list.
-/
namespace Gml

namespace Parameter

variable {parameter : Parameter} {part : List Char}

/-- A part of a list: something, without blanks around it and without a comma. -/
structure IsPart (part : List Char) : Prop where
  ne_nil : part ≠ []
  trimmed : Text.trim part = part
  no_comma : ∀ c ∈ part, (c == ',') = false

/-- A text in brackets. -/
def Bracketed (part : List Char) : Prop := ∃ inner, part = '[' :: (inner ++ [']'])

/-- A parameter as a list can write it, without a type and a text about it. -/
structure Plain (parameter : Parameter) : Prop where
  typeName : parameter.typeName = none
  documentation : parameter.documentation = none
  trimmed : Text.trim parameter.label.toList = parameter.label.toList
  no_comma : ∀ c ∈ parameter.label.toList, (c == ',') = false
  required : parameter.optional = false → parameter.label.toList ≠ [] ∧
    parameter.label.toList ≠ dots ∧ ¬Bracketed parameter.label.toList

/-! ### Parts -/

theorem isPart_of_mem {list : List Char} (h : part ∈ parts list) : IsPart part := by
  obtain ⟨hmem, hne⟩ := List.mem_filter.mp h
  obtain ⟨piece, hpiece, rfl⟩ := List.mem_map.mp hmem
  refine ⟨by simpa using hne, Text.trim_trim piece, fun c hc => ?_⟩
  exact Text.eq_false_of_mem_splitAll hpiece ((Text.trim_sublist piece).mem hc)

theorem isPart_dots : IsPart dots := ⟨by decide, by decide, by simp [dots]⟩

theorem map_trim_intercalate {first : List Char} {words : List (List Char)}
    (h : ∀ word ∈ first :: words, IsPart word) :
    (Text.splitAll (· == ',') ([',', ' '].intercalate (first :: words))).map Text.trim =
      first :: words := by
  induction words generalizing first with
  | nil =>
      have hfirst := h first List.mem_cons_self
      rw [List.intercalate_singleton, Text.splitAll_of_forall hfirst.no_comma, List.map_cons,
        hfirst.trimmed, List.map_nil]
  | cons second words ih =>
      obtain ⟨hfirst, hmore⟩ := List.forall_mem_cons.mp h
      have hcomma : [',', ' '].intercalate (first :: second :: words) =
          first ++ ',' :: ' ' :: [',', ' '].intercalate (second :: words) := by
        rw [List.intercalate_cons_cons, List.append_assoc]
        rfl
      rw [hcomma, Text.splitAll_append hfirst.no_comma rfl, List.map_cons, hfirst.trimmed,
        Text.map_trim_splitAll_cons rfl rfl, ih hmore]

/-- Parts with a comma and a blank between every two of them are cut into the same parts. -/
theorem parts_intercalate {words : List (List Char)} (h : ∀ word ∈ words, IsPart word) :
    parts ([',', ' '].intercalate words) = words := by
  cases words with
  | nil => rfl
  | cons first words =>
      rw [parts, map_trim_intercalate h, List.filter_eq_self]
      intro word hword
      simpa using (h word hword).ne_nil

/-! ### One parameter -/

theorem ofPart_of_bracketed (inner : List Char) : ofPart ('[' :: (inner ++ [']'])) =
    { label := String.ofList (Text.trim inner), optional := true } := by
  have hdrop : Text.dropWord? ['['] ('[' :: (inner ++ [']'])) = some (inner ++ [']']) := rfl
  rw [ofPart, hdrop]
  dsimp only
  rw [Text.dropLast?_concat]

theorem ofPart_of_not_bracketed (h : ¬Bracketed part) :
    ofPart part = { label := String.ofList part } := by
  unfold ofPart
  split
  next inner hdrop =>
      split
      next label hlast =>
          refine absurd ⟨label, ?_⟩ h
          rw [Text.eq_append_of_dropWord? hdrop, Text.dropLast?_eq_some_iff.mp hlast]
          rfl
      next => rfl
  next => rfl

/-- What is read of a part that is not the dots is plain. -/
theorem plain_ofPart (h : IsPart part) (hdots : part ≠ dots) : Plain (ofPart part) := by
  by_cases hbracketed : Bracketed part
  · obtain ⟨inner, rfl⟩ := hbracketed
    have hinner : ∀ c ∈ Text.trim inner, (c == ',') = false := fun c hc =>
      h.no_comma c (by simp [(Text.trim_sublist inner).mem hc])
    rw [ofPart_of_bracketed]
    exact ⟨rfl, rfl, by simp, by simpa using hinner, nofun⟩
  · rw [ofPart_of_not_bracketed hbracketed]
    refine ⟨rfl, rfl, by simpa using h.trimmed, by simpa using h.no_comma, fun _ => ?_⟩
    rw [String.toList_ofList]
    exact ⟨h.ne_nil, hdots, hbracketed⟩

theorem toList_render (parameter : Parameter) : parameter.render.toList =
    if parameter.optional then '[' :: (parameter.label.toList ++ [']'])
    else parameter.label.toList := by
  rw [render]
  split <;> simp

namespace Plain

theorem isPart_render (h : parameter.Plain) : IsPart parameter.render.toList := by
  rw [toList_render]
  split
  next hoptional =>
      refine ⟨List.cons_ne_nil _ _, Text.trim_enclosed rfl rfl _, fun c hc => ?_⟩
      simp only [List.mem_cons, List.mem_append, List.not_mem_nil, or_false] at hc
      rcases hc with rfl | hc | rfl
      · rfl
      · exact h.no_comma c hc
      · rfl
  next hoptional =>
      exact ⟨(h.required (Bool.eq_false_iff.mpr hoptional)).1, h.trimmed, h.no_comma⟩

theorem render_ne_dots (h : parameter.Plain) : parameter.render.toList ≠ dots := by
  rw [toList_render]
  split
  next hoptional => exact fun hdots => absurd (List.cons.inj hdots).1 (by decide)
  next hoptional => exact (h.required (Bool.eq_false_iff.mpr hoptional)).2.1

/-- A plain parameter is read from how it is written. -/
theorem ofPart_render (h : parameter.Plain) : ofPart parameter.render.toList = parameter := by
  have hall : parameter = ⟨parameter.label, none, none, parameter.optional⟩ := by
    have htype := h.typeName
    have hdocumentation := h.documentation
    cases parameter
    simp only at htype hdocumentation
    rw [htype, hdocumentation]
  rw [toList_render]
  split
  next hoptional =>
      rw [ofPart_of_bracketed, h.trimmed, String.ofList_toList, hall, hoptional]
  next hoptional =>
      rw [ofPart_of_not_bracketed (h.required (Bool.eq_false_iff.mpr hoptional)).2.2,
        String.ofList_toList, hall, Bool.eq_false_iff.mpr hoptional]

end Plain

theorem plain_of_mem_parseList {list : List Char} (h : parameter ∈ (parseList list).1) :
    parameter.Plain := by
  obtain ⟨part, hpart, rfl⟩ := List.mem_map.mp h
  obtain ⟨hmem, hdots⟩ := List.mem_filter.mp hpart
  exact plain_ofPart (isPart_of_mem hmem) (by simpa using hdots)

/-! ### Lists -/

/-- The parts of a written list: the parameters and, if further arguments are allowed, the dots. -/
def rendered (parameters : List Parameter) (variadic : Bool) : List (List Char) :=
  parameters.map (·.render.toList) ++ if variadic then [dots] else []

theorem parseList_rendered {parameters : List Parameter} (variadic : Bool)
    (h : ∀ parameter ∈ parameters, parameter.Plain) :
    parseList ([',', ' '].intercalate (rendered parameters variadic)) = (parameters, variadic) := by
  have hparts : ∀ word ∈ rendered parameters variadic, IsPart word := by
    intro word hword
    rcases List.mem_append.mp hword with hword | hword
    · obtain ⟨parameter, hmem, rfl⟩ := List.mem_map.mp hword
      exact (h parameter hmem).isPart_render
    · obtain ⟨-, hdots⟩ := List.mem_ite_nil_right.mp hword
      rw [List.mem_singleton.mp hdots]
      exact isPart_dots
  have hlabels : (parameters.map (·.render.toList)).filter (· != dots) =
      parameters.map (·.render.toList) := by
    refine List.filter_eq_self.mpr fun word hword => ?_
    obtain ⟨parameter, hmem, rfl⟩ := List.mem_map.mp hword
    exact bne_iff_ne.mpr (h parameter hmem).render_ne_dots
  have hread : (parameters.map (·.render.toList)).map ofPart = parameters := by
    rw [List.map_map]
    conv => rhs; rw [← List.map_id parameters]
    exact List.map_congr_left fun parameter hmem => (h parameter hmem).ofPart_render
  have hnone : (parameters.map (·.render.toList)).contains dots = false := by
    rw [List.contains_eq_mem, decide_eq_false_iff_not]
    intro hmem
    obtain ⟨parameter, hparameter, heq⟩ := List.mem_map.mp hmem
    exact (h parameter hparameter).render_ne_dots heq
  rw [parseList, parts_intercalate hparts, rendered, List.filter_append, hlabels]
  cases variadic with
  | true => simp [hread]
  | false =>
      simp only [Bool.false_eq_true, if_false, List.append_nil, List.filter_nil, hread, hnone]

end Parameter

namespace Signature

variable {name : String}

theorem toList_label (name : String) (parameters : List Parameter) (variadic : Bool) :
    (ofParameters name parameters variadic).label.toList = name.toList ++
      '(' :: ([',', ' '].intercalate (Parameter.rendered parameters variadic) ++ [')']) := by
  have hrendered : (parameters.map Parameter.render ++
      if variadic then ["..."] else []).map String.toList =
        Parameter.rendered parameters variadic := by
    rw [Parameter.rendered, List.map_append, List.map_map]
    cases variadic <;> rfl
  rw [ofParameters]
  simp only [String.toList_append, String.toList_intercalate, hrendered]
  simp

theorem not_blank_of_isIdentChar {c : Char} (h : Token.isIdentChar c = true) :
    Text.isBlank c = false ∧ (c == '(') = false := by
  let holds (d : Char) := Token.isIdentChar d = true → Text.isBlank d = false ∧ (d == '(') = false
  have hall : ∀ n < 128, holds (Char.ofNat n) := by decide +kernel
  exact Token.of_lt holds hall (Token.lt_of_isIdentChar h) h

/-- A call that is written with plain parameters is read as such. -/
theorem parseLine?_label {parameters : List Parameter} (variadic : Bool)
    (h : ∀ parameter ∈ parameters, parameter.Plain) (hne : name ≠ "")
    (hname : ∀ c ∈ name.toList, Token.isIdentChar c = true) :
    parseLine? (ofParameters name parameters variadic).label.toList =
      some (parameters, variadic) := by
  have hopening : ∀ c ∈ name.toList, (c == '(') = false := fun c hc =>
    (not_blank_of_isIdentChar (hname c hc)).2
  have htrim : Text.trim name.toList = name.toList :=
    Text.trim_eq_self fun c hc => (not_blank_of_isIdentChar (hname c hc)).1
  have hword : (name.toList.isEmpty || !name.toList.all Token.isIdentChar) = false := by
    rw [List.all_eq_true.mpr hname]
    simpa using hne
  rw [toList_label, parseLine?, Text.splitFirst?_append hopening rfl]
  simp only [Option.bind_eq_bind, Option.bind_some, htrim, hword, Bool.false_eq_true, if_false]
  rw [Text.trimEnd_of_not_blank rfl, Text.dropLast?_concat, Option.bind_some,
    Parameter.parseList_rendered variadic h]
  rfl

end Signature

/-- Whatever text a parameter list is read from, the label of the signature with these parameters
reads back: the same labels in the same order, each optional or not as before, and further
arguments allowed or not as before. Every list of parameters that can be written reads back so. -/
theorem rendered_signature_reads_back (text : String) {name : String} (hne : name ≠ "")
    (hname : ∀ c ∈ name.toList, Token.isIdentChar c = true) :
    Signature.parseLine? (Signature.ofParameters name (Parameter.parseList text.toList).1
      (Parameter.parseList text.toList).2).label.toList =
        some (Parameter.parseList text.toList) ∧
    ∀ parameters variadic, (∀ parameter ∈ parameters, parameter.Plain) →
      Signature.parseLine? (Signature.ofParameters name parameters variadic).label.toList =
        some (parameters, variadic) := by
  have hread : ∀ parameters variadic, (∀ parameter ∈ parameters, parameter.Plain) →
      Signature.parseLine? (Signature.ofParameters name parameters variadic).label.toList =
        some (parameters, variadic) :=
    fun parameters variadic hplain => Signature.parseLine?_label variadic hplain hne hname
  exact ⟨hread _ _ fun _ hmem => Parameter.plain_of_mem_parseList hmem, hread⟩

/-- Labels may be in brackets, empty or of several words. -/
theorem bracketed_signature_reads_back :
    Parameter.parseList " x,[ [y] ], [],\t..., a b".toList =
      ([{ label := "x" }, { label := "[y]", optional := true },
        { label := "", optional := true }, { label := "a b" }], true) ∧
    ("move" ≠ "" ∧ ∀ c ∈ "move".toList, Token.isIdentChar c = true) ∧
    Signature.parseLine? "move(x, [[y]], [], a b, ...)".toList =
      some (Parameter.parseList " x,[ [y] ], [],\t..., a b".toList) := by
  have hlist : Parameter.parseList " x,[ [y] ], [],\t..., a b".toList =
      ([{ label := "x" }, { label := "[y]", optional := true },
        { label := "", optional := true }, { label := "a b" }], true) := by
    decide +kernel
  have hname : "move" ≠ "" ∧ ∀ c ∈ "move".toList, Token.isIdentChar c = true :=
    ⟨by decide, List.all_eq_true.mp (by decide)⟩
  obtain ⟨hread, -⟩ := rendered_signature_reads_back " x,[ [y] ], [],\t..., a b" hname.1 hname.2
  have hlabel : (Signature.ofParameters "move" (Parameter.parseList " x,[ [y] ], [],\t..., a b".toList).1
      (Parameter.parseList " x,[ [y] ], [],\t..., a b".toList).2).label =
        "move(x, [[y]], [], a b, ...)" := by
    rw [hlist]
    decide +kernel
  rw [hlabel] at hread
  exact ⟨hlist, hname, hread⟩

end Gml
