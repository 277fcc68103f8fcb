import Gml.Manual.Json
import Gml.Proofs.Json.Decoding
import Gml.Symbol.Json

/-!
# Records are decoded to what they were

Each kept record has a codec: its JSON is plain, and decoding that gives the record back,
if its numbers have the width that the reader expects.
-/
namespace Gml

open Json

/-! ### Signatures and the manual -/

-- A codec stands in parentheses before a field. Without them the name of the field is looked up
-- below that of the codec first, which waits for the proof of the codec.

theorem Parameter.codes : Codes Parameter.toJson ofJson? fun _ => True where
  plain p := by
    obtain ⟨label, typeName, documentation, optional⟩ := p
    cases typeName <;> cases documentation <;> simp [toJson]
  decode_iff p q := by
    obtain ⟨label, typeName, documentation, optional⟩ := p
    cases typeName <;> cases documentation <;>
      rw [ofJson?, toJson, fields?_object (by simp) (by simp)] <;>
      simp [List.lookup_cons, Option.bind_eq_some_iff, Codes.text.decode_iff, Codes.bool.decode_iff,
        Codes.text.nullable_iff nofun]

/-- The numbers of arguments have 64 bits. -/
def Signature.Fits (s : Signature) : Prop :=
  s.minArgs < Numeral.limit64 ∧ ∀ most, s.maxArgs = some most → most < Numeral.limit64

theorem Signature.codes : Codes Signature.toJson ofJson? Fits where
  plain s := by
    obtain ⟨label, parameters, documentation, returns, minArgs, maxArgs⟩ := s
    cases documentation <;> cases returns <;> cases maxArgs <;>
      simp [toJson, Json.ofOption, (Parameter.codes).plain]
  decode_iff s q := by
    obtain ⟨label, parameters, documentation, returns, minArgs, maxArgs⟩ := s
    cases documentation <;> cases returns <;> cases maxArgs <;>
      rw [ofJson?, toJson, fields?_object (by simp) (by simp)] <;>
      simp [List.lookup_cons, Option.bind_eq_some_iff, Codes.text.decode_iff,
        Codes.text.nullable_iff nofun, (Parameter.codes).list.decode_iff,
        (Codes.natural _).decode_iff, (Codes.natural _).nullable_iff nofun, Json.ofOption, Fits,
        and_assoc]

theorem BuiltinFunction.codes : Codes BuiltinFunction.toJson ofJson? fun _ => True where
  plain f := by
    obtain ⟨name, parameters, variadic, description, returns⟩ := f
    cases returns <;> simp [toJson, (Parameter.codes).plain]
  decode_iff f q := by
    obtain ⟨name, parameters, variadic, description, returns⟩ := f
    cases returns <;>
      rw [ofJson?, toJson, fields?_object (by simp) (by simp)] <;>
      simp [List.lookup_cons, Option.bind_eq_some_iff, Codes.text.decode_iff, Codes.bool.decode_iff,
        Codes.text.nullable_iff nofun, (Parameter.codes).list.decode_iff]

theorem BuiltinVariable.codes : Codes BuiltinVariable.toJson ofJson? fun _ => True where
  plain v := by simp [toJson]
  decode_iff v q := by
    rw [ofJson?, toJson, fields?_object (by simp) (by simp)]
    simp [List.lookup_cons, Option.bind_eq_some_iff, Codes.text.decode_iff]

theorem Manual.codes : Codes Manual.toJson ofJson? fun _ => True where
  plain m := by simp [toJson, (BuiltinFunction.codes).plain, (BuiltinVariable.codes).plain]
  decode_iff m q := by
    rw [ofJson?, toJson, fields?_object (by simp) (by simp)]
    simp [List.lookup_cons, Option.bind_eq_some_iff, (BuiltinFunction.codes).list.decode_iff,
      (BuiltinVariable.codes).list.decode_iff]

/-! ### Symbols -/

/-- Lines and columns have 32 bits. -/
def Position.Fits (p : Position) : Prop := p.line < Numeral.limit32 ∧ p.column < Numeral.limit32

theorem Position.codes : Codes Position.toJson ofJson? Fits where
  plain p := by simp [toJson]
  decode_iff p q := by
    rw [ofJson?, toJson, fields?_object (by simp) (by simp)]
    simp [List.lookup_cons, Option.bind_eq_some_iff, (Codes.natural _).decode_iff, Fits, and_assoc]

def Location.Fits (l : Location) : Prop := l.start.Fits ∧ l.stop.Fits

theorem Location.codes : Codes Location.toJson ofJson? Fits where
  plain l := by simp [toJson, (Position.codes).plain]
  decode_iff l q := by
    rw [ofJson?, toJson, fields?_object (by simp) (by simp)]
    simp [List.lookup_cons, Option.bind_eq_some_iff, Codes.text.decode_iff,
      (Position.codes).decode_iff, Fits, and_assoc]

theorem Scope.codes : Codes Scope.toJson ofJson? fun _ => True where
  plain s := plain_text s.label
  decode_iff s q := by cases s <;> simp [ofJson?, toJson, label, words, word?, text, List.lookup_cons]

theorem UseKind.codes : Codes UseKind.toJson ofJson? fun _ => True where
  plain k := plain_text k.word
  decode_iff k q := by cases k <;> simp [ofJson?, toJson, word, words, word?, text, List.lookup_cons]

theorem VariableRecord.codes : Codes VariableRecord.toJson ofJson? (·.location.Fits) where
  plain r := by simp [toJson, (Scope.codes).plain, (Location.codes).plain]
  decode_iff r q := by
    rw [ofJson?, toJson, fields?_object (by simp) (by simp)]
    simp [List.lookup_cons, Option.bind_eq_some_iff, Codes.text.decode_iff,
      (Scope.codes).decode_iff, (Location.codes).decode_iff, and_assoc]

theorem MacroRecord.codes : Codes MacroRecord.toJson ofJson? (·.location.Fits) where
  plain r := by simp [toJson, (Location.codes).plain]
  decode_iff r q := by
    rw [ofJson?, toJson, fields?_object (by simp) (by simp)]
    simp [List.lookup_cons, Option.bind_eq_some_iff, Codes.text.decode_iff,
      (Location.codes).decode_iff, and_assoc]

theorem SymbolUse.codes : Codes SymbolUse.toJson ofJson? (·.location.Fits) where
  plain u := by simp [toJson, (UseKind.codes).plain, (Location.codes).plain]
  decode_iff u q := by
    rw [ofJson?, toJson, fields?_object (by simp) (by simp)]
    simp [List.lookup_cons, Option.bind_eq_some_iff, Codes.text.decode_iff,
      (UseKind.codes).decode_iff, (Location.codes).decode_iff, and_assoc]

def ScriptRecord.Fits (r : ScriptRecord) : Prop :=
  ∀ signature, r.signature = some signature → signature.Fits

theorem ScriptRecord.codes : Codes ScriptRecord.toJson ofJson? Fits where
  plain r := by
    obtain ⟨name, uri, signature, doc⟩ := r
    cases signature <;> cases doc <;> simp [toJson, (Signature.codes).plain]
  decode_iff r q := by
    obtain ⟨name, uri, signature, doc⟩ := r
    cases signature <;> cases doc <;>
      rw [ofJson?, toJson, fields?_object (by simp) (by simp)] <;>
      simp [List.lookup_cons, Option.bind_eq_some_iff, Codes.text.decode_iff,
        Codes.text.nullable_iff nofun, (Signature.codes).nullable_iff nofun, Fits, and_assoc]

/-- Adds the addresses that are not there yet. -/
def addFresh (kept uris : List Uri) : List Uri :=
  uris.foldl (fun kept uri => if kept.contains uri then kept else kept ++ [uri]) kept

theorem addFresh_eq {kept uris : List Uri} (h : (kept ++ uris).Nodup) :
    addFresh kept uris = kept ++ uris := by
  induction uris generalizing kept with
  | nil => exact (List.append_nil kept).symm
  | cons uri uris ih =>
      have hfresh : uri ∉ kept := fun hmem =>
        (List.nodup_append.mp h).2.2 uri hmem uri List.mem_cons_self rfl
      rw [List.append_cons] at h ⊢
      rw [← ih h, addFresh, List.foldl_cons, if_neg (by simpa using hfresh), addFresh]

/-- What is read back of an object: each event once, at its first place. -/
def ObjectRecord.once (r : ObjectRecord) : ObjectRecord :=
  { r with eventUris := addFresh [] r.eventUris }

theorem ObjectRecord.once_eq {r : ObjectRecord} (h : r.eventUris.Nodup) : r.once = r := by
  have happend : ([] ++ r.eventUris).Nodup := h
  rw [once, addFresh_eq happend, List.nil_append]

theorem ObjectRecord.plain_toJson (r : ObjectRecord) : r.toJson.Plain := by
  simp [toJson, Json.texts]

theorem ObjectRecord.ofJson?_toJson (r : ObjectRecord) : ofJson? r.toJson = some r.once := by
  rw [ofJson?, toJson, Json.texts, fields?_object (by simp) (by simp)]
  have huris : list? string? (.arr (r.eventUris.map Json.text)) = some r.eventUris :=
    (Codes.text.list.decode_iff _ _).mpr ⟨fun _ _ => trivial, rfl⟩
  have hname : string? (.text r.name) = some r.name := rfl
  simp [List.lookup_cons, huris, hname, once, addFresh]

def Contribution.Fits (c : Contribution) : Prop :=
  (∀ record ∈ c.declarations, record.location.Fits) ∧
    (∀ record ∈ c.macros, record.location.Fits) ∧ ∀ use ∈ c.uses, use.location.Fits

theorem Contribution.codes : Codes Contribution.toJson ofJson? Fits where
  plain c := by
    simp [toJson, (VariableRecord.codes).plain, (MacroRecord.codes).plain, (SymbolUse.codes).plain]
  decode_iff c q := by
    rw [ofJson?, toJson, fields?_object (by simp) (by simp)]
    simp [List.lookup_cons, Option.bind_eq_some_iff, (VariableRecord.codes).list.decode_iff,
      (MacroRecord.codes).list.decode_iff, (SymbolUse.codes).list.decode_iff, Fits, and_assoc]

end Gml
