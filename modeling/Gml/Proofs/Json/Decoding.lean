import Gml.Json.Decode
import Gml.Proofs.Json.Printing

/-!
# Decoding what was encoded

An encoder and a decoder fit together if the decoder gives back each value that is in
range and refuses every other one. For lists, optional fields and whole records this
follows from their parts.
-/
namespace Gml.Json

variable {α : Type}

/-! ### Plain values -/

theorem plainItems_iff {items : List Json} : PlainItems items ↔ ∀ item ∈ items, item.Plain := by
  induction items with
  | nil => simp [PlainItems]
  | cons item items ih => simp [PlainItems, ih]

theorem plainMembers_iff {members : List (Option String × Json)} :
    PlainMembers members ↔ ∀ member ∈ members, member.1.isSome = true ∧ member.2.Plain := by
  induction members with
  | nil => simp [PlainMembers]
  | cons member members ih => simp [PlainMembers, ih, and_assoc]

@[simp] theorem plain_null : Json.null.Plain := trivial

@[simp] theorem plain_bool (b : Bool) : (Json.bool b).Plain := trivial

@[simp] theorem plain_natural (n : Nat) : (Json.natural n).Plain := trivial

@[simp] theorem plain_text (s : String) : (text s).Plain := rfl

@[simp] theorem plain_object {members : List (String × Json)} :
    (object members).Plain ↔ ∀ member ∈ members, member.2.Plain := by
  rw [object, Plain, plainMembers_iff, List.forall_mem_map]
  simp

@[simp] theorem plain_arr_map {encode : α → Json} {items : List α} :
    (Json.arr (items.map encode)).Plain ↔ ∀ item ∈ items, (encode item).Plain := by
  rw [Plain, plainItems_iff]
  simp

/-! ### Encoders and their decoders -/

/-- Encoding gives a plain value, and decoding gives back exactly what fits. -/
structure Codes (encode : α → Json) (decode : Json → Option α) (fits : α → Prop) : Prop where
  plain : ∀ a, (encode a).Plain
  decode_iff : ∀ a b, decode (encode a) = some b ↔ fits a ∧ a = b

namespace Codes

theorem text : Codes Json.text string? fun _ => True where
  plain := plain_text
  decode_iff a b := by simp [string?, Json.text]

theorem natural (limit : Nat) : Codes Json.natural (natBelow? limit) (· < limit) where
  plain := plain_natural
  decode_iff a b := by simp [natBelow?]

theorem bool : Codes Json.bool bool? fun _ => True where
  plain := plain_bool
  decode_iff a b := by simp [bool?]

variable {encode : α → Json} {decode : Json → Option α} {fits : α → Prop}

theorem mapM_iff (h : Codes encode decode fits) (items decoded : List α) :
    (items.map encode).mapM decode = some decoded ↔ (∀ item ∈ items, fits item) ∧ items = decoded := by
  induction items generalizing decoded with
  | nil => simp
  | cons item items ih =>
      simp only [List.map_cons, List.mapM_cons, Option.bind_eq_bind, Option.bind_eq_some_iff,
        h.decode_iff, ih, Option.pure_def, Option.some.injEq, List.forall_mem_cons]
      constructor
      · rintro ⟨_, ⟨hitem, rfl⟩, _, ⟨hitems, rfl⟩, hdecoded⟩
        exact ⟨⟨hitem, hitems⟩, hdecoded⟩
      · rintro ⟨⟨hitem, hitems⟩, hdecoded⟩
        exact ⟨item, ⟨hitem, rfl⟩, items, ⟨hitems, rfl⟩, hdecoded⟩

theorem list (h : Codes encode decode fits) :
    Codes (fun items => .arr (items.map encode)) (list? decode) (∀ item ∈ ·, fits item) where
  plain _ := plain_arr_map.mpr fun item _ => h.plain item
  decode_iff items decoded := h.mapM_iff items decoded

theorem nullable_iff (h : Codes encode decode fits) (hnull : ∀ a, encode a ≠ .null) (a : α)
    (b : Option α) : nullable? decode (encode a) = some b ↔ fits a ∧ some a = b := by
  have hmap : nullable? decode (encode a) = (decode (encode a)).map some := by
    unfold nullable?
    split
    next heq => exact absurd heq (hnull a)
    next => rfl
  rw [hmap, Option.map_eq_some_iff]
  constructor
  · rintro ⟨_, hdecode, rfl⟩
    obtain ⟨hfits, rfl⟩ := (h.decode_iff a _).mp hdecode
    exact ⟨hfits, rfl⟩
  · rintro ⟨hfits, rfl⟩
    exact ⟨a, (h.decode_iff a a).mpr ⟨hfits, rfl⟩, rfl⟩

end Codes

/-! ### Records -/

@[simp] theorem member?_none (name : String) (encode : α → Json) :
    member? name encode none = [] := rfl

@[simp] theorem member?_some (name : String) (encode : α → Json) (a : α) :
    member? name encode (some a) = [(name, encode a)] := rfl

@[simp] theorem nullable?_null (decode : Json → Option α) : nullable? decode null = some none := rfl

namespace Fields

variable (byPlace : Bool) (found : List (String × Json)) (name : String) (decode : Json → Option α)

@[simp] theorem required_eq :
    required ⟨byPlace, found⟩ name decode = (found.lookup name).bind decode := rfl

@[simp] theorem orElse_eq (absent : α) : orElse ⟨byPlace, found⟩ name absent decode =
    ((found.lookup name).map decode).getD (some absent) := by
  rw [orElse]
  cases found.lookup name with
  | none => rfl
  | some value => rfl

@[simp] theorem optional_eq : optional ⟨byPlace, found⟩ name decode =
    ((found.lookup name).map (nullable? decode)).getD (some none) :=
  orElse_eq byPlace found name (nullable? decode) none

@[simp] theorem placed_eq : placed ⟨false, found⟩ name decode =
    ((found.lookup name).map (nullable? decode)).getD (some none) := by
  rw [placed]
  cases found.lookup name with
  | none => rfl
  | some value => rfl

end Fields

theorem hasRepeat_eq_false {names : List String} (h : names.Nodup) : hasRepeat names = false := by
  induction names with
  | nil => rfl
  | cons name names ih =>
      obtain ⟨hfresh, hnames⟩ := List.nodup_cons.mp h
      rw [hasRepeat, ih hnames, Bool.or_false, Bool.eq_false_iff, ne_eq, List.contains_iff_mem]
      exact hfresh

theorem mapM_map_eq_some {α β : Type} {f : α → β} {g : β → Option α} {items : List α}
    (h : ∀ a ∈ items, g (f a) = some a) : (items.map f).mapM g = some items := by
  induction items with
  | nil => rfl
  | cons a items ih =>
      obtain ⟨ha, hitems⟩ := List.forall_mem_cons.mp h
      rw [List.map_cons, List.mapM_cons, ha, ih hitems]
      rfl

/-- What an object says to a reader who knows some names, each of which stands at most once. -/
theorem fields?_object_of_nodup {names : List String} {members : List (String × Json)}
    (h : ((members.filter fun member => names.contains member.1).map Prod.fst).Nodup) :
    fields? names (object members) =
      some ⟨false, members.filter fun member => names.contains member.1⟩ := by
  rw [object, fields?, mapM_map_eq_some, Option.bind_eq_bind, Option.bind_some]
  · dsimp only
    rw [hasRepeat_eq_false h, if_neg Bool.false_ne_true]
  · exact fun _ _ => rfl

/-- An object of known members, each once, is a record of these. -/
theorem fields?_object {names : List String} {members : List (String × Json)}
    (hknown : ∀ member ∈ members, member.1 ∈ names) (hnodup : (members.map Prod.fst).Nodup) :
    fields? names (object members) = some ⟨false, members⟩ := by
  have hall : members.filter (fun member => names.contains member.1) = members :=
    List.filter_eq_self.mpr fun member hmember => List.contains_iff_mem.mpr (hknown member hmember)
  have hfields : fields? names (object members) =
      some ⟨false, members.filter fun member => names.contains member.1⟩ :=
    fields?_object_of_nodup (by rwa [hall])
  rwa [hall] at hfields

end Gml.Json
