import Gml.Proofs.Json.Decoding
import Gml.Proofs.Table
import Mathlib.Data.List.Induction

/-!
# Members of objects

A record is read from an object among other members. Where a member may stand more than once, the
last one counts, and an object is the table of its members.
-/
namespace Gml

namespace Json

/-- The value of the only member with a name, or none where there is no such member. -/
def Holds (members : List (String × Json)) (name : String) (value : Option Json) : Prop :=
  (members.filter (·.1 == name)).map Prod.snd = value.toList

variable {members : List (String × Json)} {names : List String}

/-! ### Members that stand once -/

theorem lookup_eq_head? (members : List (String × Json)) (name : String) :
    members.lookup name = ((members.filter (·.1 == name)).map Prod.snd).head? := by
  induction members with
  | nil => rfl
  | cons member members ih =>
      obtain ⟨other, value⟩ := member
      rw [List.lookup_cons, List.filter_cons, BEq.comm]
      cases hsame : other == name with
      | true => simp
      | false => simpa using ih

/-- A record is read from an object in which its fields stand at most once. -/
theorem exists_fields (h : ∀ name ∈ names, ∃ value, Holds members name value) :
    ∃ found, fields? names (object members) = some ⟨false, found⟩ ∧
      ∀ name ∈ names, ∀ value, Holds members name value → found.lookup name = value := by
  have hfilter : ∀ name ∈ names,
      (members.filter fun member => names.contains member.1).filter (·.1 == name) =
        members.filter (·.1 == name) := by
    intro name hname
    rw [List.filter_filter]
    refine List.filter_congr fun member _ => ?_
    cases hsame : member.1 == name with
    | false => rfl
    | true =>
        rw [Bool.true_and, beq_iff_eq.mp hsame]
        exact List.contains_iff_mem.mpr hname
  have hnodup : ((members.filter fun member => names.contains member.1).map Prod.fst).Nodup := by
    refine List.nodup_iff_count_le_one.mpr fun name => ?_
    by_cases hname : name ∈ names
    · obtain ⟨value, hvalue⟩ := h name hname
      have hlength := congrArg List.length hvalue
      rw [List.length_map, ← hfilter name hname] at hlength
      rw [List.count, List.countP_map, List.countP_eq_length_filter]
      refine Nat.le_trans (Nat.le_of_eq hlength) ?_
      cases value <;> simp
    · have hnone : name ∉ (members.filter fun member => names.contains member.1).map Prod.fst := by
        simp [hname]
      rw [List.count_eq_zero_of_not_mem hnone]
      exact Nat.zero_le 1
  refine ⟨_, fields?_object_of_nodup hnodup, fun name hname value hvalue => ?_⟩
  rw [lookup_eq_head?, hfilter name hname, hvalue]
  cases value <;> rfl

theorem nullable?_object {α : Type} (decode : Json → Option α) (members : List (String × Json)) :
    nullable? decode (object members) = (decode (object members)).map some := rfl

theorem exists_two_fields {first second : String} {value value' : Option Json}
    (h : Holds members first value) (h' : Holds members second value') :
    ∃ found, fields? [first, second] (object members) = some ⟨false, found⟩ ∧
      found.lookup first = value ∧ found.lookup second = value' := by
  have hknown : ∀ name ∈ [first, second], ∃ value, Holds members name value := by
    simpa using ⟨⟨value, h⟩, value', h'⟩
  obtain ⟨found, hfields, hfound⟩ := exists_fields hknown
  exact ⟨found, hfields, hfound _ (by simp) _ h, hfound _ (by simp) _ h'⟩

/-! ### Members of which the last one counts -/

theorem holds_entries (table : Table Json) (name : String) :
    Holds table.entries name (table.get? name) := by
  obtain ⟨entries, hnodup⟩ := table
  rw [Holds, Table.get?]
  dsimp only
  induction entries with
  | nil => rfl
  | cons entry entries ih =>
      obtain ⟨key, value⟩ := entry
      obtain ⟨hfresh, hnodup⟩ := List.nodup_cons.mp hnodup
      rw [List.filter_cons, Table.find]
      by_cases hkey : key = name
      · subst hkey
        have hnone : entries.filter (·.1 == key) = [] := by
          rw [List.filter_eq_nil_iff]
          intro other hother hsame
          exact hfresh (List.mem_map.mpr ⟨other, hother, beq_iff_eq.mp hsame⟩)
        simp [hnone]
      · simpa [hkey] using ih hnodup

theorem map_replace_eq_setIn {entries : List (String × Json)} (h : (entries.map Prod.fst).Nodup)
    {name : String} (hname : name ∈ entries.map Prod.fst) (value : Json) :
    (entries.map fun (n, v) => if n = name then (n, value) else (n, v)) =
      Table.setIn name value entries := by
  induction entries with
  | nil => cases hname
  | cons entry entries ih =>
      obtain ⟨key, old⟩ := entry
      obtain ⟨hfresh, hnodup⟩ := List.nodup_cons.mp h
      rw [List.map_cons, Table.setIn]
      by_cases hkey : key = name
      · subst hkey
        have hrest : (entries.map fun (n, v) => if n = key then (n, value) else (n, v)) = entries := by
          refine (List.map_congr_left fun other hother => ?_).trans (List.map_id entries)
          have hother : other.1 ≠ key := fun hsame => hfresh (List.mem_map.mpr ⟨other, hother, hsame⟩)
          simp [hother]
        simp [hrest]
      · have hmem : name ∈ entries.map Prod.fst := by
          simpa [Ne.symm hkey] using hname
        simp [hkey, ih hnodup hmem]

theorem ofList_concat (members : List (String × Json)) (name : String) (value : Json) :
    Table.ofList (members ++ [(name, value)]) = (Table.ofList members).set name value := by
  rw [Table.ofList, List.foldl_append]
  rfl

/-- Of members with one name the last one counts. -/
theorem lastMembers_object (members : List (String × Json)) :
    .obj (lastMembers (members.map fun (name, value) => (some name, value))) =
      object (Table.ofList members).entries := by
  rw [object, lastMembers]
  congr 1
  induction members using List.reverseRecOn with
  | nil => rfl
  | append_singleton members member ih =>
      obtain ⟨name, value⟩ := member
      rw [List.map_append, List.foldl_append, ih, ofList_concat]
      obtain ⟨entries, hnodup⟩ := Table.ofList members
      have hany : (entries.map fun (name, value) => (some name, value)).any (·.1 == some name) =
          decide (name ∈ entries.map Prod.fst) := by
        rw [List.any_map, Bool.eq_iff_iff]
        simp
      simp only [List.map_cons, List.map_nil, List.foldl_cons, List.foldl_nil, hany, Table.set]
      by_cases hname : name ∈ entries.map Prod.fst
      · rw [if_pos (by simpa using hname), ← map_replace_eq_setIn hnodup hname, List.map_map,
          List.map_map]
        refine List.map_congr_left fun other _ => ?_
        by_cases hsame : other.1 = name <;> simp [hsame]
      · have hfind : Table.find name entries = none := by
          rw [← Option.not_isSome_iff_eq_none, Option.isSome_iff_exists]
          rintro ⟨value, hvalue⟩
          exact hname (List.mem_map.mpr ⟨_, (Table.find_eq_some_iff hnodup _ _).mp hvalue, rfl⟩)
        rw [if_neg (by simpa using hname), Table.setIn_of_find_eq_none value hfind, List.map_append]
        rfl

theorem get?_object (members : List (String × Json)) (name : String) :
    (object members).get? name = (Table.ofList members).get? name := by
  induction members using List.reverseRecOn with
  | nil => rfl
  | append_singleton members member ih =>
      obtain ⟨key, value⟩ := member
      rw [object, get?] at ih ⊢
      rw [ofList_concat, Table.get?_set, ← ih]
      by_cases hkey : name = key
      · simp [hkey]
      · simp [hkey, Ne.symm hkey]

end Json

end Gml
