import Gml.Table
import Mathlib.Data.List.Nodup

/-!
# Tables and their entries

A table is a list of entries in which each key stands once, so looking up a key and
finding its entry is the same. What a table says in all is collected from the entries
in the order of the keys.
-/
namespace Gml.Table

variable {α β : Type}

theorem find_eq_some_iff {entries : List (String × α)} (h : (entries.map Prod.fst).Nodup)
    (key : String) (value : α) : find key entries = some value ↔ (key, value) ∈ entries := by
  induction entries with
  | nil => simp [find]
  | cons entry rest ih =>
      obtain ⟨k, v⟩ := entry
      obtain ⟨hkey, hrest⟩ := List.nodup_cons.mp h
      rw [find, List.mem_cons]
      split
      next heq =>
          subst heq
          have habsent : (k, value) ∉ rest := fun hmem =>
            hkey (List.mem_map.mpr ⟨(k, value), hmem, rfl⟩)
          simp [habsent, eq_comm]
      next hne =>
          have hother : (key, value) ≠ (k, v) := fun heq => hne (congrArg Prod.fst heq).symm
          rw [ih hrest, or_iff_right hother]

theorem get?_eq_some_iff (table : Table α) (key : String) (value : α) :
    table.get? key = some value ↔ (key, value) ∈ table.entries :=
  find_eq_some_iff table.nodup key value

theorem mem_keys_iff (table : Table α) (key : String) :
    key ∈ table.keys ↔ table.get? key ≠ none := by
  rw [Option.ne_none_iff_exists', keys, List.mem_map]
  simp only [get?_eq_some_iff, Prod.exists, exists_and_right, exists_eq_right]

theorem get?_of_get?_erase {table : Table α} {key other : String} {value : α}
    (h : (table.erase key).get? other = some value) : table.get? other = some value := by
  rw [get?_erase] at h
  split at h
  · cases h
  · exact h

theorem get?_foldl_set (keys : List String) (value : α) (table : Table α)
    (key : String) :
    (keys.foldl (fun table key => table.set key value) table).get? key =
      if key ∈ keys then some value else table.get? key := by
  induction keys generalizing table with
  | nil => rfl
  | cons first keys ih =>
      rw [List.foldl_cons, ih, get?_set]
      by_cases heq : key = first
      · simp [heq]
      · simp [heq]

theorem contains_set (table : Table α) (key other : String) (value : α) :
    (table.set key value).contains other = (decide (other = key) || table.contains other) := by
  rw [contains, get?_set]
  by_cases h : other = key
  · simp [h]
  · simp [h, contains]

theorem contains_erase (table : Table α) (key other : String) :
    (table.erase key).contains other = (!decide (other = key) && table.contains other) := by
  rw [contains, get?_erase]
  by_cases h : other = key
  · simp [h]
  · simp [h, contains]

theorem contains_of_get? {table : Table α} {key : String} {value : α}
    (h : table.get? key = some value) : table.contains key = true := by
  rw [contains, h, Option.isSome_some]

/-- A new value for a key that is there adds no key. -/
theorem contains_set_of_get? {table : Table α} {key : String} {old : α}
    (h : table.get? key = some old) (value : α) (other : String) :
    (table.set key value).contains other = table.contains other := by
  rw [contains_set]
  by_cases hother : other = key
  · simp [hother, contains_of_get? h]
  · simp [hother]

/-- The keys of a table come from its list. -/
theorem mem_keys_of_contains_ofList {entries : List (String × α)} {key : String}
    (h : (ofList entries).contains key = true) : key ∈ entries.map Prod.fst := by
  have hfold : ∀ table : Table α,
      (entries.foldl (fun table entry => table.set entry.1 entry.2) table).contains key = true →
        table.contains key = true ∨ key ∈ entries.map Prod.fst := by
    clear h
    induction entries with
    | nil => exact fun table h => .inl h
    | cons entry rest ih =>
        intro table h
        rw [List.map_cons, List.mem_cons]
        rcases ih _ h with hset | hrest
        · rw [contains_set, Bool.or_eq_true, decide_eq_true_eq] at hset
          exact hset.elim (fun heq => .inr (.inl heq)) .inl
        · exact .inr (.inr hrest)
  rcases hfold empty h with hempty | hmem
  · cases hempty
  · exact hmem

theorem get?_modify (table : Table α) (key : String) (f : α → α) (other : String) :
    (table.modify key f).get? other =
      if other = key then (table.get? key).map f else table.get? other := by
  rw [modify]
  split
  next value hvalue => rw [get?_set, hvalue, Option.map_some]
  next hnone =>
      split
      next h => rw [h, hnone, Option.map_none]
      next => rfl

theorem contains_modify (table : Table α) (key : String) (f : α → α) (other : String) :
    (table.modify key f).contains other = table.contains other := by
  rw [modify]
  split
  next old h => exact contains_set_of_get? h (f old) other
  · rfl

theorem setIn_of_find_eq_none {entries : List (String × α)} {key : String} (value : α)
    (h : find key entries = none) : setIn key value entries = entries ++ [(key, value)] := by
  induction entries with
  | nil => rfl
  | cons entry rest ih =>
      obtain ⟨k, v⟩ := entry
      rw [find] at h
      split at h
      · cases h
      next hne => rw [setIn, if_neg hne, ih h, List.cons_append]

/-- All that the entries give, in the order of the keys. -/
def collect (table : Table α) (f : String → α → List β) : List β :=
  table.entries.flatMap fun entry => f entry.1 entry.2

theorem mem_collect_iff (table : Table α) (f : String → α → List β) (b : β) :
    b ∈ table.collect f ↔ ∃ key value, table.get? key = some value ∧ b ∈ f key value := by
  simp only [collect, List.mem_flatMap, Prod.exists, get?_eq_some_iff]

/-- A new key adds what its entry gives. -/
theorem collect_set_of_get?_eq_none {table : Table α} {key : String} (value : α)
    (f : String → α → List β) (h : table.get? key = none) :
    (table.set key value).collect f = table.collect f ++ f key value := by
  simp only [collect, set, setIn_of_find_eq_none value h, List.flatMap_append,
    List.flatMap_singleton]

/-- Erasing a key takes away what its entry gives, if this can be told apart from what
the other entries give. -/
theorem collect_erase (table : Table α) (key : String) (f : String → α → List β)
    (owner : β → String)
    (h : ∀ k value, table.get? k = some value → ∀ b ∈ f k value, owner b = k) :
    (table.erase key).collect f = (table.collect f).filter fun b => owner b != key := by
  have hentries : ∀ entry ∈ table.entries, ∀ b ∈ f entry.1 entry.2, owner b = entry.1 :=
    fun entry hentry => h entry.1 entry.2 ((table.get?_eq_some_iff _ _).mpr hentry)
  simp only [collect, erase]
  generalize table.entries = entries at hentries
  induction entries with
  | nil => rfl
  | cons entry rest ih =>
      have hrest := ih fun other hother => hentries other (List.mem_cons_of_mem entry hother)
      have hfirst := hentries entry List.mem_cons_self
      rw [List.flatMap_cons, List.filter_append, ← hrest]
      by_cases hkey : entry.1 = key
      · have hnone : (f entry.1 entry.2).filter (fun b => owner b != key) = [] := by
          rw [List.filter_eq_nil_iff]
          intro b hb
          simp [hfirst b hb, hkey]
        rw [hnone, List.filter_cons_of_neg (by simp [hkey]), List.nil_append]
      · have hall : (f entry.1 entry.2).filter (fun b => owner b != key) = f entry.1 entry.2 := by
          rw [List.filter_eq_self]
          intro b hb
          simp [hfirst b hb, hkey]
        rw [hall, List.filter_cons_of_pos (by simp [hkey]), List.flatMap_cons]

theorem nodup_entries (table : Table α) : table.entries.Nodup := List.Nodup.of_map _ table.nodup

/-- Tables that map the same keys to the same values differ at most in their order. -/
theorem entries_perm {table other : Table α} (h : ∀ key, table.get? key = other.get? key) :
    table.entries.Perm other.entries := by
  rw [List.perm_ext_iff_of_nodup table.nodup_entries other.nodup_entries]
  rintro ⟨key, value⟩
  rw [← get?_eq_some_iff, ← get?_eq_some_iff, h key]

theorem collect_perm {table other : Table α} (h : ∀ key, table.get? key = other.get? key)
    (f : String → α → List β) : (table.collect f).Perm (other.collect f) :=
  (entries_perm h).flatMap_right _

/-! ### Values that bear their keys -/

theorem ext_entries {table other : Table α} (h : table.entries = other.entries) : table = other := by
  cases table
  cases other
  cases h
  rfl

theorem entries_foldl_set (entries : List (String × α)) (table : Table α)
    (h : ((table.entries ++ entries).map Prod.fst).Nodup) :
    (entries.foldl (fun table entry => table.set entry.1 entry.2) table).entries =
      table.entries ++ entries := by
  induction entries generalizing table with
  | nil => rw [List.foldl_nil, List.append_nil]
  | cons entry rest ih =>
      have hfresh : find entry.1 table.entries = none := by
        rw [← Option.not_isSome_iff_eq_none, Option.isSome_iff_exists]
        rintro ⟨value, hvalue⟩
        have hmem := (find_eq_some_iff table.nodup _ _).mp hvalue
        rw [List.map_append, List.nodup_append] at h
        exact h.2.2 entry.1 (List.mem_map.mpr ⟨_, hmem, rfl⟩) entry.1 (by simp) rfl
      have hset : (table.set entry.1 entry.2).entries = table.entries ++ [entry] :=
        setIn_of_find_eq_none entry.2 hfresh
      rw [List.foldl_cons, ih, hset, List.append_assoc, List.singleton_append]
      rwa [hset, List.append_assoc, List.singleton_append]

/-- Every value bears its key. -/
def Keyed (table : Table α) (nameOf : α → String) : Prop :=
  ∀ key value, table.get? key = some value → nameOf value = key

namespace Keyed

variable {table : Table α} {nameOf : α → String}

theorem empty : (Table.empty : Table α).Keyed nameOf := nofun

theorem set (h : table.Keyed nameOf) {key : String} {value : α} (hname : nameOf value = key) :
    (table.set key value).Keyed nameOf := by
  intro other found hfound
  rw [get?_set] at hfound
  split at hfound
  next heq =>
      cases hfound
      rw [heq, hname]
  next => exact h other found hfound

theorem erase (h : table.Keyed nameOf) (key : String) : (table.erase key).Keyed nameOf :=
  fun other found hfound => h other found (get?_of_get?_erase hfound)

theorem modify (h : table.Keyed nameOf) (key : String) {f : α → α}
    (hname : ∀ value, nameOf (f value) = nameOf value) : (table.modify key f).Keyed nameOf := by
  rw [Table.modify]
  split
  next value hvalue => exact h.set ((hname value).trans (h key value hvalue))
  · exact h

theorem mem_values_iff (h : table.Keyed nameOf) (value : α) :
    value ∈ table.values ↔ table.get? (nameOf value) = some value := by
  rw [values, List.mem_map]
  constructor
  · rintro ⟨entry, hentry, rfl⟩
    have hget := (get?_eq_some_iff _ _ _).mpr hentry
    rwa [h entry.1 entry.2 hget]
  · exact fun hget => ⟨_, (get?_eq_some_iff _ _ _).mp hget, rfl⟩

/-- The values of such a table have different names. -/
theorem nodup_map_values (h : table.Keyed nameOf) : (table.values.map nameOf).Nodup := by
  have hnames : table.values.map nameOf = table.entries.map Prod.fst := by
    rw [values, List.map_map]
    refine List.map_congr_left fun entry hentry => ?_
    exact h entry.1 entry.2 ((get?_eq_some_iff _ _ _).mpr hentry)
  rw [hnames]
  exact table.nodup

/-- Such a table can be built again from its values. -/
theorem foldl_set_values (h : table.Keyed nameOf) :
    table.values.foldl (fun (rest : Table α) value => rest.set (nameOf value) value) Table.empty =
      table := by
  have hname : ∀ entry ∈ table.entries, nameOf entry.2 = entry.1 := fun entry hentry =>
    h entry.1 entry.2 ((get?_eq_some_iff _ _ _).mpr hentry)
  have hstep : table.values.foldl (fun rest value => rest.set (nameOf value) value) Table.empty =
      table.entries.foldl (fun rest entry => rest.set entry.1 entry.2) Table.empty := by
    rw [values, List.foldl_map]
    refine List.foldl_ext _ _ _ fun rest entry hentry => ?_
    rw [hname entry hentry]
  rw [hstep]
  exact ext_entries (entries_foldl_set _ _ table.nodup)

end Keyed

end Gml.Table
