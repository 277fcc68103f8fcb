/-!
# Tables

A table maps texts to values and remembers the order in which its keys came. A
value that replaces another takes its place; a key that is erased and set again
goes to the end. Every key is there once.
-/
namespace Gml

structure Table (α : Type) where
  entries : List (String × α)
  nodup : (entries.map Prod.fst).Nodup
  deriving DecidableEq, Repr

namespace Table

variable {α : Type}

def empty : Table α := ⟨[], .nil⟩

instance : EmptyCollection (Table α) := ⟨empty⟩

instance : Inhabited (Table α) := ⟨empty⟩

def find (key : String) : List (String × α) → Option α
  | [] => none
  | (k, v) :: rest => if k = key then some v else find key rest

def get? (table : Table α) (key : String) : Option α := find key table.entries

def contains (table : Table α) (key : String) : Bool := (table.get? key).isSome

def keys (table : Table α) : List String := table.entries.map Prod.fst

def values (table : Table α) : List α := table.entries.map Prod.snd

def setIn (key : String) (value : α) : List (String × α) → List (String × α)
  | [] => [(key, value)]
  | (k, v) :: rest => if k = key then (key, value) :: rest else (k, v) :: setIn key value rest

theorem keys_setIn (key : String) (value : α) (entries : List (String × α)) :
    (setIn key value entries).map Prod.fst =
      if key ∈ entries.map Prod.fst then entries.map Prod.fst
      else entries.map Prod.fst ++ [key] := by
  induction entries with
  | nil => simp [setIn]
  | cons entry rest ih =>
    obtain ⟨k, v⟩ := entry
    simp only [setIn]
    split
    · next h => simp [h]
    · next h =>
      have h' : key ≠ k := fun he => h he.symm
      simp only [List.map_cons, List.mem_cons, ih, h', false_or]
      split <;> simp

theorem nodup_setIn (key : String) (value : α) {entries : List (String × α)}
    (h : (entries.map Prod.fst).Nodup) : ((setIn key value entries).map Prod.fst).Nodup := by
  rw [keys_setIn]
  split
  · exact h
  · next hkey =>
    refine List.nodup_append.mpr ⟨h, by simp, ?_⟩
    intro a ha b hb hab
    rw [List.mem_singleton.mp hb] at hab
    exact hkey (hab ▸ ha)

def set (table : Table α) (key : String) (value : α) : Table α :=
  ⟨setIn key value table.entries, nodup_setIn key value table.nodup⟩

def erase (table : Table α) (key : String) : Table α where
  entries := table.entries.filter fun entry => decide (entry.1 ≠ key)
  nodup := table.nodup.sublist (List.filter_sublist.map Prod.fst)

/-- Changes the value of a key that is there. -/
def modify (table : Table α) (key : String) (f : α → α) : Table α :=
  match table.get? key with
  | some value => table.set key (f value)
  | none => table

/-- A table with the later of two values for one key. -/
def ofList (entries : List (String × α)) : Table α :=
  entries.foldl (fun table (key, value) => table.set key value) empty

theorem find_setIn (key other : String) (value : α) (entries : List (String × α)) :
    find other (setIn key value entries) =
      if other = key then some value else find other entries := by
  induction entries with
  | nil => simp [setIn, find, eq_comm]
  | cons entry rest ih =>
    obtain ⟨k, v⟩ := entry
    simp only [setIn]
    split
    · next h => subst h; simp only [find]; split <;> simp_all [eq_comm]
    · next h => simp only [find, ih]; split <;> split <;> simp_all

theorem find_filter_ne (key other : String) (entries : List (String × α)) :
    find other (entries.filter fun entry => decide (entry.1 ≠ key)) =
      if other = key then none else find other entries := by
  induction entries with
  | nil => simp [find]
  | cons entry rest ih =>
    obtain ⟨k, v⟩ := entry
    by_cases h : k = key
    · subst h; simp only [List.filter_cons, ne_eq, not_true_eq_false, decide_false] at ih ⊢
      simp only [Bool.false_eq_true, if_false, ih, find]
      split <;> simp_all [eq_comm]
    · simp only [List.filter_cons, ne_eq, h, not_false_eq_true, decide_true, if_true, find] at ih ⊢
      split <;> simp_all

@[simp] theorem get?_empty (key : String) : (empty : Table α).get? key = none := rfl

/-- Setting a key changes that key and no other. -/
theorem get?_set (table : Table α) (key other : String) (value : α) :
    (table.set key value).get? other = if other = key then some value else table.get? other :=
  find_setIn key other value table.entries

/-- Erasing a key changes that key and no other. -/
theorem get?_erase (table : Table α) (key other : String) :
    (table.erase key).get? other = if other = key then none else table.get? other :=
  find_filter_ne key other table.entries

end Table

end Gml
