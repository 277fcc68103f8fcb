import Gml.Proofs.Table
import Gml.SymbolTable.Basic
import Mathlib.Data.List.Induction
import Mathlib.Data.List.Perm.Basic

/-!
# Tables that group records by name

The symbol table keeps the declarations, the macros and the users of a name in lists of
their own. Such a table groups what a scan of all documents finds: under each name it
lists the finds of that name in some order, and a name without finds has no list.
-/
namespace Gml.SymbolTable

variable {β : Type}

/-- The list of a name, which is empty if there is none. -/
def listed (table : Table (List β)) (name : String) : List β := (table.get? name).getD []

theorem listed_set (table : Table (List β)) (name other : String) (records : List β) :
    listed (table.set name records) other =
      if other = name then records else listed table other := by
  rw [listed, Table.get?_set]
  split
  · rfl
  · rfl

theorem listed_erase (table : Table (List β)) (name other : String) :
    listed (table.erase name) other = if other = name then [] else listed table other := by
  rw [listed, Table.get?_erase]
  split
  · rfl
  · rfl

/-- The lists of a table are what a scan finds for each name, and none is empty. -/
structure Groups (table : Table (List β)) (scan : String → List β) : Prop where
  perm : ∀ name, (listed table name).Perm (scan name)
  ne_nil : ∀ name, table.get? name ≠ some []

namespace Groups

variable {table : Table (List β)} {scan scan' : String → List β}

theorem of_perm (h : Groups table scan) (hscan : ∀ name, (scan name).Perm (scan' name)) :
    Groups table scan' :=
  ⟨fun name => (h.perm name).trans (hscan name), h.ne_nil⟩

/-- A list may be replaced by one that is not empty. -/
theorem set {name : String} {records : List β} (h : Groups table scan)
    (hperm : records.Perm (scan' name)) (hne : records ≠ [])
    (hother : ∀ other, other ≠ name → scan' other = scan other) :
    Groups (table.set name records) scan' := by
  refine ⟨?_, ?_⟩
  · intro other
    rw [listed_set]
    split
    next heq => rw [heq]; exact hperm
    next hneq => rw [hother other hneq]; exact h.perm other
  · intro other
    rw [Table.get?_set]
    split
    · intro heq
      exact hne (Option.some.inj heq)
    · exact h.ne_nil other

theorem erase {name : String} (h : Groups table scan) (hnil : scan' name = [])
    (hother : ∀ other, other ≠ name → scan' other = scan other) :
    Groups (table.erase name) scan' := by
  refine ⟨?_, ?_⟩
  · intro other
    rw [listed_erase]
    split
    next heq => rw [heq, hnil]
    next hneq => rw [hother other hneq]; exact h.perm other
  · intro other
    rw [Table.get?_erase]
    split
    · exact nofun
    · exact h.ne_nil other

theorem retain (h : Groups table scan) (keep : β → Bool) (name : String) :
    Groups (retain table keep name)
      (fun other => if other = name then (scan other).filter keep else scan other) := by
  have hfilter := (h.perm name).filter keep
  rw [SymbolTable.retain]
  split
  next hnone =>
      have hnil : scan name = [] := by
        have hlisted := h.perm name
        rw [listed, hnone] at hlisted
        exact hlisted.nil_eq.symm
      refine h.of_perm fun other => ?_
      split
      next heq => rw [heq, hnil]; rfl
      · rfl
  next records hsome =>
      rw [listed, hsome, Option.getD_some] at hfilter
      split
      next hnil =>
          rw [hnil] at hfilter
          refine h.erase ?_ fun other hother => if_neg hother
          rw [if_pos rfl]
          exact hfilter.nil_eq.symm
      next hne =>
          refine h.set ?_ hne fun other hother => if_neg hother
          rw [if_pos rfl]
          exact hfilter

/-- Keeping only some records of every name that has others leaves the scan without
the others. -/
theorem retainAll {γ : Type} (h : Groups table scan) (keep : β → Bool) (items : List γ)
    (nameOf : γ → String)
    (hnames : ∀ name, ∀ record ∈ scan name, keep record = false →
      ∃ item ∈ items, nameOf item = name) :
    Groups (items.foldl (fun table item => SymbolTable.retain table keep (nameOf item)) table)
      (fun name => (scan name).filter keep) := by
  induction items generalizing table scan with
  | nil =>
      refine h.of_perm fun name => ?_
      have hall : (scan name).filter keep = scan name := by
        rw [List.filter_eq_self]
        intro record hrecord
        by_contra hkeep
        obtain ⟨_, hmem, _⟩ := hnames name record hrecord (Bool.eq_false_iff.mpr hkeep)
        exact List.not_mem_nil hmem
      rw [hall]
  | cons first rest ih =>
      have hrest := ih (h.retain keep (nameOf first)) (by
        intro name record hrecord hkeep
        split at hrecord
        · rw [(List.mem_filter.mp hrecord).2] at hkeep
          cases hkeep
        next hne =>
            obtain ⟨item, hitem, hname⟩ := hnames name record hrecord hkeep
            rcases List.mem_cons.mp hitem with hfirst | hitem
            · exact absurd (hfirst ▸ hname).symm hne
            · exact ⟨item, hitem, hname⟩)
      refine hrest.of_perm fun name => ?_
      split
      · simp only [List.filter_filter, Bool.and_self, List.Perm.refl]
      · rfl

/-- One more record of a name, at any place of its list. -/
theorem insert {name : String} {record : β} {records : List β} (h : Groups table scan)
    (hrecords : records.Perm (listed table name ++ [record])) :
    Groups (table.set name records)
      (fun other => scan other ++ if name = other then [record] else []) := by
  refine h.set ?_ ?_ ?_
  · rw [if_pos rfl]
    exact hrecords.trans ((h.perm name).append_right [record])
  · intro hnil
    rw [hnil] at hrecords
    exact List.append_ne_nil_of_right_ne_nil _ (List.cons_ne_nil record []) hrecords.nil_eq.symm
  · intro other hother
    rw [if_neg hother.symm, List.append_nil]

theorem scan_append_filter (found : List β) (nameOf : β → String) (name : String) (record : β)
    (rest : List β) :
    (found ++ if nameOf record = name then [record] else []) ++ rest.filter (nameOf · == name) =
      found ++ (record :: rest).filter (nameOf · == name) := by
  rw [List.append_assoc, List.filter_cons]
  by_cases hname : nameOf record = name
  · simp [hname]
  · simp [hname]

theorem appendAll (h : Groups table scan) (nameOf : β → String) (records : List β) :
    Groups (records.foldl (fun table record => append table (nameOf record) record) table)
      (fun name => scan name ++ records.filter (nameOf · == name)) := by
  induction records generalizing table scan with
  | nil => exact h.of_perm fun name => by rw [List.filter_nil, List.append_nil]
  | cons record rest ih =>
      have hfirst : Groups (append table (nameOf record) record) _ := h.insert (List.Perm.refl _)
      refine (ih hfirst).of_perm fun name => ?_
      rw [scan_append_filter]

/-- A document that is listed nowhere gets listed under each of the names once. -/
theorem addOnceAll {table : Table (List Uri)} {scan : String → List Uri} (h : Groups table scan)
    (uri : Uri) (hnew : ∀ name, uri ∉ scan name) (uses : List SymbolUse) :
    Groups (uses.foldl (fun table use => addOnce table use.name uri) table)
      (fun name => scan name ++ if uses.any (·.name == name) then [uri] else []) := by
  -- From the end: whether the last use adds the document depends on the uses before it.
  induction uses using List.reverseRecOn with
  | nil => exact h.of_perm fun name => by simp
  | append_singleton uses use ih =>
      have hmem : uri ∈ listed (uses.foldl (fun table use => addOnce table use.name uri) table)
          use.name ↔ uses.any (·.name == use.name) = true := by
        rw [(ih.perm use.name).mem_iff, List.mem_append, or_iff_right (hnew use.name)]
        split <;> simp_all
      rw [List.foldl_append, List.foldl_cons, List.foldl_nil, addOnce]
      split
      next hold =>
          have hused := hmem.mp (List.contains_iff_mem.mp hold)
          refine ih.of_perm fun name => ?_
          by_cases hname : use.name = name
          · subst hname
            simp [hused]
          · simp [hname]
      next hfresh =>
          have hunused : uses.any (·.name == use.name) = false :=
            Bool.eq_false_iff.mpr fun hused => hfresh (List.contains_iff_mem.mpr (hmem.mpr hused))
          refine (ih.insert (List.Perm.refl _)).of_perm fun name => ?_
          by_cases hname : use.name = name
          · subst hname
            simp only [hunused, List.any_append, List.any_cons, beq_self_eq_true]
            simp
          · simp [hname]

end Groups

/-! ### Macros -/

theorem insertAt_perm (slot : Nat) (record : β) (records : List β) :
    (insertAt slot record records).Perm (records ++ [record]) := by
  fun_induction insertAt slot record records with
  | case1 record records => exact (List.perm_append_singleton record records).symm
  | case2 => rfl
  | case3 slot record first records ih => exact ih.cons first

/-- Wherever macros are put among the definers of their names, they are all there. -/
theorem Groups.installMacros {table : Table (List MacroRecord)}
    {scan : String → List MacroRecord} (h : Groups table scan) (slots : Table Nat)
    (records : List MacroRecord) (inserted : Table Nat) :
    Groups (installMacros slots records inserted table)
      (fun name => scan name ++ records.filter (·.name == name)) := by
  induction records generalizing table scan inserted with
  | nil => exact h.of_perm fun name => by rw [List.filter_nil, List.append_nil]
  | cons record rest ih =>
      rw [SymbolTable.installMacros]
      refine (ih (h.insert (insertAt_perm _ record _)) _).of_perm fun name => ?_
      rw [scan_append_filter _ MacroRecord.name]

end Gml.SymbolTable
