import Gml.Proofs.SymbolTable.Ownership

/-!
# What is offered for completion

Names are offered in their order, each once, with what it stands for. So two tables in
which the names with some start stand for the same offer the same for this start, in
whatever order the names came.
-/
namespace Gml

namespace Table

variable {α β : Type}

/-- What the entries give under their own names is found under a name if the entry of the
name gives it. -/
theorem find?_filterMap_entries (table : Table α) (f : String × α → Option β)
    (nameOf : β → String) (h : ∀ entry b, f entry = some b → entry ∈ table.entries →
      nameOf b = entry.1) (name : String) :
    (table.entries.filterMap f).find? (nameOf · == name) =
      (table.get? name).bind fun value => f (name, value) := by
  obtain ⟨entries, hnodup⟩ := table
  change ∀ entry b, f entry = some b → entry ∈ entries → nameOf b = entry.1 at h
  change (entries.filterMap f).find? (nameOf · == name) = (find name entries).bind _
  induction entries with
  | nil => rfl
  | cons entry rest ih =>
      obtain ⟨key, value⟩ := entry
      obtain ⟨hkey, hrest⟩ := List.nodup_cons.mp hnodup
      have hlater := ih hrest fun entry b hb hentry => h entry b hb (List.mem_cons_of_mem _ hentry)
      rw [List.filterMap_cons, find]
      by_cases hname : key = name
      · subst hname
        rw [if_pos rfl, Option.bind_some]
        cases hgiven : f (key, value) with
        | none =>
            have hnone : find key rest = none := by
              rw [← Option.not_isSome_iff_eq_none, Option.isSome_iff_exists]
              rintro ⟨other, hother⟩
              exact hkey (List.mem_map.mpr ⟨_, (find_eq_some_iff hrest _ _).mp hother, rfl⟩)
            rw [hlater, hnone, Option.bind_none]
        | some b =>
            have hb := h (key, value) b hgiven List.mem_cons_self
            exact List.find?_cons_of_pos (by simpa using hb)
      · rw [if_neg hname, ← hlater]
        cases hgiven : f (key, value) with
        | none => rfl
        | some b =>
            have hb := h (key, value) b hgiven List.mem_cons_self
            exact List.find?_cons_of_neg (by simpa [hb] using hname)

namespace Keyed

variable {table : Table α} {nameOf : α → String}

theorem ofList (values : List α) :
    (Table.ofList (values.map fun value => (nameOf value, value))).Keyed nameOf := by
  have hfold : ∀ table : Table α, table.Keyed nameOf →
      ((values.map fun value => (nameOf value, value)).foldl
        (fun table entry => table.set entry.1 entry.2) table).Keyed nameOf := by
    induction values with
    | nil => exact fun _ h => h
    | cons value rest ih => exact fun table h => ih _ (h.set rfl)
  exact hfold _ .empty

/-- In a table whose values bear their keys a name is found at its own entry. -/
theorem find?_map_values (h : table.Keyed nameOf) {f : α → β} {labelOf : β → String}
    (hlabel : ∀ value, labelOf (f value) = nameOf value) (name : String) :
    (table.values.map f).find? (labelOf · == name) = (table.get? name).map f := by
  have hgiven := table.find?_filterMap_entries (fun entry => some (f entry.2)) labelOf (by
    intro entry b hb hentry
    cases hb
    rw [hlabel, h entry.1 entry.2 ((get?_eq_some_iff _ _ _).mpr hentry)]) name
  rw [Table.values, List.map_map, ← List.filterMap_eq_map, Option.map_eq_bind]
  exact hgiven

end Keyed

end Table

namespace SymbolTable

variable {t t' : SymbolTable}

/-- How a name is offered that stands for a record. -/
def offer : SymbolRecord → CompletionEntry
  | .script s => ⟨s.name, .script, s.signature.map (·.label)⟩
  | .object o => ⟨o.name, .object, none⟩
  | .macroDef record => ⟨record.name, .macroDef, some record.value⟩
  | .builtinFunction f => ⟨f.name, .function, some f.signature.label⟩
  | .builtinVariable v => ⟨v.name, .builtinVariable, none⟩
  | .variable site => ⟨site.name, .variable, some (site.scope.label ++ " variable")⟩

/-- Macros and variables are listed under their own names. -/
structure Named (t : SymbolTable) : Prop where
  macros : ∀ name, ∀ record ∈ listed t.macros name, record.name = name
  declarations : ∀ name, ∀ site ∈ listed t.declarations name, site.name = name

theorem InBlocks.named (h : t.InBlocks) : t.Named := by
  refine ⟨fun name record hrecord => ?_, fun name site hsite => ?_⟩
  · rw [(h.macros name).eq] at hrecord
    obtain ⟨uri, -, hin⟩ := List.mem_flatMap.mp hrecord
    exact eq_of_beq (List.mem_filter.mp hin).2
  · rw [(h.declarations name).eq] at hsite
    obtain ⟨uri, -, hin⟩ := List.mem_flatMap.mp hsite
    exact eq_of_beq (List.mem_filter.mp hin).2

theorem Named.find?_macro_offers (h : t.Named) (name : String) :
    (t.macros.values.filterMap fun definers => definers.head?.map fun record =>
        (⟨record.name, .macroDef, some record.value⟩ : CompletionEntry)).find? (·.label == name) =
      ((t.visibleMacro? name).map .macroDef).map offer := by
  have hfind := t.macros.find?_filterMap_entries
    (fun entry => entry.2.head?.map fun record => offer (.macroDef record))
    CompletionEntry.label ?_ name
  · rw [Table.values, List.filterMap_map, visibleMacro?, Option.map_map, Option.map_bind]
    exact hfind
  · intro entry b hb hentry
    obtain ⟨record, hrecord, rfl⟩ := Option.map_eq_some_iff.mp hb
    apply h.macros
    rw [listed, (Table.get?_eq_some_iff _ _ _).mpr hentry]
    exact List.mem_of_mem_head? hrecord

theorem Named.find?_variable_offers (h : t.Named) (name : String) :
    (t.declarations.keys.filterMap fun name => (t.sharedVariable? name).map fun site =>
        (⟨name, .variable, some (site.scope.label ++ " variable")⟩ : CompletionEntry)).find?
          (·.label == name) =
      ((t.sharedVariable? name).map .variable).map offer := by
  have hfind := t.declarations.find?_filterMap_entries
    (fun entry => (t.sharedVariable? entry.1).map fun site =>
      (⟨entry.1, .variable, some (site.scope.label ++ " variable")⟩ : CompletionEntry))
    CompletionEntry.label ?_ name
  · rw [Table.keys, List.filterMap_map]
    refine hfind.trans ?_
    cases hsites : t.declarations.get? name with
    | none =>
        have hnone : t.sharedVariable? name = none := by
          rw [sharedVariable?, variableSites, hsites]
          rfl
        rw [hnone]
        rfl
    | some sites =>
        cases hsite : t.sharedVariable? name with
        | none => simp [hsite]
        | some site =>
            have hname := h.declarations name site (List.mem_of_find?_eq_some hsite)
            simp [hsite, offer, hname]
  · intro entry b hb _
    obtain ⟨site, -, rfl⟩ := Option.map_eq_some_iff.mp hb
    rfl

/-- Of all candidates with one name, the first is what the name stands for. -/
theorem find?_candidates (hresources : t.Resourced) (h : t.Named) (name : String) :
    t.candidates.find? (·.label == name) = (t.lookup name).map offer := by
  obtain ⟨manual, hfunctions, hvariables⟩ := hresources.builtins
  have hbuiltinFunctions : t.builtinFunctions.Keyed BuiltinFunction.name := by
    rw [hfunctions]
    exact .ofList _
  have hbuiltinVariables : t.builtinVariables.Keyed BuiltinVariable.name := by
    rw [hvariables]
    exact .ofList _
  have hoffers : ∀ {α : Type} {table : Table α} {nameOf : α → String} (_ : table.Keyed nameOf)
      (wrap : α → SymbolRecord), (∀ value, (offer (wrap value)).label = nameOf value) →
      (table.values.map fun value => offer (wrap value)).find? (·.label == name) =
        ((table.get? name).map wrap).map offer := by
    intro α table nameOf hkeyed wrap hlabel
    rw [hkeyed.find?_map_values hlabel, Option.map_map]
    rfl
  simp only [candidates, List.find?_append, lookup, Option.orElse_eq_orElse, Option.orElse_eq_or,
    Option.map_or]
  rw [← h.find?_macro_offers, ← h.find?_variable_offers,
    ← hoffers hresources.scripts .script fun _ => rfl,
    ← hoffers hresources.objects .object fun _ => rfl,
    ← hoffers hbuiltinFunctions .builtinFunction fun _ => rfl,
    ← hoffers hbuiltinVariables .builtinVariable fun _ => rfl]
  simp only [Option.or_assoc, offer]

/-! ### Once each, in order -/

theorem mem_dedupe {seen : List String} {entries : List CompletionEntry} {entry : CompletionEntry} :
    entry ∈ dedupe seen entries ↔
      entry.label ∉ seen ∧ entries.find? (·.label == entry.label) = some entry := by
  induction entries generalizing seen with
  | nil => simp [dedupe]
  | cons first rest ih =>
      rw [dedupe, List.find?_cons]
      split
      next hseen =>
          rw [List.contains_iff_mem] at hseen
          rw [ih]
          refine and_congr_right fun hfresh => ?_
          have hother : (first.label == entry.label) = false := by
            rw [beq_eq_false_iff_ne]
            rintro heq
            exact hfresh (heq ▸ hseen)
          rw [hother]
      next hfirst =>
          rw [List.contains_iff_mem] at hfirst
          rw [List.mem_cons, ih, List.mem_cons, not_or]
          by_cases hlabel : first.label = entry.label
          · rw [hlabel] at hfirst
            simp [hlabel, hfirst, eq_comm]
          · have hne : entry ≠ first := fun heq => hlabel (congrArg CompletionEntry.label heq).symm
            have hother : (first.label == entry.label) = false := beq_false_of_ne hlabel
            rw [hother, or_iff_right hne, and_assoc, and_iff_right (Ne.symm hlabel)]

theorem nodup_labels_dedupe (seen : List String) (entries : List CompletionEntry) :
    ((dedupe seen entries).map (·.label)).Nodup := by
  induction entries generalizing seen with
  | nil => exact .nil
  | cons first rest ih =>
      rw [dedupe]
      split
      · exact ih seen
      · rw [List.map_cons, List.nodup_cons]
        refine ⟨?_, ih _⟩
        rw [List.mem_map]
        rintro ⟨entry, hentry, hlabel⟩
        exact (mem_dedupe.mp hentry).1 (hlabel ▸ List.mem_cons_self)

theorem find?_filter_label (keep : String → Bool) (entries : List CompletionEntry)
    (label : String) :
    (entries.filter fun entry => keep entry.label).find? (·.label == label) =
      if keep label then entries.find? (·.label == label) else none := by
  induction entries with
  | nil => simp
  | cons first rest ih =>
      by_cases hlabel : first.label = label
      · subst hlabel
        cases hkeep : keep first.label <;> simp_all
      · cases hkeep : keep first.label <;> simp_all

/-- A name is offered if it has the start, as what it stands for. -/
theorem mem_completions (hresources : t.Resourced) (h : t.Named) {start : String}
    {entry : CompletionEntry} : entry ∈ t.completions start ↔
      startsWith entry.label start = true ∧ (t.lookup entry.label).map offer = some entry := by
  rw [completions, List.mem_mergeSort, mem_dedupe, and_iff_right List.not_mem_nil,
    find?_filter_label (startsWith · start), find?_candidates hresources h,
    Option.ite_none_right_eq_some]

theorem pairwise_completions (t : SymbolTable) (start : String) :
    (t.completions start).Pairwise fun a b => a.label ≤ b.label := by
  have hsorted : (t.completions start).Pairwise fun a b => decide (a.label ≤ b.label) = true := by
    refine List.pairwise_mergeSort ?_ ?_ _
    · intro a b c hab hbc
      rw [decide_eq_true_eq] at *
      exact String.le_trans hab hbc
    · intro a b
      simpa using String.le_total a.label b.label
  simpa using hsorted

theorem nodup_labels_completions (t : SymbolTable) (start : String) :
    ((t.completions start).map (·.label)).Nodup :=
  ((List.mergeSort_perm _ _).map _).nodup_iff.mpr (nodup_labels_dedupe _ _)

theorem nodup_completions (t : SymbolTable) (start : String) : (t.completions start).Nodup :=
  .of_map _ (nodup_labels_completions t start)

/-- What is offered for a start depends only on what the names with that start stand for. -/
theorem completions_eq (hresources : t.Resourced) (hresources' : t'.Resourced) (h : t.InBlocks)
    (h' : t'.InBlocks) {start : String}
    (hlookup : ∀ name, startsWith name start = true → t'.lookup name = t.lookup name) :
    t'.completions start = t.completions start := by
  have hmem : ∀ entry, entry ∈ t'.completions start ↔ entry ∈ t.completions start := by
    intro entry
    rw [mem_completions hresources' h'.named, mem_completions hresources h.named]
    refine and_congr_right fun hstart => ?_
    rw [hlookup entry.label hstart]
  have hperm := (List.perm_ext_iff_of_nodup (nodup_completions t' start)
    (nodup_completions t start)).mpr hmem
  refine hperm.eq_of_pairwise ?_ (pairwise_completions t' start) (pairwise_completions t start)
  intro a b ha hb hab hba
  have hlabel := String.le_antisymm hab hba
  have hofA := ((mem_completions hresources h.named).mp ((hmem a).mp ha)).2
  have hofB := ((mem_completions hresources h.named).mp hb).2
  rw [hlabel, hofB] at hofA
  exact (Option.some.inj hofA).symm

end SymbolTable

end Gml
