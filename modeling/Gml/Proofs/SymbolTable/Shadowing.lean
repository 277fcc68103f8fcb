import Gml.Proofs.SymbolIndex.Installing

/-!
# Shadowed macros

Whether a macro is reported hidden is found out from the tables, without asking what its
name stands for. The answer is the same: the reported macros are those whose names stand
for something else, and the owner is the document of the macro that is seen instead.
-/
namespace Gml.SymbolTable

variable {t : SymbolTable} {name : String} {record visible : MacroRecord}

theorem mem_splice_of_mem {β : Type} {b : β} {new : List β} (h : b ∈ new) (slot : Nat)
    (records : List β) : b ∈ splice slot new records :=
  List.mem_append_right _ (List.mem_append_left _ h)

/-- The macros of a document are among the definers of their names. -/
theorem mem_listed_macros_replaceContribution (t : SymbolTable) (uri : Uri) {c : Contribution}
    (h : record ∈ c.macros) :
    record ∈ listed (t.replaceContribution uri c).2.macros record.name := by
  obtain ⟨slots, contributions, hreplaced⟩ := t.exists_replaceContribution_eq uri c
  rw [hreplaced, listed_installMacros_empty]
  exact mem_splice_of_mem (List.mem_filter.mpr ⟨h, beq_self_eq_true record.name⟩) ..

theorem visibleMacro?_eq_head? (t : SymbolTable) (name : String) :
    t.visibleMacro? name = (listed t.macros name).head? := by
  rw [visibleMacro?, listed]
  cases t.macros.get? name with
  | none => rfl
  | some definers => rfl

/-- A name with a definer has a visible macro. -/
theorem exists_visibleMacro?_of_mem (h : record ∈ listed t.macros name) :
    ∃ visible, t.visibleMacro? name = some visible := by
  rw [visibleMacro?_eq_head?]
  obtain ⟨first, others, hlisted⟩ := List.exists_cons_of_ne_nil (List.ne_nil_of_mem h)
  exact ⟨first, by rw [hlisted, List.head?_cons]⟩

/-- A name that a script or an object bears stands for no macro. -/
theorem lookup_ne_macroDef_of_resource
    (h : (t.scripts.contains name || t.objects.contains name) = true) (record : MacroRecord) :
    t.lookup name ≠ some (.macroDef record) := by
  rw [Bool.or_eq_true, Table.contains, Table.contains, Option.isSome_iff_exists,
    Option.isSome_iff_exists] at h
  rw [lookup]
  obtain ⟨script, hscript⟩ | ⟨object, hobject⟩ := h
  · simp [hscript]
  · cases t.scripts.get? name with
    | none => simp [hobject]
    | some script => simp

theorem lookup_eq_macroDef_of_visible
    (hfree : (t.scripts.contains name || t.objects.contains name) = false)
    (h : t.visibleMacro? name = some visible) : t.lookup name = some (.macroDef visible) := by
  rw [Bool.or_eq_false_iff, Table.contains, Table.contains, Option.isSome_eq_false_iff,
    Option.isSome_eq_false_iff, Option.isNone_iff_eq_none, Option.isNone_iff_eq_none] at hfree
  obtain ⟨hscript, hobject⟩ := hfree
  rw [lookup, hscript, hobject, h]
  rfl

/-- What is reported about a single macro. -/
def conflict? (t : SymbolTable) (record : MacroRecord) : Option MacroConflict :=
  if t.scripts.contains record.name || t.objects.contains record.name then some ⟨record, none⟩
  else (t.visibleMacro? record.name).bind fun owner =>
    if owner = record then none else some ⟨record, some owner.location.uri⟩

theorem macroConflicts_eq_filterMap (t : SymbolTable) (c : Contribution) :
    t.macroConflicts c = c.macros.filterMap t.conflict? := by
  refine List.filterMap_congr fun record _ => ?_
  rw [conflict?, visibleMacro?]
  cases (t.macros.get? record.name).bind List.head? with
  | none => rfl
  | some owner => rfl

/-- A macro among the definers of its name is reported if its name stands for another. -/
theorem conflict?_map_record (h : record ∈ listed t.macros record.name) :
    (t.conflict? record).map (·.record) =
      if t.lookup record.name != some (.macroDef record) then some record else none := by
  obtain ⟨visible, hvisible⟩ := exists_visibleMacro?_of_mem h
  rw [conflict?, hvisible, Option.bind_some]
  split
  next hresource => simp [lookup_ne_macroDef_of_resource hresource record]
  next hfree =>
      rw [lookup_eq_macroDef_of_visible (Bool.eq_false_iff.mpr hfree) hvisible]
      by_cases heq : visible = record
      · simp [heq]
      · simp [heq]

theorem owner_of_conflict? {conflict : MacroConflict} (h : t.conflict? record = some conflict) :
    conflict.record = record ∧
      (conflict.owner = none ↔
        (t.scripts.contains record.name || t.objects.contains record.name) = true) ∧
      ∀ owner, conflict.owner = some owner → ∃ visible,
        t.lookup record.name = some (.macroDef visible) ∧ visible.location.uri = owner := by
  rw [conflict?] at h
  split at h
  next hresource =>
      cases h
      exact ⟨rfl, iff_of_true rfl hresource, nofun⟩
  next hfree =>
      obtain ⟨visible, hvisible, hother⟩ := Option.bind_eq_some_iff.mp h
      obtain ⟨-, hconflict⟩ := Option.ite_none_left_eq_some.mp hother
      cases hconflict
      refine ⟨rfl, iff_of_false nofun hfree, fun owner howner => ⟨visible, ?_, ?_⟩⟩
      · exact lookup_eq_macroDef_of_visible (Bool.eq_false_iff.mpr hfree) hvisible
      · exact Option.some.inj howner

/-- A replacement reports those macros of the document, in its order, that their names do
not stand for. None owns the name of a script or an object; any other is owned by the
document of the macro that the name stands for. -/
theorem conflicts_are_the_shadowed_macros (t : SymbolTable) (uri : Uri) (c : Contribution) :
    let replaced := t.replaceContribution uri c
    replaced.1.map (·.record) = c.macros.filter (fun record =>
        replaced.2.lookup record.name != some (.macroDef record)) ∧
      ∀ conflict ∈ replaced.1,
        (conflict.owner = none ↔ replaced.2.scripts.contains conflict.record.name ∨
          replaced.2.objects.contains conflict.record.name) ∧
        ∀ owner, conflict.owner = some owner → ∃ visible,
          replaced.2.lookup conflict.record.name = some (.macroDef visible) ∧
            visible.location.uri = owner := by
  intro replaced
  have hconflicts : replaced.1 = c.macros.filterMap replaced.2.conflict? := by
    rw [conflicts_replaceContribution, macroConflicts_eq_filterMap]
  rw [hconflicts]
  refine ⟨?_, fun conflict hconflict => ?_⟩
  · rw [List.map_filterMap, ← List.filterMap_eq_filter]
    refine List.filterMap_congr fun record hrecord => ?_
    rw [conflict?_map_record (mem_listed_macros_replaceContribution t uri hrecord)]
    rfl
  · obtain ⟨record, -, hreported⟩ := List.mem_filterMap.mp hconflict
    obtain ⟨rfl, hnone, hsome⟩ := owner_of_conflict? hreported
    exact ⟨by rw [hnone, Bool.or_eq_true], hsome⟩

end Gml.SymbolTable
