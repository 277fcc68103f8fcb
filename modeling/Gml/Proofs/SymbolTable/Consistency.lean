import Gml.Proofs.Lint.Belonging
import Gml.Proofs.SymbolTable.Grouping

/-!
# What the symbol table derives from the contributions

The lists of declarations, macros and users change bit by bit while documents come and
go. After any edits they say what a scan of all stored contributions would find.
-/
namespace Gml

namespace SymbolTable

/-! ### Scanning the contributions -/

/-- The declarations of a name in all contributions. -/
def scanDeclarations (t : SymbolTable) (name : String) : List VariableRecord :=
  t.contributions.collect fun _ c => c.declarations.filter (·.name == name)

def scanMacros (t : SymbolTable) (name : String) : List MacroRecord :=
  t.contributions.collect fun _ c => c.macros.filter (·.name == name)

def scanUses (t : SymbolTable) (name : String) : List SymbolUse :=
  t.contributions.collect fun _ c => c.uses.filter (·.name == name)

/-- The documents whose contribution uses a name. -/
def scanUsers (t : SymbolTable) (name : String) : List Uri :=
  t.contributions.collect fun uri c => if c.uses.any (·.name == name) then [uri] else []

/-- The derived tables agree with a scan of the contributions, each of which says
something and lies in its own document; and no name is both a script and an object. -/
structure Consistent (t : SymbolTable) : Prop where
  belongs : ∀ uri c, t.contributions.get? uri = some c → c.BelongsTo uri
  nonempty : ∀ uri c, t.contributions.get? uri = some c → c.isEmpty = false
  declarations : Groups t.declarations t.scanDeclarations
  macros : Groups t.macros t.scanMacros
  users : Groups t.users t.scanUsers
  apart : ∀ name, t.scripts.contains name = true → t.objects.contains name = false

theorem consistent_empty : ({} : SymbolTable).Consistent where
  belongs := nofun
  nonempty := nofun
  declarations := ⟨fun _ => .nil, nofun⟩
  macros := ⟨fun _ => .nil, nofun⟩
  users := ⟨fun _ => .nil, nofun⟩
  apart := nofun

/-! ### Taking a contribution away and adding one -/

section

variable {β : Type} {contributions : Table Contribution} {table : Table (List β)}
  {find : String → Uri → Contribution → List β} {owner : β → Uri}

/-- Going through the names that a document has records of takes its records away. -/
theorem Groups.detach {uri : Uri} {c : Contribution}
    (h : Groups table fun name => contributions.collect (find name))
    (howner : ∀ name k c, contributions.get? k = some c → ∀ b ∈ find name k c, owner b = k)
    (hc : contributions.get? uri = some c) {γ : Type} {items : List γ} {nameOf : γ → String}
    (hnames : ∀ name, ∀ b ∈ find name uri c, ∃ item ∈ items, nameOf item = name) :
    Groups
      (items.foldl (fun table item => SymbolTable.retain table (owner · != uri) (nameOf item)) table)
      (fun name => (contributions.erase uri).collect (find name)) := by
  have hretain := h.retainAll (owner · != uri) items nameOf (by
    intro name b hb hdropped
    obtain ⟨k, c', hc', hmem⟩ := (Table.mem_collect_iff _ _ _).mp hb
    have hk : k = uri := by
      rw [← howner name k c' hc' b hmem]
      simpa using hdropped
    subst hk
    rw [hc, Option.some.injEq] at hc'
    subst hc'
    exact hnames name b hmem)
  refine hretain.of_perm fun name => ?_
  rw [Table.collect_erase _ _ _ owner (howner name)]

/-- What a scan finds in a document is added as the document is. -/
theorem Groups.attach {uri : Uri} {c : Contribution} (hc : contributions.get? uri = none)
    (h : Groups table fun name => contributions.collect (find name) ++ find name uri c) :
    Groups table fun name => (contributions.set uri c).collect (find name) := by
  refine h.of_perm fun name => ?_
  rw [Table.collect_set_of_get?_eq_none c _ hc]

end

theorem contributions_detach (t : SymbolTable) (uri other : Uri) :
    (t.detach uri).contributions.get? other =
      if other = uri then none else t.contributions.get? other := by
  rw [detach]
  split
  next hnone =>
      split
      next heq => rw [heq, hnone]
      · rfl
  · exact Table.get?_erase t.contributions uri other

namespace Consistent

variable {t : SymbolTable}

theorem owner_declarations (h : t.Consistent) (name : String) (uri : Uri) (c : Contribution)
    (hc : t.contributions.get? uri = some c) :
    ∀ record ∈ c.declarations.filter (·.name == name), record.location.uri = uri :=
  fun record hrecord => (h.belongs uri c hc).declarations record (List.mem_of_mem_filter hrecord)

theorem owner_macros (h : t.Consistent) (name : String) (uri : Uri) (c : Contribution)
    (hc : t.contributions.get? uri = some c) :
    ∀ record ∈ c.macros.filter (·.name == name), record.location.uri = uri :=
  fun record hrecord => (h.belongs uri c hc).macros record (List.mem_of_mem_filter hrecord)

theorem owner_users (name : String) (uri : Uri) (c : Contribution)
    (_ : t.contributions.get? uri = some c) :
    ∀ user ∈ if c.uses.any (·.name == name) then [uri] else [], id user = uri := by
  intro user huser
  split at huser
  · exact List.mem_singleton.mp huser
  · cases huser

theorem detach (h : t.Consistent) (uri : Uri) : (t.detach uri).Consistent := by
  rw [SymbolTable.detach]
  split
  · exact h
  next c hc =>
      refine { h with
        belongs := fun other c' hc' => h.belongs other c' (Table.get?_of_get?_erase hc')
        nonempty := fun other c' hc' => h.nonempty other c' (Table.get?_of_get?_erase hc')
        declarations := ?_, macros := ?_, users := ?_ }
      · refine h.declarations.detach h.owner_declarations hc ?_
        intro name record hrecord
        obtain ⟨hmem, hname⟩ := List.mem_filter.mp hrecord
        exact ⟨record, hmem, eq_of_beq hname⟩
      · refine h.macros.detach h.owner_macros hc ?_
        intro name record hrecord
        obtain ⟨hmem, hname⟩ := List.mem_filter.mp hrecord
        exact ⟨record, hmem, eq_of_beq hname⟩
      · refine h.users.detach owner_users hc ?_
        intro name other hother
        split at hother
        next hused =>
            obtain ⟨use, hmem, hname⟩ := List.any_eq_true.mp hused
            exact ⟨use, hmem, eq_of_beq hname⟩
        · cases hother

theorem replaceContribution (h : t.Consistent) {uri : Uri} {c : Contribution}
    (hc : c.BelongsTo uri) : (t.replaceContribution uri c).2.Consistent := by
  have hdetached := h.detach uri
  have hnone : (t.detach uri).contributions.get? uri = none := by
    rw [contributions_detach, if_pos rfl]
  rw [SymbolTable.replaceContribution]
  -- Only what is consistent without the document matters from here on.
  generalize t.detach uri = t' at hdetached hnone
  dsimp only
  split
  next hempty =>
      have hc : c = {} := Contribution.eq_empty_of_isEmpty hempty
      rw [hc]
      exact hdetached
  next hnonempty =>
      have hstored : ∀ other c', (t'.contributions.set uri c).get? other = some c' →
          other = uri ∧ c' = c ∨ t'.contributions.get? other = some c' := by
        intro other c' hc'
        rw [Table.get?_set] at hc'
        split at hc'
        next heq => exact .inl ⟨heq, (Option.some.inj hc').symm⟩
        · exact .inr hc'
      have hnew : ∀ name, uri ∉ t'.scanUsers name := by
        intro name hmem
        obtain ⟨k, c', hc', huser⟩ := (Table.mem_collect_iff _ _ _).mp hmem
        rw [show uri = k from owner_users name k c' hc' uri huser, hc'] at hnone
        cases hnone
      refine { hdetached with
        belongs := ?_, nonempty := ?_, declarations := ?_, macros := ?_, users := ?_ }
      · intro other c' hc'
        rcases hstored other c' hc' with ⟨rfl, rfl⟩ | hold
        · exact hc
        · exact hdetached.belongs other c' hold
      · intro other c' hc'
        rcases hstored other c' hc' with ⟨rfl, rfl⟩ | hold
        · exact Bool.eq_false_iff.mpr hnonempty
        · exact hdetached.nonempty other c' hold
      · exact .attach hnone (hdetached.declarations.appendAll VariableRecord.name c.declarations)
      · exact .attach hnone (hdetached.macros.installMacros _ c.macros .empty)
      · exact .attach hnone (hdetached.users.addOnceAll uri hnew c.uses)

/-! ### The other operations -/

theorem clearScriptDoc (h : t.Consistent) (name : String) : (t.clearScriptDoc name).Consistent := by
  refine { h with apart := ?_ }
  intro other hother
  rw [SymbolTable.clearScriptDoc, Table.contains_modify] at hother
  exact h.apart other hother

theorem setScriptDoc {t' : SymbolTable} (h : t.Consistent) {name : String} {doc : ScriptDoc}
    (ht' : t.setScriptDoc name doc = .ok t') : t'.Consistent := by
  obtain ⟨script, hscript, rfl⟩ := exists_of_setScriptDoc ht'
  refine { h with apart := ?_ }
  intro other hother
  rw [Table.contains_set_of_get? hscript] at hother
  exact h.apart other hother

theorem clearContribution (h : t.Consistent) (uri : Uri) : (t.clearContribution uri).Consistent := by
  rw [SymbolTable.clearContribution]
  split
  next name _ => exact (h.detach uri).clearScriptDoc name
  · exact h.detach uri

theorem removeDocument (h : t.Consistent) (uri : Uri) : (t.removeDocument uri).Consistent :=
  { h.clearContribution uri with }

theorem createScript {t' : SymbolTable} (h : t.Consistent) {name : String} {uri : Uri}
    (ht' : t.createScript name uri = .ok t') : t'.Consistent := by
  obtain ⟨hname, rfl⟩ := eq_of_createScript ht'
  refine { h with apart := ?_ }
  intro other hother
  rw [Table.contains_set, Bool.or_eq_true, decide_eq_true_eq] at hother
  rcases hother with rfl | hold
  · rw [Table.contains, (get?_of_checkNewName hname).2]
    rfl
  · exact h.apart other hold

theorem createObject {t' : SymbolTable} (h : t.Consistent) {name : String}
    (ht' : t.createObject name = .ok t') : t'.Consistent := by
  obtain ⟨hname, rfl⟩ := eq_of_createObject ht'
  refine { h with apart := ?_ }
  intro other hother
  rw [Table.contains_set, Bool.or_eq_false_iff, decide_eq_false_iff_not]
  refine ⟨?_, h.apart other hother⟩
  rintro rfl
  rw [Table.contains, (get?_of_checkNewName hname).1] at hother
  cases hother

theorem deleteScript (h : t.Consistent) (name : String) :
    (((t.deleteScript name).map Prod.snd).toOption.getD t).Consistent := by
  refine deleteScript_induction h fun script _ => removeDocument ?_ script.uri
  refine { h with apart := ?_ }
  intro other hother
  rw [Table.contains_erase, Bool.and_eq_true] at hother
  exact h.apart other hother.2

theorem addEvent {t' : SymbolTable} (h : t.Consistent) {name : String} {uri : Uri}
    (ht' : t.addEvent name uri = .ok t') : t'.Consistent := by
  obtain ⟨object, hobject, rfl⟩ := exists_of_addEvent ht'
  refine { h with apart := ?_ }
  intro other hother
  rw [Table.contains_set_of_get? hobject]
  exact h.apart other hother

theorem deleteObject (h : t.Consistent) (name : String) :
    (((t.deleteObject name).map Prod.snd).toOption.getD t).Consistent := by
  refine deleteObject_induction h { h with apart := fun other hother => ?_ } ?_
  · rw [Table.contains_erase, h.apart other hother, Bool.and_false]
  · intro _ _ uri _ t' ht'
    have hunlinked : { t' with objectAt := t'.objectAt.erase uri }.Consistent := { ht' with }
    exact hunlinked.removeDocument uri

theorem deleteRecordAt (h : t.Consistent) (uri : Uri) : (t.deleteRecordAt uri).Consistent := by
  rw [SymbolTable.deleteRecordAt]
  split
  · exact h.removeDocument uri
  next object _ =>
      have hunlinked : { t with
          objectAt := t.objectAt.erase uri
          objects := t.objects.modify object fun o =>
            { o with eventUris := o.eventUris.filter (· != uri) } }.Consistent := by
        refine { h with apart := ?_ }
        intro other hother
        rw [Table.contains_modify]
        exact h.apart other hother
      exact hunlinked.removeDocument uri

end Consistent

end SymbolTable

end Gml
