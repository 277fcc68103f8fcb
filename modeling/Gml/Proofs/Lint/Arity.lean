import Gml.Lint.Calls
import Gml.Proofs.Lint.Cycles
import Gml.Proofs.SymbolIndex.Installing
import Gml.SymbolTable.Snapshot

/-!
# The signature of a call

The check of calls asks the built-ins before the scripts, and whoever asks for the signature
of a name is told that of the script first. The two can differ only where a name is borne by
both, and a name comes to that only when a manual is taken over: a script is never made
under the name of a built-in, and a restored table has no built-ins.
-/
namespace Gml

/-- The signature that the number of arguments in a call is checked against. Without one any
number is accepted. -/
def Calls.checkedSignature? (t : SymbolTable) (name : String) : Option Signature :=
  match target t name with
  | .known signature => signature
  | .unknown => none

/-- A call is reported for its number of arguments if its checked signature does not accept
the number. -/
theorem Calls.check_wrongArgumentCount_iff {t : SymbolTable} {mode : LintMode}
    {settings : LintSettings} {declared : List String} {call : Call} :
    (∃ finding, check t mode settings declared call = some finding ∧
        finding.code = .wrongArgumentCount) ↔
      settings.warnArity = true ∧ ∃ signature,
        checkedSignature? t call.callee.text = some signature ∧
          signature.accepts call.arguments = false := by
  unfold check checkedSignature?
  dsimp only
  cases target t call.callee.text with
  | unknown =>
      constructor
      · rintro ⟨finding, hfinding, hcode⟩
        dsimp only at hfinding
        split at hfinding
        · cases hfinding
          cases hcode
        · cases hfinding
      · rintro ⟨-, signature, hsignature, -⟩
        cases hsignature
  | known signature =>
      cases signature with
      | none => simp
      | some signature =>
          dsimp only
          constructor
          · rintro ⟨finding, hfinding, -⟩
            split at hfinding
            next hreports =>
                rw [Bool.and_eq_true, Bool.not_eq_true'] at hreports
                exact ⟨hreports.1, signature, rfl, hreports.2⟩
            · cases hfinding
          · rintro ⟨hwarn, found, hfound, haccepts⟩
            cases hfound
            rw [hwarn, haccepts]
            exact ⟨_, rfl, rfl⟩

namespace SymbolTable

variable {t t' t'' : SymbolTable} {name : String} {uri : Uri}

/-- Where no name is borne by a script and a built-in with other signatures, the order of the
questions does not matter. -/
theorem checkedSignature?_eq_iff (t : SymbolTable) (name : String) :
    Calls.checkedSignature? t name = t.signature? name ↔
      ∀ script function, t.scripts.get? name = some script →
        t.builtinFunctions.get? name = some function →
          script.signature = some function.signature := by
  unfold Calls.checkedSignature? Calls.target signature?
  cases hfunction : t.builtinFunctions.get? name with
  | none =>
      cases hscript : t.scripts.get? name with
      | none =>
          dsimp only
          generalize ((t.visibleMacro? name).isSome ||
            (t.variableSites name).any (·.scope != .ofDocument)) = offered
          cases offered <;> simp
      | some script => simp
  | some function =>
      cases hscript : t.scripts.get? name with
      | none => simp
      | some script => simp [eq_comm]

/-- A script and a built-in function bear the name. -/
def Shared (t : SymbolTable) (name : String) : Prop :=
  t.scripts.contains name = true ∧ t.builtinFunctions.contains name = true

theorem shared_of_checkedSignature?_ne (h : Calls.checkedSignature? t name ≠ t.signature? name) :
    t.Shared name := by
  rw [ne_eq, checkedSignature?_eq_iff] at h
  push Not at h
  obtain ⟨script, function, hscript, hfunction, -⟩ := h
  exact ⟨Table.contains_of_get? hscript, Table.contains_of_get? hfunction⟩

/-- No script comes under a new name, and the built-ins stay. -/
structure AddsNone (t t' : SymbolTable) : Prop where
  scripts : ∀ name, t'.scripts.contains name = true → t.scripts.contains name = true
  builtins : t'.builtinFunctions = t.builtinFunctions

namespace AddsNone

theorem shared (h : AddsNone t t') (hshared : t'.Shared name) : t.Shared name :=
  ⟨h.scripts name hshared.1, h.builtins ▸ hshared.2⟩

theorem of_eq (hscripts : t'.scripts = t.scripts)
    (hbuiltins : t'.builtinFunctions = t.builtinFunctions) : AddsNone t t' :=
  ⟨fun name => by rw [hscripts]; exact id, hbuiltins⟩

theorem refl (t : SymbolTable) : AddsNone t t := of_eq rfl rfl

theorem trans (h : AddsNone t t') (h' : AddsNone t' t'') : AddsNone t t'' :=
  ⟨fun name => h.scripts name ∘ h'.scripts name, h'.builtins.trans h.builtins⟩

theorem replaceContribution (t : SymbolTable) (uri : Uri) (c : Contribution) :
    AddsNone t (t.replaceContribution uri c).2 :=
  of_eq (resources_replaceContribution t uri c).1 (resources_replaceContribution t uri c).2.2.1

theorem clearScriptDoc (t : SymbolTable) (name : String) : AddsNone t (t.clearScriptDoc name) :=
  ⟨fun other => by rw [SymbolTable.clearScriptDoc, Table.contains_modify]; exact id, rfl⟩

theorem setScriptDoc {doc : ScriptDoc} (h : t.setScriptDoc name doc = .ok t') : AddsNone t t' := by
  obtain ⟨script, hscript, rfl⟩ := exists_of_setScriptDoc h
  exact ⟨fun other => by rw [Table.contains_set_of_get? hscript]; exact id, rfl⟩

theorem clearContribution (t : SymbolTable) (uri : Uri) : AddsNone t (t.clearContribution uri) := by
  have hdetach : AddsNone t (t.detach uri) :=
    of_eq (resources_detach t uri).1 (resources_detach t uri).2.2.1
  rw [SymbolTable.clearContribution]
  split
  · exact hdetach.trans (.clearScriptDoc _ _)
  · exact hdetach

theorem removeDocument (h : AddsNone t t') (uri : Uri) : AddsNone t (t'.removeDocument uri) :=
  h.trans ((clearContribution t' uri).trans (of_eq rfl rfl))

theorem deleteScript (t : SymbolTable) (name : String) :
    AddsNone t (((t.deleteScript name).map Prod.snd).toOption.getD t) := by
  refine deleteScript_induction (.refl t) fun script _ => removeDocument ?_ script.uri
  refine ⟨fun other hother => ?_, rfl⟩
  rw [Table.contains_erase, Bool.and_eq_true] at hother
  exact hother.2

theorem deleteObject (t : SymbolTable) (name : String) :
    AddsNone t (((t.deleteObject name).map Prod.snd).toOption.getD t) := by
  refine deleteObject_induction (.refl t) (of_eq rfl rfl) fun _ _ uri _ t' ht' => removeDocument ?_ uri
  exact ht'.trans (of_eq rfl rfl)

theorem deleteRecordAt (t : SymbolTable) (uri : Uri) : AddsNone t (t.deleteRecordAt uri) := by
  rw [SymbolTable.deleteRecordAt]
  split
  · exact removeDocument (.refl t) uri
  · refine removeDocument ?_ uri
    exact of_eq rfl rfl

theorem createObject (h : t.createObject name = .ok t') : AddsNone t t' := by
  obtain ⟨-, rfl⟩ := eq_of_createObject h
  exact of_eq rfl rfl

theorem addEvent (h : t.addEvent name uri = .ok t') : AddsNone t t' := by
  obtain ⟨object, -, rfl⟩ := exists_of_addEvent h
  exact of_eq rfl rfl

theorem updateDoc (t : SymbolTable) (uri : Uri) (doc : DocUpdate) :
    AddsNone t (SymbolIndex.updateDoc t uri doc) := by
  unfold SymbolIndex.updateDoc
  split
  · split
    next t' ht' => exact setScriptDoc ht'
    · exact .refl t
  · exact clearScriptDoc t _
  · exact .refl t

theorem install (t : SymbolTable) (uri : Uri) (found : Commit) :
    AddsNone t (SymbolIndex.install t uri found).2 := by
  obtain ⟨contribution, doc, contentHash⟩ := found
  have hreplaced : AddsNone t (contribution.elim t fun c => (t.replaceContribution uri c).2) := by
    cases contribution with
    | none => exact .refl t
    | some c => exact replaceContribution t uri c
  have hdocumented := hreplaced.trans (updateDoc _ uri doc)
  cases contribution with
  | none =>
      cases contentHash with
      | none => exact hdocumented
      | some hash => exact hdocumented.trans (of_eq rfl rfl)
  | some c =>
      cases contentHash with
      | none => exact hdocumented
      | some hash => exact hdocumented.trans (of_eq rfl rfl)

end AddsNone

/-- A script is only made under a name that no built-in bears. -/
theorem shared_createScript {other : String} (h : t.createScript name uri = .ok t')
    (hshared : t'.Shared other) : t.Shared other := by
  obtain ⟨hname, rfl⟩ := eq_of_createScript h
  obtain ⟨hscript, hbuiltin⟩ := hshared
  dsimp only at hscript hbuiltin
  rw [Table.contains_set, Bool.or_eq_true, decide_eq_true_eq] at hscript
  rcases hscript with rfl | hscript
  · rw [checkNewName] at hname
    split at hname
    · cases hname
    · split at hname
      · cases hname
      next hexists =>
          rw [exists?, hbuiltin, Bool.or_true, Bool.true_or, Bool.true_or] at hexists
          exact absurd rfl hexists
  · exact ⟨hscript, hbuiltin⟩

/-- A name comes to be borne by a script and a built-in only with a manual that has the name
of a script. -/
theorem Edit.shared_apply (edit : Edit) (h : (edit.apply t).Shared name) :
    t.Shared name ∨ ∃ manual, edit = .seedBuiltins manual ∧
      (∃ function ∈ manual.functions, function.name = name) ∧ t.scripts.contains name = true := by
  cases edit with
  | seedBuiltins manual =>
      refine .inr ⟨manual, rfl, ?_, h.1⟩
      obtain ⟨entry, hentry, hname⟩ := List.mem_map.mp (Table.mem_keys_of_contains_ofList h.2)
      obtain ⟨function, hfunction, rfl⟩ := List.mem_map.mp hentry
      exact ⟨function, hfunction, hname⟩
  | createScript new uri =>
      rw [Edit.apply] at h
      cases hnew : t.createScript new uri with
      | error e => rw [hnew] at h; exact .inl h
      | ok t' => rw [hnew] at h; exact .inl (shared_createScript hnew h)
  | deleteScript old => exact .inl ((AddsNone.deleteScript t old).shared h)
  | createObject new => exact .inl ((attempt (.refl t) fun _ => AddsNone.createObject).shared h)
  | addEvent object uri => exact .inl ((attempt (.refl t) fun _ => AddsNone.addEvent).shared h)
  | deleteObject old => exact .inl ((AddsNone.deleteObject t old).shared h)
  | deleteRecordAt uri => exact .inl ((AddsNone.deleteRecordAt t uri).shared h)
  | clearContribution uri => exact .inl ((AddsNone.clearContribution t uri).shared h)
  | replaceContribution uri c belongs => exact .inl ((AddsNone.replaceContribution t uri c).shared h)
  | setScriptDoc script doc => exact .inl ((attempt (.refl t) fun _ => AddsNone.setScriptDoc).shared h)
  | clearScriptDoc script => exact .inl ((AddsNone.clearScriptDoc t script).shared h)
  | setHash uri hash => exact .inl ((AddsNone.of_eq rfl rfl).shared h)

theorem builtins_restoreFile (usable : Bool) (t : SymbolTable) (file : SnapshotFile) :
    (restoreFile usable t file).builtinFunctions = t.builtinFunctions := by
  have hreplaced := (resources_replaceContribution t file.uri file.contribution).2.2.1
  unfold restoreFile
  dsimp only
  split
  · split
    · exact hreplaced
    · exact hreplaced
  · exact hreplaced

/-- What is restored has no built-ins. -/
theorem builtins_ofSnapshot {snapshot : Snapshot} (h : ofSnapshot snapshot = .ok t) :
    t.builtinFunctions = .empty := by
  rw [ofSnapshot, Snapshot.checkVersion] at h
  split at h
  · cases h
    have hfiles : (snapshot.files.foldl (restoreFile (snapshot.hasher == ContentHash.hasherName))
        {}).builtinFunctions = .empty :=
      List.foldlRecOn snapshot.files _ (motive := fun t : SymbolTable => t.builtinFunctions = .empty)
        rfl fun t ht file _ => (builtins_restoreFile _ t file).trans ht
    have hscripts := List.foldlRecOn snapshot.scripts restoreScript
      (motive := fun t : SymbolTable => t.builtinFunctions = .empty) hfiles fun _ ht _ _ => ht
    exact List.foldlRecOn snapshot.objects restoreObject
      (motive := fun t : SymbolTable => t.builtinFunctions = .empty) hscripts fun _ ht _ _ => ht
  · cases h

end SymbolTable

/-! ### Runs -/

namespace SymbolIndex

open SymbolTable (AddsNone)

/-- What can happen to an index. -/
inductive Act where
  | edit (change : SymbolTable.Edit)
  | restore (snapshot : Snapshot)
  | advance (target : Readiness)
  | issue (uri : Uri)
  | lint (cycle : Lint.Cycle)

/-- The index after an act. A snapshot of another version is not taken over. -/
def Act.apply (index : SymbolIndex) : Act → SymbolIndex
  | .edit change => { index with table := change.apply index.table }
  | .restore snapshot =>
      match SymbolTable.ofSnapshot snapshot with
      | .ok table => { index with table }
      | .error _ => index
  | .advance target => (index.advance target).2
  | .issue uri => (index.issue uri).2
  | .lint cycle => (cycle.run index).2.2

/-- The index that acts lead to from a new one. -/
def ofActs (acts : List Act) : SymbolIndex := acts.foldl Act.apply {}

theorem addsNone_commit (index : SymbolIndex) (ticket : Ticket) (found : Commit) :
    AddsNone index.table (index.commit ticket found).2.table := by
  rw [(commit_eq index ticket found).2]
  split
  · exact .install index.table ticket.uri found
  · exact .refl index.table

/-- A name comes to be borne by a script and a built-in only with a manual that has the name
of a script. -/
theorem Act.shared_apply {index : SymbolIndex} {name : String} (act : Act)
    (h : (act.apply index).table.Shared name) :
    index.table.Shared name ∨ ∃ manual, act = .edit (.seedBuiltins manual) ∧
      (∃ function ∈ manual.functions, function.name = name) ∧
        index.table.scripts.contains name = true := by
  cases act with
  | edit change =>
      refine (change.shared_apply h).imp_right ?_
      rintro ⟨manual, rfl, hfunction, hscript⟩
      exact ⟨manual, rfl, hfunction, hscript⟩
  | restore snapshot =>
      rw [apply] at h
      split at h
      next table htable =>
          have hbuiltin := h.2
          rw [SymbolTable.builtins_ofSnapshot htable] at hbuiltin
          cases hbuiltin
      · exact .inl h
  | advance target =>
      rw [apply, SymbolIndex.advance] at h
      split at h
      · exact .inl h
      · exact .inl h
  | issue uri => exact .inl h
  | lint cycle =>
      rw [apply, Lint.Cycle.run, (cycle.document.runCycle_eq _ _ _ _).1] at h
      exact .inl ((addsNone_commit _ _ _).shared h)

/-- A name that a script and a built-in bear was the name of a script when a manual with it
was taken over. -/
theorem shared_ofActs {acts : List Act} {name : String} (h : (ofActs acts).table.Shared name) :
    ∃ before manual after, acts = before ++ .edit (.seedBuiltins manual) :: after ∧
      (∃ function ∈ manual.functions, function.name = name) ∧
        (ofActs before).table.scripts.contains name = true := by
  induction acts using List.reverseRecOn with
  | nil => cases h.1
  | append_singleton acts act ih =>
      rw [ofActs, List.foldl_append, List.foldl_cons, List.foldl_nil] at h
      rcases act.shared_apply h with hbefore | ⟨manual, rfl, hfunction, hscript⟩
      · obtain ⟨before, manual, after, rfl, hfunction, hscript⟩ := ih hbefore
        refine ⟨before, manual, after ++ [act], ?_, hfunction, hscript⟩
        rw [List.append_assoc, List.cons_append]
      · exact ⟨acts, manual, [], rfl, hfunction, hscript⟩

/-- The signature that calls of a name are checked against, in whatever state an index comes
to. It is the one that the index gives for the name if and only if no script and built-in with
other signatures bear the name. Where they differ, a manual with a function of the name was
taken over at a time when a script had it. -/
theorem checked_signature_of_acts (acts : List Act) (name : String) :
    (∀ mode settings declared (call : Calls.Call), call.callee.text = name →
      ((∃ finding, Calls.check (ofActs acts).table mode settings declared call = some finding ∧
          finding.code = .wrongArgumentCount) ↔
        settings.warnArity = true ∧ ∃ signature,
          Calls.checkedSignature? (ofActs acts).table name = some signature ∧
            signature.accepts call.arguments = false)) ∧
    (Calls.checkedSignature? (ofActs acts).table name = (ofActs acts).table.signature? name ↔
      ∀ script function, (ofActs acts).table.scripts.get? name = some script →
        (ofActs acts).table.builtinFunctions.get? name = some function →
          script.signature = some function.signature) ∧
    (Calls.checkedSignature? (ofActs acts).table name ≠ (ofActs acts).table.signature? name →
      ∃ before manual after, acts = before ++ .edit (.seedBuiltins manual) :: after ∧
        (∃ function ∈ manual.functions, function.name = name) ∧
          (ofActs before).table.scripts.contains name = true) := by
  refine ⟨?_, SymbolTable.checkedSignature?_eq_iff _ name, fun hother => ?_⟩
  · rintro mode settings declared call rfl
    exact Calls.check_wrongArgumentCount_iff
  · exact shared_ofActs (SymbolTable.shared_of_checkedSignature?_ne hother)

/-- A manual with the name of a script makes calls of the script checked against the manual,
while the index knows no signature for the name. -/
theorem calls_checked_against_manual :
    let jump : BuiltinFunction := { name := "jump", parameters := [{ label := "height" }] }
    let t := (ofActs [.edit (.createScript "jump" "file:///jump.gml"),
      .edit (.seedBuiltins { functions := [jump] })]).table
    t.signature? "jump" = none ∧ Calls.checkedSignature? t "jump" = some jump.signature := by
  decide +kernel

end SymbolIndex

end Gml
