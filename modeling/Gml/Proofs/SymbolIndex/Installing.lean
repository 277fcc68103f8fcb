import Gml.Proofs.SymbolIndex.Reachable

/-!
# What an install changes

An install replaces the contribution and the hash of one document and gives the script
whose code the document is other documentation. All other scripts, the objects and the
built-ins stay, and the macros that it reports hidden are those hidden afterwards.
-/
namespace Gml

namespace SymbolTable

theorem conflicts_replaceContribution (t : SymbolTable) (uri : Uri) (c : Contribution) :
    (t.replaceContribution uri c).1 = (t.replaceContribution uri c).2.macroConflicts c := by
  rw [replaceContribution]
  dsimp only
  cases c.isEmpty with
  | true => rfl
  | false => rfl

theorem scriptAt_replaceContribution (t : SymbolTable) (uri : Uri) (c : Contribution) :
    (t.replaceContribution uri c).2.scriptAt = t.scriptAt := by
  have hdetach : (t.detach uri).scriptAt = t.scriptAt := by
    rw [detach]
    split <;> rfl
  rw [replaceContribution]
  dsimp only
  cases c.isEmpty with
  | true => exact hdetach
  | false => exact hdetach

theorem macroConflicts_eq {t t' : SymbolTable}
    (hscripts : ∀ name, t'.scripts.contains name = t.scripts.contains name)
    (hobjects : t'.objects = t.objects)
    (hvisible : ∀ name, t'.visibleMacro? name = t.visibleMacro? name) (c : Contribution) :
    t'.macroConflicts c = t.macroConflicts c := by
  unfold visibleMacro? at hvisible
  unfold macroConflicts
  simp only [hscripts, hobjects, hvisible]

end SymbolTable

theorem Contribution.stored_getD (c : Contribution) : c.stored.getD {} = c := by
  rw [stored]
  split
  next hempty => rw [eq_empty_of_isEmpty hempty, Option.getD_none]
  next => rfl

namespace DocUpdate

/-- A script after a change of its documentation. -/
def applyTo : DocUpdate → ScriptRecord → ScriptRecord
  | .unchanged, script => script
  | .clear, script => { script with signature := none, doc := none }
  | .set doc, script =>
      { script with signature := some (doc.signature script.name), doc := doc.description }

/-- The signature of a script after a change of its documentation. -/
def signature? (name : String) (old : Option Signature) : DocUpdate → Option Signature
  | .unchanged => old
  | .clear => none
  | .set doc => some (doc.signature name)

theorem applyTo_place (update : DocUpdate) (script : ScriptRecord) :
    (update.applyTo script).name = script.name ∧ (update.applyTo script).uri = script.uri := by
  cases update <;> exact ⟨rfl, rfl⟩

theorem signature_applyTo (update : DocUpdate) (script : ScriptRecord) :
    (update.applyTo script).signature = update.signature? script.name script.signature := by
  cases update <;> rfl

end DocUpdate

namespace SymbolIndex

/-- A change of documentation reaches the script that the document is linked to. -/
theorem updateDoc_eq {t : SymbolTable} (hnamed : t.scripts.Keyed ScriptRecord.name) (uri : Uri)
    (update : DocUpdate) :
    ∃ scripts, updateDoc t uri update = { t with scripts } ∧
      ∀ name, scripts.get? name = if t.scriptAt.get? uri = some name
        then (t.scripts.get? name).map update.applyTo else t.scripts.get? name := by
  cases hscript : t.scriptAt? uri with
  | none =>
      refine ⟨t.scripts, ?_, fun name => ?_⟩
      · unfold updateDoc
        rw [hscript]
        cases update <;> rfl
      · split
        next hlink =>
            -- a link to a script that is not there
            rw [SymbolTable.scriptAt?, hlink, Option.bind_some] at hscript
            rw [hscript, Option.map_none]
        next => rfl
  | some script =>
      obtain ⟨own, hlink, hown⟩ := Option.bind_eq_some_iff.mp hscript
      obtain rfl : script.name = own := hnamed own script hown
      have hset : ∀ name, (t.scripts.set script.name (update.applyTo script)).get? name =
          if t.scriptAt.get? uri = some name then (t.scripts.get? name).map update.applyTo
          else t.scripts.get? name := by
        intro name
        rw [hlink, Table.get?_set]
        by_cases heq : name = script.name
        · rw [if_pos heq, if_pos (congrArg some heq.symm), heq, hown, Option.map_some]
        · rw [if_neg heq, if_neg fun hsome => heq (Option.some.inj hsome).symm]
      cases update with
      | unchanged =>
          have hsame : DocUpdate.unchanged.applyTo = id := rfl
          refine ⟨t.scripts, ?_, fun name => by rw [hsame, Option.map_id, id, ite_self]⟩
          unfold updateDoc
          rw [hscript]
      | clear =>
          refine ⟨_, ?_, hset⟩
          unfold updateDoc
          rw [hscript]
          dsimp only
          rw [SymbolTable.clearScriptDoc, Table.modify, hown]
          rfl
      | set doc =>
          refine ⟨_, ?_, hset⟩
          unfold updateDoc
          rw [hscript]
          dsimp only
          rw [SymbolTable.setScriptDoc, hown]
          rfl

/-- What an install changes: the contribution and the hash of the document, and the
documentation of its script. -/
theorem install_eq {t : SymbolTable} (hnamed : t.scripts.Keyed ScriptRecord.name) (uri : Uri)
    (found : Commit) :
    let replaced := found.contribution.elim t fun c => (t.replaceContribution uri c).2
    ∃ scripts hashes, (install t uri found).2 = { replaced with scripts, hashes } ∧
      replaced.scriptAt = t.scriptAt ∧
      ∀ name, scripts.get? name = if t.scriptAt.get? uri = some name
        then (t.scripts.get? name).map found.doc.applyTo else t.scripts.get? name := by
  obtain ⟨contribution, update, contentHash⟩ := found
  intro replaced
  have hreplaced : replaced.scripts = t.scripts ∧ replaced.scriptAt = t.scriptAt := by
    cases contribution with
    | none => exact ⟨rfl, rfl⟩
    | some c =>
        exact ⟨(SymbolTable.resources_replaceContribution t uri c).1,
          SymbolTable.scriptAt_replaceContribution t uri c⟩
  obtain ⟨scripts, hupdate, hscripts⟩ := updateDoc_eq (hreplaced.1 ▸ hnamed) uri update
  rw [hreplaced.1, hreplaced.2] at hscripts
  have hinstall : (install t uri ⟨contribution, update, contentHash⟩).2 =
      contentHash.elim (updateDoc replaced uri update)
        ((updateDoc replaced uri update).setHash uri) := by
    cases contribution <;> cases contentHash <;> rfl
  rw [hinstall, hupdate]
  cases contentHash with
  | none => exact ⟨scripts, replaced.hashes, rfl, hreplaced.2, hscripts⟩
  | some hash => exact ⟨scripts, replaced.hashes.set uri hash, rfl, hreplaced.2, hscripts⟩

/-- Only the documentation that is found has a part in the scripts. -/
theorem scripts_install (t : SymbolTable) (uri : Uri) (found : Commit) :
    (install t uri found).2.scripts = (updateDoc t uri found.doc).scripts := by
  obtain ⟨contribution, doc, contentHash⟩ := found
  have hupdate : ∀ replaced : SymbolTable, replaced.scripts = t.scripts →
      replaced.scriptAt = t.scriptAt →
      (updateDoc replaced uri doc).scripts = (updateDoc t uri doc).scripts := by
    intro replaced hscripts hlinks
    unfold updateDoc
    rw [SymbolTable.scriptAt?, hscripts, hlinks, ← SymbolTable.scriptAt?]
    split
    next script _ =>
        rw [SymbolTable.setScriptDoc, SymbolTable.setScriptDoc, hscripts]
        cases t.scripts.get? script.name with
        | none => exact hscripts
        | some found => rfl
    next =>
        rw [SymbolTable.clearScriptDoc, SymbolTable.clearScriptDoc, hscripts]
    next => exact hscripts
  have hcontribution : (updateDoc (contribution.elim t fun c => (t.replaceContribution uri c).2)
      uri doc).scripts = (updateDoc t uri doc).scripts := by
    cases contribution with
    | none => rfl
    | some c =>
        exact hupdate _ (SymbolTable.resources_replaceContribution t uri c).1
          (SymbolTable.scriptAt_replaceContribution t uri c)
  rw [← hcontribution]
  cases contribution <;> cases contentHash <;> rfl

theorem scripts_commit (index : SymbolIndex) (ticket : Ticket) {found found' : Commit}
    (hdoc : found'.doc = found.doc) :
    (index.commit ticket found').2.table.scripts = (index.commit ticket found).2.table.scripts := by
  rw [commit, commit]
  cases index.accept ticket with
  | mk answer accepted =>
      cases answer with
      | false => rfl
      | true =>
          dsimp only
          rw [scripts_install, scripts_install, hdoc]

theorem conflicts_commit {index : SymbolIndex} {ticket : Ticket}
    (h : (index.accept ticket).1 = true) (found : Commit) :
    (index.commit ticket found).1 = some (install index.table ticket.uri found).1 := by
  have htable := index.table_accept ticket
  rw [commit]
  cases haccepted : index.accept ticket with
  | mk answer accepted =>
      rw [haccepted] at h htable
      cases h
      rw [← htable]

end SymbolIndex

end Gml
