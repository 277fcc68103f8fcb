import Gml.Proofs.SymbolTable.References

/-!
# Runs of edits

The symbol table starts empty and is changed by edits, of which some may fail and then
change nothing. Each edit keeps the table consistent, so every table that edits lead to
agrees with a scan of its contributions.
-/
namespace Gml.SymbolTable

/-- One change. A contribution comes with the proof that it belongs to its document. -/
inductive Edit where
  | seedBuiltins (manual : Manual)
  | createScript (name : String) (uri : Uri)
  | deleteScript (name : String)
  | createObject (name : String)
  | addEvent (name : String) (uri : Uri)
  | deleteObject (name : String)
  | deleteRecordAt (uri : Uri)
  | clearContribution (uri : Uri)
  | replaceContribution (uri : Uri) (c : Contribution) (belongs : c.BelongsTo uri)
  | setScriptDoc (name : String) (doc : ScriptDoc)
  | clearScriptDoc (name : String)
  | setHash (uri : Uri) (hash : UInt64)

/-- The table after an edit. -/
def Edit.apply (t : SymbolTable) : Edit → SymbolTable
  | .seedBuiltins manual => t.seedBuiltins manual
  | .createScript name uri => (t.createScript name uri).toOption.getD t
  | .deleteScript name => ((t.deleteScript name).map Prod.snd).toOption.getD t
  | .createObject name => (t.createObject name).toOption.getD t
  | .addEvent name uri => (t.addEvent name uri).toOption.getD t
  | .deleteObject name => ((t.deleteObject name).map Prod.snd).toOption.getD t
  | .deleteRecordAt uri => t.deleteRecordAt uri
  | .clearContribution uri => t.clearContribution uri
  | .replaceContribution uri c _ => (t.replaceContribution uri c).2
  | .setScriptDoc name doc => (t.setScriptDoc name doc).toOption.getD t
  | .clearScriptDoc name => t.clearScriptDoc name
  | .setHash uri hash => t.setHash uri hash

/-- The table that edits lead to from the empty one. -/
def ofEdits (edits : List Edit) : SymbolTable := edits.foldl Edit.apply {}

namespace Consistent

variable {t : SymbolTable}

theorem apply (h : t.Consistent) (edit : Edit) : (edit.apply t).Consistent := by
  cases edit with
  | seedBuiltins manual => exact { h with }
  | createScript name uri => exact attempt h fun _ => h.createScript
  | deleteScript name => exact h.deleteScript name
  | createObject name => exact attempt h fun _ => h.createObject
  | addEvent name uri => exact attempt h fun _ => h.addEvent
  | deleteObject name => exact h.deleteObject name
  | deleteRecordAt uri => exact h.deleteRecordAt uri
  | clearContribution uri => exact h.clearContribution uri
  | replaceContribution uri c belongs => exact h.replaceContribution belongs
  | setScriptDoc name doc => exact attempt h fun _ => h.setScriptDoc
  | clearScriptDoc name => exact h.clearScriptDoc name
  | setHash uri hash => exact { h with }

theorem foldl_apply (h : t.Consistent) (edits : List Edit) :
    (edits.foldl Edit.apply t).Consistent := by
  induction edits generalizing t with
  | nil => exact h
  | cons edit rest ih => exact ih (h.apply edit)

end Consistent

/-- Every table that edits lead to is consistent: its lists are what a scan of the
contributions finds, and the references of a name are the sorted places of all its uses.
The edits may hold the contribution of any document that was read. -/
theorem edits_agree_with_scan :
    (∀ view, (Names.contribution view).BelongsTo view.uri) ∧
    ∀ edits : List Edit, (ofEdits edits).Consistent ∧
      ∀ name,
        (∀ uri, uri ∈ listed (ofEdits edits).users name ↔
          ∃ c, (ofEdits edits).contribution? uri = some c ∧ ∃ use ∈ c.uses, use.name = name) ∧
        (listed (ofEdits edits).users name).Nodup ∧
        ((ofEdits edits).references name).Pairwise (fun a b => a.le b = true) ∧
        ((ofEdits edits).references name).Perm
          (((ofEdits edits).scanUses name).map (·.location)) := by
  refine ⟨Names.contribution_belongsTo, fun edits => ?_⟩
  have h : (ofEdits edits).Consistent := consistent_empty.foldl_apply edits
  refine ⟨h, fun name => ⟨?_, ?_, ?_, ?_⟩⟩
  · intro uri
    rw [(h.users.perm name).mem_iff]
    exact mem_scanUsers_iff _ name uri
  · exact (h.users.perm name).nodup_iff.mpr (nodup_scanUsers _ name)
  · exact pairwise_references _ name
  · exact h.references_perm name

end Gml.SymbolTable
