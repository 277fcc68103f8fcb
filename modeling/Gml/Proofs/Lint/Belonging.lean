import Gml.Proofs.Lint.Recording

/-!
# Contributions and their documents

A contribution belongs to a document if all it records lies in that document. What the
names of a document give always does.
-/
namespace Gml

/-- All records lie in one document. -/
structure Contribution.BelongsTo (c : Contribution) (uri : Uri) : Prop where
  declarations : ∀ record ∈ c.declarations, record.location.uri = uri
  macros : ∀ record ∈ c.macros, record.location.uri = uri
  uses : ∀ use ∈ c.uses, use.location.uri = uri

theorem Contribution.belongsTo_empty (uri : Uri) : ({} : Contribution).BelongsTo uri :=
  ⟨nofun, nofun, nofun⟩

theorem Contribution.eq_empty_of_isEmpty {c : Contribution} (h : c.isEmpty = true) : c = {} := by
  simp only [isEmpty, Bool.and_eq_true, List.isEmpty_iff] at h
  obtain ⟨⟨hdeclarations, hmacros⟩, huses⟩ := h
  cases c
  simp_all

namespace Names.State

variable {s : State} {location : Location}

theorem belongsTo_addUse (h : s.contribution.BelongsTo location.uri) (name : String)
    (kind : UseKind) : (s.addUse name kind location).contribution.BelongsTo location.uri := by
  refine { h with uses := ?_ }
  exact List.forall_mem_append.mpr ⟨h.uses, List.forall_mem_singleton.mpr rfl⟩

theorem belongsTo_addMacro (h : s.contribution.BelongsTo location.uri) (name value : String) :
    (s.addMacro name value location).contribution.BelongsTo location.uri := by
  refine { h with macros := ?_ }
  exact List.forall_mem_append.mpr ⟨h.macros, List.forall_mem_singleton.mpr rfl⟩

theorem belongsTo_addVariable (h : s.contribution.BelongsTo location.uri) (name : String)
    (scope : Scope) : (s.addVariable name scope location).contribution.BelongsTo location.uri := by
  refine { h with declarations := ?_ }
  exact List.forall_mem_append.mpr ⟨h.declarations, List.forall_mem_singleton.mpr rfl⟩

theorem Records.belongsTo {s' : State} {o : Occurrence} (h : Records s o location s')
    (hs : s.contribution.BelongsTo location.uri) : s'.contribution.BelongsTo location.uri := by
  cases h with
  | use own kind => exact belongsTo_addUse (s := { s with own }) hs o.name kind
  | declaration own scope =>
      exact belongsTo_addUse (belongsTo_addVariable (s := { s with own }) hs o.name scope) o.name
        .declaration
  | macroDef value => exact belongsTo_addUse (belongsTo_addMacro hs o.name value) o.name .declaration

theorem belongsTo_foldl_add {view : DocumentView} (h : s.contribution.BelongsTo view.uri)
    (inEvent : Bool) (occurrences : List Occurrence) :
    (occurrences.foldl (add inEvent view.location) s).contribution.BelongsTo view.uri := by
  induction occurrences generalizing s with
  | nil => exact h
  | cons o rest ih =>
      have hplace : s.contribution.BelongsTo (view.location o.span).uri := h
      exact ih ((records_add s o inEvent view.location).belongsTo hplace)

end Names.State

theorem Names.contribution_belongsTo (view : DocumentView) :
    (Names.contribution view).BelongsTo view.uri :=
  State.belongsTo_foldl_add (Contribution.belongsTo_empty view.uri) _ _

end Gml
