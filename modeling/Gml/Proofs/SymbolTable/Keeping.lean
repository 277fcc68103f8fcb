import Gml.Proofs.Lint.Cycles
import Gml.Proofs.SymbolTable.Restoring
import Gml.Server.Registration

/-!
# What a table keeps of a document

Of each document the table keeps a contribution and the hash of the text that this comes
from. Whatever happens to scripts and objects, a document either keeps both or loses both.
-/
namespace Gml

/-- A text that is read in the place of a document. -/
structure Reading where
  uri : Uri
  kind : DocumentKind
  text : String
  deriving DecidableEq

namespace Reading

def contribution (r : Reading) : Contribution :=
  ({ uri := r.uri, kind := r.kind, text := r.text } : LintDocument).reading

def hash (r : Reading) : UInt64 := ContentHash.ofText r.text

end Reading

namespace SymbolTable

variable {t t' t'' : SymbolTable} {uri : Uri} {name : String}

/-- Nothing is kept of a document. -/
def Forgets (t : SymbolTable) (uri : Uri) : Prop :=
  t.contribution? uri = none ∧ t.hashes.get? uri = none

/-- The last text of a document that was kept. -/
def Holds (t : SymbolTable) (r : Reading) : Prop :=
  t.contribution? r.uri = r.contribution.stored ∧ t.hashes.get? r.uri = some r.hash

/-- What is kept of a document comes from one of some texts. -/
def SettledAt (made : Reading → Prop) (t : SymbolTable) (uri : Uri) : Prop :=
  t.Forgets uri ∨ ∃ r, made r ∧ r.uri = uri ∧ t.Holds r

def Settled (made : Reading → Prop) (t : SymbolTable) : Prop := ∀ uri, t.SettledAt made uri

theorem settled_empty (made : Reading → Prop) : ({} : SymbolTable).Settled made :=
  fun _ => .inl ⟨rfl, rfl⟩

/-- Two tables keep the same of a document. -/
def Agrees (t t' : SymbolTable) (uri : Uri) : Prop :=
  t'.contribution? uri = t.contribution? uri ∧ t'.hashes.get? uri = t.hashes.get? uri

theorem Forgets.of_agrees (h : t.Forgets uri) (hagrees : t.Agrees t' uri) : t'.Forgets uri :=
  ⟨hagrees.1.trans h.1, hagrees.2.trans h.2⟩

theorem Holds.of_agrees {r : Reading} (h : t.Holds r) (hagrees : t.Agrees t' r.uri) : t'.Holds r :=
  ⟨hagrees.1.trans h.1, hagrees.2.trans h.2⟩

theorem SettledAt.of_agrees {made : Reading → Prop} (h : t.SettledAt made uri)
    (hagrees : t.Agrees t' uri) : t'.SettledAt made uri := by
  rcases h with hforgets | ⟨r, hr, rfl, hholds⟩
  · exact .inl (hforgets.of_agrees hagrees)
  · exact .inr ⟨r, hr, rfl, hholds.of_agrees hagrees⟩

/-! ### Changes of resources -/

/-- Each document is kept as it is or forgotten. -/
def Drops (t t' : SymbolTable) : Prop := ∀ uri, t.Agrees t' uri ∨ t'.Forgets uri

namespace Drops

theorem of_eq (hcontributions : t'.contributions = t.contributions) (hhashes : t'.hashes = t.hashes) :
    t.Drops t' := fun uri =>
  .inl ⟨congrArg (·.get? uri) hcontributions, congrArg (·.get? uri) hhashes⟩

theorem refl (t : SymbolTable) : t.Drops t := of_eq rfl rfl

theorem forgets (h : t.Drops t') (huri : t.Forgets uri) : t'.Forgets uri :=
  (h uri).elim huri.of_agrees id

theorem trans (h : t.Drops t') (h' : t'.Drops t'') : t.Drops t'' := by
  intro uri
  rcases h' uri with hsame | hgone
  · rcases h uri with hbefore | hbefore
    · exact .inl ⟨hsame.1.trans hbefore.1, hsame.2.trans hbefore.2⟩
    · exact .inr (hbefore.of_agrees hsame)
  · exact .inr hgone

theorem settled {made : Reading → Prop} (h : t.Drops t') (ht : t.Settled made) :
    t'.Settled made := fun uri => (h uri).elim (ht uri).of_agrees .inl

theorem foldl {α : Type} {step : SymbolTable → α → SymbolTable}
    (hstep : ∀ (t : SymbolTable) (a : α), t.Drops (step t a)) (items : List α) (t : SymbolTable) :
    t.Drops (items.foldl step t) := by
  induction items generalizing t with
  | nil => exact refl t
  | cons item items ih => exact (hstep t item).trans (ih _)

end Drops

/-! ### Removing -/

theorem contributions_removeDocument (t : SymbolTable) (uri : Uri) :
    (t.removeDocument uri).contributions = (t.detach uri).contributions := by
  rw [removeDocument, clearContribution]
  dsimp only
  split <;> rfl

theorem hashes_removeDocument (t : SymbolTable) (uri : Uri) :
    (t.removeDocument uri).hashes = t.hashes.erase uri := by
  rw [← hashes_detach t uri, removeDocument, clearContribution]
  dsimp only
  split <;> rfl

theorem forgets_removeDocument (t : SymbolTable) (uri : Uri) :
    (t.removeDocument uri).Forgets uri := by
  rw [Forgets, contribution?, contributions_removeDocument, hashes_removeDocument,
    contributions_detach, Table.get?_erase, if_pos rfl, if_pos rfl]
  exact ⟨rfl, rfl⟩

theorem agrees_removeDocument (t : SymbolTable) {other : Uri} (h : other ≠ uri) :
    t.Agrees (t.removeDocument uri) other := by
  rw [Agrees, contribution?, contribution?, contributions_removeDocument, hashes_removeDocument,
    contributions_detach, Table.get?_erase, if_neg h, if_neg h]
  exact ⟨rfl, rfl⟩

theorem drops_removeDocument (t : SymbolTable) (uri : Uri) : t.Drops (t.removeDocument uri) := by
  intro other
  by_cases heq : other = uri
  · exact .inr (heq ▸ forgets_removeDocument t uri)
  · exact .inl (agrees_removeDocument t heq)

theorem drops_deleteScript (t : SymbolTable) (name : String) :
    t.Drops (((t.deleteScript name).map Prod.snd).toOption.getD t) := by
  refine deleteScript_induction (.refl t) fun script _ => ?_
  exact (Drops.of_eq rfl rfl).trans (drops_removeDocument _ script.uri)

theorem drops_deleteObject (t : SymbolTable) (name : String) :
    t.Drops (((t.deleteObject name).map Prod.snd).toOption.getD t) := by
  refine deleteObject_induction (.refl t) (.of_eq rfl rfl) fun _ _ uri _ t' ht' => ht'.trans ?_
  exact (Drops.of_eq rfl rfl).trans (drops_removeDocument _ uri)

theorem forgets_deleteRecordAt (t : SymbolTable) (uri : Uri) : (t.deleteRecordAt uri).Forgets uri :=
  forgets_removeDocument _ uri

theorem drops_deleteRecordAt (t : SymbolTable) (uri : Uri) : t.Drops (t.deleteRecordAt uri) := by
  rw [deleteRecordAt]
  split
  · exact drops_removeDocument t uri
  · exact (Drops.of_eq rfl rfl).trans (drops_removeDocument _ uri)

/-! ### Registering -/

theorem drops_createScript (h : t.createScript name uri = .ok t') : t.Drops t' := by
  obtain ⟨-, rfl⟩ := eq_of_createScript h
  exact .of_eq rfl rfl

theorem drops_createObject (h : t.createObject name = .ok t') : t.Drops t' := by
  obtain ⟨-, rfl⟩ := eq_of_createObject h
  exact .of_eq rfl rfl

theorem drops_addEvent (h : t.addEvent name uri = .ok t') : t.Drops t' := by
  obtain ⟨object, -, rfl⟩ := exists_of_addEvent h
  exact .of_eq rfl rfl

theorem drops_registerIfPossible (t : SymbolTable) (uri : Uri) (kind : DocumentKind) :
    t.Drops (t.registerIfPossible uri kind) := by
  cases kind with
  | script name =>
      rw [registerIfPossible_script]
      split
      · exact .of_eq rfl rfl
      · exact .refl t
  | objectEvent object event =>
      rw [registerIfPossible_event]
      split
      · exact .of_eq rfl rfl
      · exact .of_eq rfl rfl
      · exact .refl t
  | other => exact .refl t

theorem drops_registerAll (t : SymbolTable) (files : List SourceFile) :
    t.Drops (t.registerAll files) := by
  rw [registerAll]
  exact Drops.foldl (fun t file => drops_registerIfPossible t file.uri file.kind) files t

/-! ### Cutting down to some files -/

theorem drops_pruneScripts (t : SymbolTable) (uris : List Uri) : t.Drops (t.pruneScripts uris) := by
  rw [pruneScripts]
  exact Drops.foldl (fun t (script : ScriptRecord) => drops_deleteScript t script.name) _ t

theorem drops_pruneObjects (t : SymbolTable) (objects : List String) :
    t.Drops (t.pruneObjects objects) := by
  rw [pruneObjects]
  exact Drops.foldl drops_deleteObject _ t

theorem drops_pruneDocuments (t : SymbolTable) (uris : List Uri) : t.Drops (t.pruneDocuments uris) :=
  Drops.foldl drops_deleteRecordAt _ t

theorem forgets_foldl_deleteRecordAt {uris : List Uri} (huri : uri ∈ uris) (t : SymbolTable) :
    (uris.foldl deleteRecordAt t).Forgets uri := by
  induction uris generalizing t with
  | nil => cases huri
  | cons first rest ih =>
      rcases List.mem_cons.mp huri with rfl | hrest
      · exact (Drops.foldl drops_deleteRecordAt rest _).forgets (forgets_deleteRecordAt t uri)
      · exact ih hrest _

/-- Whoever is not among the files either was unknown before or is deleted. -/
theorem forgets_pruneDocuments {uris : List Uri} (huri : uri ∉ uris) (t : SymbolTable) :
    (t.pruneDocuments uris).Forgets uri := by
  by_cases hknown : uri ∈ t.knownDocuments
  · refine forgets_foldl_deleteRecordAt (List.mem_filter.mpr ⟨?_, ?_⟩) t
    · exact List.mem_append_right _ hknown
    · simpa using huri
  · rw [mem_knownDocuments, not_or, not_not, not_not] at hknown
    exact (drops_pruneDocuments t uris).forgets hknown

theorem drops_prune (t : SymbolTable) (files : List SourceFile) : t.Drops (t.prune files) :=
  ((drops_pruneScripts t _).trans (drops_pruneObjects _ _)).trans (drops_pruneDocuments _ _)

/-- Of the documents only files of the project are left. -/
theorem forgets_prune {files : List SourceFile} (huri : uri ∉ files.map (·.uri)) (t : SymbolTable) :
    (t.prune files).Forgets uri :=
  forgets_pruneDocuments huri _

/-! ### Reading a text -/

/-- What a round of all analyses leaves of its document. -/
theorem holds_install {t : SymbolTable} {d : LintDocument} (h : (parse d.text).ok = true) :
    (SymbolIndex.install t d.uri (d.found {})).2.Holds ⟨d.uri, d.kind, d.text⟩ := by
  have hfound : (d.found {}).contribution = some d.reading ∧
      (d.found {}).contentHash = some (ContentHash.ofText d.text) := by
    rw [LintDocument.found_of_ok h]
    exact ⟨rfl, rfl⟩
  refine ⟨?_, ?_⟩
  · rw [SymbolIndex.contribution?_install, if_pos rfl, hfound.1, Option.elim_some]
    rfl
  · rw [SymbolIndex.hashes_install, if_pos rfl, hfound.2, Option.some_or]
    rfl

theorem agrees_install (t : SymbolTable) {uri other : Uri} (h : other ≠ uri) (found : Commit) :
    t.Agrees (SymbolIndex.install t uri found).2 other := by
  rw [Agrees, SymbolIndex.contribution?_install, SymbolIndex.hashes_install, if_neg h, if_neg h]
  exact ⟨rfl, rfl⟩

end SymbolTable

end Gml
