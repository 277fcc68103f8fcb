import Gml.Proofs.SymbolTable.Answers
import Gml.SymbolTable.Snapshot

/-!
# Reading a snapshot back

The documents of a snapshot are added again in the order of their addresses. What comes
out has the resources, contributions and hashes of the table before, and all that follows
from these. The order in which the documents came is not kept, and with it goes who owns
a macro of several documents: after a restart the first address owns it.
-/
namespace Gml.SymbolTable

variable {t : SymbolTable}

/-! ### Sorted addresses -/

theorem nodup_eraseDups (uris : List Uri) : uris.eraseDups.Nodup := by
  match uris with
  | [] => exact .nil
  | uri :: rest =>
      have hsmaller : (rest.filter fun other => !other == uri).length < (uri :: rest).length :=
        Nat.lt_succ_of_le (List.length_filter_le _ _)
      rw [List.eraseDups_cons, List.nodup_cons]
      refine ⟨?_, nodup_eraseDups _⟩
      rw [List.mem_eraseDups, List.mem_filter]
      simp
termination_by uris.length
decreasing_by exact hsmaller

theorem sortUris_perm (uris : List Uri) : (sortUris uris).Perm uris.eraseDups :=
  List.mergeSort_perm _ _

theorem nodup_sortUris (uris : List Uri) : (sortUris uris).Nodup :=
  (sortUris_perm uris).nodup_iff.mpr (nodup_eraseDups uris)

theorem mem_sortUris {uris : List Uri} {uri : Uri} : uri ∈ sortUris uris ↔ uri ∈ uris := by
  rw [(sortUris_perm uris).mem_iff, List.mem_eraseDups]

theorem pairwise_sortUris (uris : List Uri) : (sortUris uris).Pairwise (· ≤ ·) := by
  have hsorted : (sortUris uris).Pairwise fun a b => decide (a ≤ b) = true := by
    refine List.pairwise_mergeSort ?_ ?_ _
    · intro a b c hab hbc
      rw [decide_eq_true_eq] at *
      exact le_trans hab hbc
    · intro a b
      simpa using le_total a b
  simpa using hsorted

/-- Sorted addresses without repetitions are known by their members. -/
theorem eq_sortUris {uris others : List Uri} (hsorted : uris.Pairwise (· ≤ ·))
    (hnodup : uris.Nodup) (hmem : ∀ uri, uri ∈ uris ↔ uri ∈ others) : uris = sortUris others := by
  have hperm : uris.Perm (sortUris others) := by
    rw [List.perm_ext_iff_of_nodup hnodup (nodup_sortUris others)]
    intro uri
    rw [hmem, mem_sortUris]
  exact hperm.eq_of_pairwise (fun _ _ _ _ => le_antisymm) hsorted (pairwise_sortUris others)

theorem mem_knownDocuments {uri : Uri} :
    uri ∈ t.knownDocuments ↔ t.contribution? uri ≠ none ∨ t.hashes.get? uri ≠ none := by
  rw [knownDocuments, mem_sortUris, List.mem_append, Table.mem_keys_iff, Table.mem_keys_iff]
  rfl

/-! ### Scripts and objects -/

theorem exists_foldl_restoreScript (t : SymbolTable) (scripts : List ScriptRecord) :
    ∃ scriptAt, scripts.foldl restoreScript t = { t with
      scriptAt := scriptAt
      scripts := scripts.foldl (fun table script => table.set script.name script) t.scripts } := by
  induction scripts generalizing t with
  | nil => exact ⟨t.scriptAt, rfl⟩
  | cons script rest ih =>
      obtain ⟨scriptAt, hrest⟩ := ih (restoreScript t script)
      exact ⟨scriptAt, hrest⟩

theorem exists_foldl_restoreObject (t : SymbolTable) (objects : List ObjectRecord) :
    ∃ objectAt, objects.foldl restoreObject t = { t with
      objectAt := objectAt
      objects := objects.foldl (fun table object => table.set object.name object) t.objects } := by
  induction objects generalizing t with
  | nil => exact ⟨t.objectAt, rfl⟩
  | cons object rest ih =>
      obtain ⟨objectAt, hrest⟩ := ih (restoreObject t object)
      exact ⟨objectAt, hrest⟩

/-! ### Documents -/

/-- What a snapshot keeps of a document. -/
def fileOf (t : SymbolTable) (uri : Uri) : SnapshotFile where
  uri := uri
  contentHash := t.hashes.get? uri
  contribution := (t.contribution? uri).getD {}

/-- A table with some documents of another one. -/
def restoreFiles (t : SymbolTable) (uris : List Uri) : SymbolTable :=
  (uris.map t.fileOf).foldl (restoreFile true) {}

theorem restoreFiles_concat (t : SymbolTable) (uris : List Uri) (uri : Uri) :
    t.restoreFiles (uris ++ [uri]) = restoreFile true (t.restoreFiles uris) (t.fileOf uri) := by
  rw [restoreFiles, List.map_append, List.foldl_append]
  rfl

theorem Consistent.fileOf_belongsTo (h : t.Consistent) (uri : Uri) :
    (t.fileOf uri).contribution.BelongsTo uri := by
  rw [fileOf]
  cases hc : t.contribution? uri with
  | none => exact Contribution.belongsTo_empty uri
  | some c => exact h.belongs uri c hc

theorem restoreFile_eq (t : SymbolTable) (file : SnapshotFile) :
    let replaced := (t.replaceContribution file.uri file.contribution).2
    file.contentHash = none ∧ restoreFile true t file = replaced ∨
      ∃ hash, file.contentHash = some hash ∧
        restoreFile true t file = replaced.setHash file.uri hash := by
  unfold restoreFile
  cases file.contentHash with
  | none => exact .inl ⟨rfl, rfl⟩
  | some hash => exact .inr ⟨hash, rfl, rfl⟩

/-- To read documents back is to edit the empty table. -/
theorem Consistent.exists_edits_restoreFiles (h : t.Consistent) (uris : List Uri) :
    ∃ edits, t.restoreFiles uris = ofEdits edits := by
  induction uris using List.reverseRecOn with
  | nil => exact ⟨[], rfl⟩
  | append_singleton rest uri ih =>
      obtain ⟨edits, hedits⟩ := ih
      let replace := Edit.replaceContribution uri _ (h.fileOf_belongsTo uri)
      rw [restoreFiles_concat, hedits]
      rcases restoreFile_eq (ofEdits edits) (t.fileOf uri) with ⟨-, hfile⟩ | ⟨hash, -, hfile⟩
      · refine ⟨edits ++ [replace], ?_⟩
        rw [hfile, ofEdits_append]
        rfl
      · refine ⟨edits ++ [replace, .setHash uri hash], ?_⟩
        rw [hfile, ofEdits_append]
        rfl

theorem Consistent.stored_contribution (h : t.Consistent) (uri : Uri) :
    ((t.contribution? uri).getD {}).stored = t.contribution? uri := by
  cases hc : t.contribution? uri with
  | none => rfl
  | some c => exact Contribution.stored_eq_some_iff.mpr ⟨rfl, h.nonempty uri c hc⟩

theorem contribution?_restoreFile (t : SymbolTable) (file : SnapshotFile) (uri : Uri) :
    (restoreFile true t file).contribution? uri =
      if uri = file.uri then file.contribution.stored else t.contribution? uri := by
  rw [← contribution?_replaceContribution]
  rcases restoreFile_eq t file with ⟨-, hfile⟩ | ⟨hash, -, hfile⟩
  · rw [hfile]
  · rw [hfile]
    rfl

theorem hashes_restoreFile (t : SymbolTable) (file : SnapshotFile) (uri : Uri) :
    (restoreFile true t file).hashes.get? uri =
      if uri = file.uri then file.contentHash.or (t.hashes.get? uri) else t.hashes.get? uri := by
  rcases restoreFile_eq t file with ⟨hnone, hfile⟩ | ⟨hash, hsome, hfile⟩
  · rw [hfile, hnone, hashes_replaceContribution, Option.none_or, ite_self]
  · rw [hfile, hsome, setHash, hashes_replaceContribution, Table.get?_set, Option.some_or]

/-- What is stored already comes back as it is. -/
theorem contribution?_restoreFiles
    (hstored : ∀ uri, ((t.contribution? uri).getD {}).stored = t.contribution? uri)
    (uris : List Uri) (uri : Uri) :
    (t.restoreFiles uris).contribution? uri = if uri ∈ uris then t.contribution? uri else none := by
  induction uris using List.reverseRecOn with
  | nil => rfl
  | append_singleton rest last ih =>
      rw [restoreFiles_concat, contribution?_restoreFile, ih, fileOf, hstored]
      by_cases heq : uri = last
      · simp [heq]
      · simp [heq]

theorem Consistent.contribution?_restoreFiles (h : t.Consistent) (uris : List Uri) (uri : Uri) :
    (t.restoreFiles uris).contribution? uri = if uri ∈ uris then t.contribution? uri else none :=
  SymbolTable.contribution?_restoreFiles h.stored_contribution uris uri

theorem hashes_restoreFiles (t : SymbolTable) (uris : List Uri) (uri : Uri) :
    (t.restoreFiles uris).hashes.get? uri = if uri ∈ uris then t.hashes.get? uri else none := by
  induction uris using List.reverseRecOn with
  | nil => rfl
  | append_singleton rest last ih =>
      rw [restoreFiles_concat, hashes_restoreFile, ih, fileOf]
      by_cases heq : uri = last
      · by_cases hagain : last ∈ rest
        · simp [heq, hagain]
        · simp [heq, hagain]
      · simp [heq]

theorem resources_restoreFiles (t : SymbolTable) (uris : List Uri) :
    (t.restoreFiles uris).scripts = .empty ∧ (t.restoreFiles uris).objects = .empty := by
  induction uris using List.reverseRecOn with
  | nil => exact ⟨rfl, rfl⟩
  | append_singleton rest last ih =>
      obtain ⟨hscripts, hobjects, -⟩ := resources_replaceContribution (t.restoreFiles rest) last
        (t.fileOf last).contribution
      rw [restoreFiles_concat]
      rcases restoreFile_eq (t.restoreFiles rest) (t.fileOf last) with ⟨-, hfile⟩ | ⟨hash, -, hfile⟩
      · rw [hfile]
        exact ⟨hscripts.trans ih.1, hobjects.trans ih.2⟩
      · rw [hfile]
        exact ⟨hscripts.trans ih.1, hobjects.trans ih.2⟩

/-! ### The whole snapshot -/

/-- What the snapshot of a table is read back to. -/
def restored (t : SymbolTable) : SymbolTable :=
  t.objects.values.foldl restoreObject
    (t.scripts.values.foldl restoreScript (t.restoreFiles t.knownDocuments))

theorem ofSnapshot_snapshot (t : SymbolTable) : ofSnapshot t.snapshot = .ok t.restored := by
  rw [ofSnapshot, snapshot, Snapshot.checkVersion, if_pos rfl]
  rfl

theorem Resourced.restored_eq (h : t.Resourced) :
    ∃ scriptAt objectAt, t.restored = { t.restoreFiles t.knownDocuments with
      scripts := t.scripts, objects := t.objects, scriptAt := scriptAt, objectAt := objectAt } := by
  obtain ⟨hscripts, hobjects⟩ := resources_restoreFiles t t.knownDocuments
  obtain ⟨scriptAt, hfoldScripts⟩ :=
    exists_foldl_restoreScript (t.restoreFiles t.knownDocuments) t.scripts.values
  obtain ⟨objectAt, hfoldObjects⟩ := exists_foldl_restoreObject
    { t.restoreFiles t.knownDocuments with scriptAt := scriptAt, scripts := t.scripts }
    t.objects.values
  refine ⟨scriptAt, objectAt, ?_⟩
  rw [restored, hfoldScripts, hscripts, h.scripts.foldl_set_values, hfoldObjects, hobjects,
    h.objects.foldl_set_values]

theorem Consistent.restored_sources (h : t.Consistent) (hresources : t.Resourced)
    (manual : Manual) : SameSources (t.seedBuiltins manual) (t.restored.seedBuiltins manual) := by
  obtain ⟨scriptAt, objectAt, hrestored⟩ := hresources.restored_eq
  rw [hrestored]
  refine ⟨rfl, rfl, ?_, ?_, rfl, rfl⟩
  · intro uri
    refine (h.contribution?_restoreFiles t.knownDocuments uri).trans ?_
    split
    · rfl
    next hunknown =>
        rw [mem_knownDocuments, not_or, not_not] at hunknown
        exact hunknown.1.symm
  · intro uri
    refine (hashes_restoreFiles t t.knownDocuments uri).trans ?_
    split
    · rfl
    next hunknown =>
        rw [mem_knownDocuments, not_or, not_not, not_not] at hunknown
        exact hunknown.2.symm

theorem SameSources.snapshot_eq {t' : SymbolTable} (h : SameSources t t') :
    t'.snapshot = t.snapshot := by
  have hknown : t'.knownDocuments = t.knownDocuments := by
    refine eq_sortUris (pairwise_sortUris _) (nodup_sortUris _) fun uri => ?_
    have hmem : uri ∈ t'.knownDocuments ↔ uri ∈ t.knownDocuments := by
      rw [mem_knownDocuments, mem_knownDocuments, h.contributions, h.hashes]
    exact hmem.trans mem_sortUris
  have hfile : t'.fileOf = t.fileOf := by
    funext uri
    rw [fileOf, fileOf, h.contributions, h.hashes]
  have hsnapshot : ∀ t : SymbolTable, t.snapshot = { t.snapshot with
      scripts := t.scripts.values, objects := t.objects.values,
      files := t.knownDocuments.map t.fileOf } := fun _ => rfl
  rw [hsnapshot t', hsnapshot t, h.scripts, h.objects, hknown, hfile]
  rfl

theorem Consistent.restored (h : t.Consistent) (hresources : t.Resourced) :
    t.restored.Consistent ∧ t.restored.InBlocks := by
  obtain ⟨edits, hedits⟩ := h.exists_edits_restoreFiles t.knownDocuments
  obtain ⟨scriptAt, objectAt, hrestored⟩ := hresources.restored_eq
  have hfiles : (t.restoreFiles t.knownDocuments).Consistent :=
    hedits ▸ consistent_ofEdits edits
  have hblocks : (t.restoreFiles t.knownDocuments).InBlocks := hedits ▸ inBlocks_ofEdits edits
  rw [hrestored]
  exact ⟨{ hfiles with apart := h.apart }, { hblocks with }⟩

/-- A snapshot of any table that edits lead to can be read back, and a snapshot of what
comes out is the same again. With the same built-ins, the answers are the same as before,
those about definitions for every name that is a macro in at most one document. -/
theorem restored_snapshot (edits : List Edit) :
    let t := ofEdits edits
    (∃ manual, t.seedBuiltins manual = t) ∧
      ∃ restored, ofSnapshot t.snapshot = .ok restored ∧
        restored.snapshot = t.snapshot ∧
        ∀ manual, SameAnswers (t.seedBuiltins manual) (restored.seedBuiltins manual) := by
  intro t
  have hresources : t.Resourced := resourced_ofEdits edits
  have hconsistent : t.Consistent := consistent_ofEdits edits
  have hblocks : t.InBlocks := inBlocks_ofEdits edits
  obtain ⟨hrestored, hrestoredBlocks⟩ := hconsistent.restored hresources
  refine ⟨hresources.exists_seedBuiltins, t.restored, ofSnapshot_snapshot t, ?_, fun manual => ?_⟩
  · exact (hconsistent.restored_sources hresources ⟨[], []⟩).snapshot_eq
  · refine (hconsistent.restored_sources hresources manual).answers ?_ ?_ ?_ ?_
    · exact { hconsistent with }
    · exact { hrestored with }
    · exact { hblocks with }
    · exact { hrestoredBlocks with }

end Gml.SymbolTable
