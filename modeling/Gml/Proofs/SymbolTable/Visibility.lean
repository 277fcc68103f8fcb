import Gml.Proofs.SymbolTable.Restoring

/-!
# Who is visible after a restart

Of several definers of a macro the one that came first is visible, but a snapshot lists
the documents by their addresses. Once it is read back the definers stand in that order,
and so do the declarations of a variable.
-/
namespace Gml.SymbolTable

variable {t : SymbolTable}

theorem Consistent.inBlocks_restoreFiles (h : t.Consistent) (uris : List Uri) :
    (t.restoreFiles uris).InBlocks := by
  obtain ⟨edits, hedits⟩ := h.exists_edits_restoreFiles uris
  rw [hedits]
  exact inBlocks_ofEdits edits

/-- Documents that are read back stand in the order in which they are read, those of them that
have a block. -/
theorem Consistent.restoreFiles_eq_filter (h : t.Consistent) (ownersOf : SymbolTable → List Uri)
    {β : Type} {block : Uri → List β} (hempty : ownersOf {} = [])
    (hhash : ∀ t uri hash, ownersOf (t.setHash uri hash) = ownersOf t)
    (hlast : ∀ t', t'.InBlocks → ∀ uri, uri ∉ ownersOf t' →
      ownersOf (t'.replaceContribution uri (t.fileOf uri).contribution).2 =
        ownersOf t' ++ if (block uri).isEmpty then [] else [uri])
    {uris : List Uri} (hnodup : uris.Nodup) :
    ownersOf (t.restoreFiles uris) = uris.filter fun uri => !(block uri).isEmpty := by
  induction uris using List.reverseRecOn with
  | nil => exact hempty
  | append_singleton rest last ih =>
      obtain ⟨hnew, hrest⟩ := List.nodup_cons.mp (List.nodup_middle.mp hnodup)
      rw [List.append_nil] at hnew hrest
      have hnot : last ∉ ownersOf (t.restoreFiles rest) := by
        rw [ih hrest]
        exact fun hmem => hnew (List.mem_of_mem_filter hmem)
      have hfile : ∀ t' : SymbolTable, ownersOf (restoreFile true t' (t.fileOf last)) =
          ownersOf (t'.replaceContribution last (t.fileOf last).contribution).2 := by
        intro t'
        rcases restoreFile_eq t' (t.fileOf last) with ⟨-, hfile⟩ | ⟨hash, -, hfile⟩
        · rw [hfile]
          rfl
        · rw [hfile, hhash]
          rfl
      rw [restoreFiles_concat, hfile, hlast _ (h.inBlocks_restoreFiles rest) last hnot, ih hrest,
        List.filter_append, List.filter_singleton]
      cases (block last).isEmpty <;> rfl

/-- Of the known documents, those with a block are its owners in the order of addresses. -/
theorem filter_knownDocuments {β : Type} {ownerOf : β → Uri} {block : Uri → List β}
    {owners : List Uri} {records : List β} (h : Blocks ownerOf block owners records)
    (hknown : ∀ uri, t.contribution? uri = none → block uri = []) :
    t.knownDocuments.filter (fun uri => !(block uri).isEmpty) = sortUris owners := by
  refine eq_sortUris ((pairwise_sortUris _).filter _) ((nodup_sortUris _).filter _) fun uri => ?_
  have hnonempty : ((!(block uri).isEmpty) = true) ↔ block uri ≠ [] := by simp
  rw [List.mem_filter, hnonempty, h.mem_iff, and_iff_right_iff_imp]
  intro hne
  exact mem_knownDocuments.mpr (.inl fun hnone => hne (hknown uri hnone))

theorem Consistent.owners_restored (h : t.Consistent) (hresources : t.Resourced)
    (hblocks : t.InBlocks) (name : String) :
    t.restored.owners name = sortUris (t.owners name) ∧
      t.restored.declarers name = sortUris (t.declarers name) := by
  obtain ⟨scriptAt, objectAt, hrestored⟩ := hresources.restored_eq
  rw [hrestored]
  constructor
  · refine (h.restoreFiles_eq_filter (fun t => t.owners name) rfl (fun _ _ _ => rfl)
      (fun t' ht' uri hnot => ?_) (nodup_sortUris _)).trans
        (filter_knownDocuments (hblocks.macros name) fun uri hnone => macrosIn_of_none hnone name)
    rw [ht'.owners_replaceContribution (h.fileOf_belongsTo uri),
      List.filter_bne_eq_self_of_not_mem hnot, if_neg hnot, apply_ite (_ ++ ·), List.append_nil]
    rfl
  · refine (h.restoreFiles_eq_filter (fun t => t.declarers name) rfl (fun _ _ _ => rfl)
      (fun t' ht' uri hnot => ?_) (nodup_sortUris _)).trans
        (filter_knownDocuments (hblocks.declarations name) fun uri hnone =>
          declarationsIn_of_none hnone name)
    rw [ht'.declarers_replaceContribution (h.fileOf_belongsTo uri),
      List.filter_bne_eq_self_of_not_mem hnot]
    rfl

theorem InBlocks.sharedVariable?_eq (h : t.InBlocks) (name : String) :
    t.sharedVariable? name =
      ((t.declarers name).flatMap (t.declarationsIn name)).find? (·.scope != .ofDocument) := by
  rw [← (h.declarations name).eq]
  rfl

theorem Consistent.visibleMacro?_restored (h : t.Consistent) (hresources : t.Resourced)
    (hblocks : t.InBlocks) (name : String) : t.restored.visibleMacro? name =
      (sortUris (t.owners name)).head?.bind fun first => (t.macrosIn name first).head? := by
  have hrestored := (h.restored hresources).2
  have hmacros : t.restored.macrosIn = t.macrosIn :=
    (h.restored_sources hresources ⟨[], []⟩).macrosIn_eq
  rw [hrestored.visibleMacro?_eq, (h.owners_restored hresources hblocks name).1, hmacros]

theorem Consistent.sharedVariable?_restored (h : t.Consistent) (hresources : t.Resourced)
    (hblocks : t.InBlocks) (name : String) : t.restored.sharedVariable? name =
      ((sortUris (t.declarers name)).flatMap (t.declarationsIn name)).find?
        (·.scope != .ofDocument) := by
  have hrestored := (h.restored hresources).2
  have hdeclarations : t.restored.declarationsIn = t.declarationsIn :=
    (h.restored_sources hresources ⟨[], []⟩).declarationsIn_eq
  rw [hrestored.sharedVariable?_eq, (h.owners_restored hresources hblocks name).2, hdeclarations]

/-- After a restart the documents that define a macro, and those that declare a variable,
stand in the order of their addresses, and the first of them is visible. A name keeps its
meaning if they stood in that order before. -/
theorem restored_visibility (edits : List Edit) (name : String) :
    let t := ofEdits edits
    ∃ restored, ofSnapshot t.snapshot = .ok restored ∧
      restored.owners name = sortUris (t.owners name) ∧
      restored.visibleMacro? name =
        (sortUris (t.owners name)).head?.bind (fun first => (t.macrosIn name first).head?) ∧
      restored.declarers name = sortUris (t.declarers name) ∧
      restored.sharedVariable? name = ((sortUris (t.declarers name)).flatMap
        (t.declarationsIn name)).find? (·.scope != .ofDocument) ∧
      (sortUris (t.owners name) = t.owners name → sortUris (t.declarers name) = t.declarers name →
        ∀ manual, (restored.seedBuiltins manual).lookup name = (t.seedBuiltins manual).lookup name) := by
  intro t
  have hresources : t.Resourced := resourced_ofEdits edits
  have hconsistent : t.Consistent := consistent_ofEdits edits
  have hblocks : t.InBlocks := inBlocks_ofEdits edits
  obtain ⟨howners, hdeclarers⟩ := hconsistent.owners_restored hresources hblocks name
  have hvisible := hconsistent.visibleMacro?_restored hresources hblocks name
  have hvariable := hconsistent.sharedVariable?_restored hresources hblocks name
  refine ⟨t.restored, ofSnapshot_snapshot t, howners, hvisible, hdeclarers, hvariable, ?_⟩
  intro hownersSorted hdeclarersSorted manual
  rw [hownersSorted, ← hblocks.visibleMacro?_eq] at hvisible
  rw [hdeclarersSorted, ← hblocks.sharedVariable?_eq] at hvariable
  exact (hconsistent.restored_sources hresources manual).lookup_eq hvisible hvariable

/-- The document `b` came first and owned the macro, but `a` has the lesser address. -/
theorem restart_changes_owner :
    ∃ restored, ofSnapshot (ofEdits rivals).snapshot = .ok restored ∧
      (ofEdits rivals).visibleMacro? "SPEED" = some ⟨"SPEED", "8", .fileStart "b"⟩ ∧
      restored.visibleMacro? "SPEED" = some ⟨"SPEED", "4", .fileStart "a"⟩ := by
  refine ⟨_, ofSnapshot_snapshot _, by decide +kernel, ?_⟩
  have hsorted : ["a", "b"] = sortUris ((ofEdits rivals).owners "SPEED") := by
    have howners : (ofEdits rivals).owners "SPEED" = ["b", "a"] := by decide +kernel
    rw [howners]
    exact eq_sortUris (by decide) (by decide) fun uri => by simp [or_comm]
  rw [(consistent_ofEdits rivals).visibleMacro?_restored (resourced_ofEdits rivals)
    (inBlocks_ofEdits rivals), ← hsorted]
  decide +kernel

end Gml.SymbolTable
