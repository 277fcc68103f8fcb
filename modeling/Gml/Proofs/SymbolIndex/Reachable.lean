import Gml.Proofs.SymbolTable.Restoring

/-!
# The states of a symbol index

An index starts empty. Its table is edited or taken from a snapshot of another one,
tickets are given out, and each comes back at most with what belongs to its document. In
all states that this leads to the table is in order and a new ticket is a fresh one.
-/
namespace Gml

theorem SymbolTable.Consistent.resourced_restored {t : SymbolTable} (h : t.Consistent)
    (hresources : t.Resourced) : t.restored.Resourced := by
  obtain ⟨edits, hedits⟩ := h.exists_edits_restoreFiles t.knownDocuments
  obtain ⟨scriptAt, objectAt, hrestored⟩ := hresources.restored_eq
  have hfiles : (t.restoreFiles t.knownDocuments).Resourced := hedits ▸ resourced_ofEdits edits
  rw [hrestored]
  exact ⟨hresources.scripts, hresources.objects, hfiles.builtins⟩

namespace SymbolIndex

open SymbolTable (Edit)

/-! ### What a commit does to the table -/

theorem exists_edits_updateDoc (t : SymbolTable) (uri : Uri) (doc : DocUpdate) :
    ∃ edits : List Edit, updateDoc t uri doc = edits.foldl Edit.apply t := by
  unfold updateDoc
  split
  next doc script _ =>
      refine ⟨[.setScriptDoc script.name doc], ?_⟩
      rw [List.foldl_cons, List.foldl_nil, Edit.apply]
      split
      next t' ht' => rw [ht']; rfl
      next e he => rw [he]; rfl
  next script _ => exact ⟨[.clearScriptDoc script.name], rfl⟩
  · exact ⟨[], rfl⟩

/-- To install what was found is to edit the table. -/
theorem exists_edits_install (t : SymbolTable) (uri : Uri) {found : Commit}
    (hbelongs : ∀ c, found.contribution = some c → c.BelongsTo uri) :
    ∃ edits : List Edit, (install t uri found).2 = edits.foldl Edit.apply t := by
  obtain ⟨contribution, doc, contentHash⟩ := found
  obtain ⟨replacing, hreplacing⟩ : ∃ edits : List Edit,
      (contribution.elim t fun c => (t.replaceContribution uri c).2) =
        edits.foldl Edit.apply t := by
    cases contribution with
    | none => exact ⟨[], rfl⟩
    | some c => exact ⟨[.replaceContribution uri c (hbelongs c rfl)], rfl⟩
  clear hbelongs
  obtain ⟨documenting, hdocumenting⟩ :=
    exists_edits_updateDoc (replacing.foldl Edit.apply t) uri doc
  have hinstall : (install t uri ⟨contribution, doc, contentHash⟩).2 =
      contentHash.elim ((replacing ++ documenting).foldl Edit.apply t)
        (((replacing ++ documenting).foldl Edit.apply t).setHash uri) := by
    rw [List.foldl_append, ← hdocumenting, ← hreplacing]
    cases contribution <;> cases contentHash <;> rfl
  cases contentHash with
  | none => exact ⟨_, hinstall⟩
  | some hash =>
      refine ⟨replacing ++ documenting ++ [.setHash uri hash], ?_⟩
      rw [hinstall, List.foldl_append (l := replacing ++ documenting)]
      rfl

/-! ### Reachable states -/

inductive Reachable : SymbolIndex → Prop
  | start : Reachable {}
  | edit {index : SymbolIndex} (h : Reachable index) (edit : Edit) :
      Reachable { index with table := edit.apply index.table }
  | restore {index earlier : SymbolIndex} {table : SymbolTable} (h : Reachable index)
      (hearlier : Reachable earlier)
      (htable : SymbolTable.ofSnapshot earlier.table.snapshot = .ok table) :
      Reachable { index with table }
  | advance {index : SymbolIndex} (h : Reachable index) (target : Readiness) :
      Reachable (index.advance target).2
  | issue {index : SymbolIndex} (h : Reachable index) (uri : Uri) : Reachable (index.issue uri).2
  | accept {index : SymbolIndex} {ticket : Ticket} (h : Reachable index)
      (hissued : ticket.sequence < index.nextSequence) : Reachable (index.accept ticket).2
  | commit {index : SymbolIndex} {ticket : Ticket} {found : Commit} (h : Reachable index)
      (hissued : ticket.sequence < index.nextSequence)
      (hbelongs : ∀ c, found.contribution = some c → c.BelongsTo ticket.uri) :
      Reachable (index.commit ticket found).2

/-- The table is in order, and no accepted ticket is later than those given out. -/
structure Sound (index : SymbolIndex) : Prop where
  consistent : index.table.Consistent
  inBlocks : index.table.InBlocks
  resourced : index.table.Resourced
  last_lt : ∀ uri, index.last uri < index.nextSequence

namespace Sound

variable {index : SymbolIndex}

theorem foldl_apply (h : index.Sound) (edits : List Edit) :
    { index with table := edits.foldl Edit.apply index.table }.Sound where
  consistent := h.consistent.foldl_apply edits
  inBlocks := SymbolTable.documentary_inBlocks.foldl_apply h.inBlocks edits
  resourced := SymbolTable.documentary_resourced.foldl_apply h.resourced edits
  last_lt := h.last_lt

theorem restore {earlier : SymbolIndex} {table : SymbolTable} (h : index.Sound)
    (hearlier : earlier.Sound)
    (htable : SymbolTable.ofSnapshot earlier.table.snapshot = .ok table) :
    { index with table }.Sound := by
  rw [SymbolTable.ofSnapshot_snapshot, Except.ok.injEq] at htable
  subst htable
  obtain ⟨hconsistent, hblocks⟩ := hearlier.consistent.restored hearlier.resourced
  exact ⟨hconsistent, hblocks, hearlier.consistent.resourced_restored hearlier.resourced, h.last_lt⟩

theorem issue (h : index.Sound) (uri : Uri) : (index.issue uri).2.Sound :=
  { h with last_lt := fun other => Nat.lt_succ_of_lt (h.last_lt other) }

theorem accept {ticket : Ticket} (h : index.Sound) (hissued : ticket.sequence < index.nextSequence) :
    (index.accept ticket).2.Sound := by
  have htable := index.table_accept ticket
  refine ⟨htable ▸ h.consistent, htable ▸ h.inBlocks, htable ▸ h.resourced, fun uri => ?_⟩
  have hnext : (index.accept ticket).2.nextSequence = index.nextSequence := by
    unfold SymbolIndex.accept
    split <;> rfl
  rw [last_accept, hnext]
  split
  · exact hissued
  · exact h.last_lt uri

theorem commit {ticket : Ticket} {found : Commit} (h : index.Sound)
    (hissued : ticket.sequence < index.nextSequence)
    (hbelongs : ∀ c, found.contribution = some c → c.BelongsTo ticket.uri) :
    (index.commit ticket found).2.Sound := by
  rw [(commit_eq index ticket found).2]
  split
  · obtain ⟨edits, hedits⟩ := exists_edits_install index.table ticket.uri hbelongs
    rw [hedits, ← index.table_accept ticket]
    exact (h.accept hissued).foldl_apply edits
  · exact h

end Sound

theorem Reachable.sound {index : SymbolIndex} (h : Reachable index) : index.Sound := by
  induction h with
  | start =>
      exact ⟨SymbolTable.consistent_empty, SymbolTable.inBlocks_empty, .empty, fun _ => Nat.zero_lt_one⟩
  | edit _ edit ih => exact ih.foldl_apply [edit]
  | restore _ _ htable ih ihearlier => exact ih.restore ihearlier htable
  | advance _ target ih =>
      unfold SymbolIndex.advance
      split
      · exact { ih with }
      · exact ih
  | issue _ uri ih => exact ih.issue uri
  | accept _ hissued ih => exact ih.accept hissued
  | commit _ hissued hbelongs ih => exact ih.commit hissued hbelongs

end SymbolIndex

end Gml
