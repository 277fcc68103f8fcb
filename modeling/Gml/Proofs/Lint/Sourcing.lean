import Gml.Proofs.Lint.Arity
import Gml.Proofs.Lint.Places
import Gml.Proofs.SymbolIndex.Reachable
import Gml.Proofs.SymbolTable.Keeping

/-!
# Contributions that come from texts

As long as contributions come from rounds of analysis only, and resources come and go around
them, what the table keeps of each document was read in a text without errors. So the uses of
a name in all documents stand at different places, and where a name is recorded as a macro or
a variable a use declares it.
-/
namespace Gml

theorem LintDocument.found_contribution {d : LintDocument} {passes : Passes} {c : Contribution}
    (h : (d.found passes).contribution = some c) : (parse d.text).ok = true ∧ d.reading = c := by
  obtain ⟨hreads, hc⟩ := Option.ite_none_right_eq_some.mp h
  rw [readsNames, Bool.and_eq_true] at hreads
  exact ⟨hreads.1, Option.some.inj hc⟩

namespace SymbolTable

variable {t : SymbolTable}

/-- What is kept of each document was read in a text without errors. -/
structure FromTexts (t : SymbolTable) : Prop where
  consistent : t.Consistent
  reading : ∀ uri c, t.contribution? uri = some c →
    ∃ d : LintDocument, (parse d.text).ok = true ∧ d.uri = uri ∧ d.reading = c

theorem fromTexts_empty : ({} : SymbolTable).FromTexts := ⟨consistent_empty, nofun⟩

/-! ### Changes of resources -/

/-- No contribution is kept that was not kept before. -/
def Keeps (t t' : SymbolTable) : Prop :=
  ∀ uri c, t'.contribution? uri = some c → t.contribution? uri = some c

theorem Drops.keeps {t' : SymbolTable} (h : t.Drops t') : t.Keeps t' := by
  intro uri c hc
  rcases h uri with hagrees | hforgets
  · rw [← hagrees.1]
    exact hc
  · rw [hforgets.1] at hc
    cases hc

theorem keeps_of_eq {t' : SymbolTable} (h : t'.contributions = t.contributions) : t.Keeps t' := by
  intro uri c hc
  rwa [contribution?, h] at hc

/-- Edits of resources put no contribution into the table. -/
theorem Edit.keeps {edit : Edit} (h : ∀ uri c belongs, edit ≠ .replaceContribution uri c belongs)
    (t : SymbolTable) : t.Keeps (edit.apply t) := by
  cases edit with
  | seedBuiltins manual => exact keeps_of_eq rfl
  | createScript name uri =>
      exact attempt (keeps_of_eq rfl) fun _ ht' => (drops_createScript ht').keeps
  | deleteScript name => exact (drops_deleteScript t name).keeps
  | createObject name =>
      exact attempt (keeps_of_eq rfl) fun _ ht' => (drops_createObject ht').keeps
  | addEvent name uri => exact attempt (keeps_of_eq rfl) fun _ ht' => (drops_addEvent ht').keeps
  | deleteObject name => exact (drops_deleteObject t name).keeps
  | deleteRecordAt uri => exact (drops_deleteRecordAt t uri).keeps
  | clearContribution uri =>
      -- The hash goes too when the document is removed; the contributions are the same.
      exact (drops_removeDocument t uri).keeps
  | replaceContribution uri c belongs => exact absurd rfl (h uri c belongs)
  | setScriptDoc name doc =>
      exact attempt (keeps_of_eq rfl) fun _ ht' =>
        keeps_of_eq (SameDocuments.of_setScriptDoc ht').contributions
  | clearScriptDoc name => exact keeps_of_eq rfl
  | setHash uri hash => exact keeps_of_eq rfl

theorem FromTexts.edit (h : t.FromTexts) {edit : Edit}
    (hedit : ∀ uri c belongs, edit ≠ .replaceContribution uri c belongs) :
    (edit.apply t).FromTexts :=
  ⟨h.consistent.apply edit, fun uri c hc => h.reading uri c (Edit.keeps hedit t uri c hc)⟩

/-- To install what a round found of its own document. -/
theorem FromTexts.install (h : t.FromTexts) (d : LintDocument) (passes : Passes) :
    (SymbolIndex.install t d.uri (d.found passes)).2.FromTexts := by
  have hbelongs : ∀ c, (d.found passes).contribution = some c → c.BelongsTo d.uri := by
    intro c hc
    rw [← (LintDocument.found_contribution hc).2]
    exact Names.contribution_belongsTo _
  refine ⟨?_, fun uri c hc => ?_⟩
  · obtain ⟨edits, hedits⟩ := SymbolIndex.exists_edits_install t d.uri hbelongs
    rw [hedits]
    exact h.consistent.foldl_apply edits
  · rw [SymbolIndex.contribution?_install] at hc
    split at hc
    next huri =>
        cases hfound : (d.found passes).contribution with
        | none =>
            rw [hfound] at hc
            exact h.reading uri c hc
        | some read =>
            rw [hfound] at hc
            obtain ⟨rfl, -⟩ := Contribution.stored_eq_some_iff.mp hc
            obtain ⟨hok, hreading⟩ := LintDocument.found_contribution hfound
            exact ⟨d, hok, huri.symm, hreading⟩
    · exact h.reading uri c hc

/-! ### Where names are used -/

theorem mem_scanUses_iff {name : String} {use : SymbolUse} :
    use ∈ t.scanUses name ↔
      use.name = name ∧ ∃ uri c, t.contribution? uri = some c ∧ use ∈ c.uses := by
  rw [scanUses, Table.mem_collect_iff]
  simp only [List.mem_filter, beq_iff_eq, contribution?]
  constructor
  · rintro ⟨uri, c, hc, huse, hname⟩
    exact ⟨hname, uri, c, hc, huse⟩
  · rintro ⟨hname, uri, c, hc, huse⟩
    exact ⟨uri, c, hc, huse, hname⟩

namespace FromTexts

/-- No two uses of a name stand at the same place. -/
theorem locations_nodup (h : t.FromTexts) (name : String) :
    ((t.scanUses name).map SymbolUse.location).Nodup := by
  have hstored : ∀ entry ∈ t.contributions.entries, t.contribution? entry.1 = some entry.2 :=
    fun entry hentry => (Table.get?_eq_some_iff _ _ _).mpr hentry
  rw [scanUses, Table.collect, List.map_flatMap, List.Nodup, List.pairwise_flatMap]
  constructor
  · intro entry hentry
    obtain ⟨d, hok, -, hreading⟩ := h.reading _ _ (hstored entry hentry)
    have hnodup := d.locations_nodup hok
    rw [hreading] at hnodup
    exact hnodup.sublist (List.filter_sublist.map _)
  · have hkeys := List.pairwise_map.mp t.contributions.nodup
    refine hkeys.imp_of_mem fun {entry other} hentry hother hne => ?_
    intro location hlocation location' hlocation' heq
    obtain ⟨use, huse, rfl⟩ := List.mem_map.mp hlocation
    obtain ⟨use', huse', rfl⟩ := List.mem_map.mp hlocation'
    have hbelongs := h.consistent.belongs _ _ (hstored entry hentry)
    have hbelongs' := h.consistent.belongs _ _ (hstored other hother)
    apply hne
    rw [← hbelongs.uses use (List.mem_of_mem_filter huse), heq,
      hbelongs'.uses use' (List.mem_of_mem_filter huse')]

theorem location_ne_fileStart (h : t.FromTexts) {name : String} {use : SymbolUse}
    (huse : use ∈ t.scanUses name) (uri : Uri) : use.location ≠ .fileStart uri := by
  obtain ⟨-, other, c, hc, hmem⟩ := mem_scanUses_iff.mp huse
  obtain ⟨d, hok, -, rfl⟩ := h.reading other c hc
  exact d.location_ne_fileStart hok hmem uri

/-- A macro is recorded where a use declares it. -/
theorem declared_of_macro (h : t.FromTexts) {name : String} {record : MacroRecord}
    (hrecord : record ∈ listed t.macros name) :
    ⟨name, .declaration, record.location⟩ ∈ t.scanUses name := by
  have hscan := (h.consistent.macros.perm name).mem_iff.mp hrecord
  obtain ⟨uri, c, hc, hmem⟩ := (Table.mem_collect_iff _ _ _).mp hscan
  obtain ⟨hvisible, hname⟩ := List.mem_filter.mp hmem
  obtain ⟨d, -, -, rfl⟩ := h.reading uri c hc
  rw [← eq_of_beq hname]
  exact mem_scanUses_iff.mpr ⟨rfl, uri, _, hc, Names.contribution_macros_used _ record hvisible⟩

/-- A variable is recorded where a use declares it. -/
theorem declared_of_variable (h : t.FromTexts) {name : String} {record : VariableRecord}
    (hrecord : record ∈ t.variableSites name) :
    ⟨name, .declaration, record.location⟩ ∈ t.scanUses name := by
  have hscan := (h.consistent.declarations.perm name).mem_iff.mp hrecord
  obtain ⟨uri, c, hc, hmem⟩ := (Table.mem_collect_iff _ _ _).mp hscan
  obtain ⟨hdeclared, hname⟩ := List.mem_filter.mp hmem
  obtain ⟨d, -, -, rfl⟩ := h.reading uri c hc
  rw [← eq_of_beq hname]
  exact mem_scanUses_iff.mpr ⟨rfl, uri, _, hc, Names.contribution_used _ record hdeclared⟩

end FromTexts

end SymbolTable

/-! ### Rounds and resources -/

namespace SymbolIndex

variable {index : SymbolIndex}

/-- A round of analysis of a document under its own ticket, or what puts no contribution into
the table. -/
def Act.Sourced : Act → Prop
  | .edit (.replaceContribution _ _ _) => False
  | .restore _ => False
  | .lint cycle => cycle.ticket.uri = cycle.document.uri
  | _ => True

theorem Act.fromTexts_apply {act : Act} (hact : act.Sourced) (h : index.table.FromTexts) :
    (act.apply index).table.FromTexts := by
  cases act with
  | edit change =>
      refine h.edit ?_
      rintro uri c belongs rfl
      exact hact
  | restore snapshot => exact hact.elim
  | advance target =>
      have htable : (index.advance target).2.table = index.table := by
        unfold SymbolIndex.advance
        split <;> rfl
      rw [Act.apply, htable]
      exact h
  | issue uri => exact h
  | lint cycle =>
      have huri : cycle.ticket.uri = cycle.document.uri := hact
      rw [Act.apply, Lint.Cycle.run, (cycle.document.runCycle_eq index cycle.ticket _ _).1,
        (commit_eq index cycle.ticket _).2, huri]
      split
      · exact h.install cycle.document cycle.passes
      · exact h

theorem fromTexts_ofActs {acts : List Act} (hacts : ∀ act ∈ acts, act.Sourced) :
    (ofActs acts).table.FromTexts := by
  induction acts using List.reverseRecOn with
  | nil => exact SymbolTable.fromTexts_empty
  | append_singleton before act ih =>
      rw [ofActs, List.foldl_append, List.foldl_cons, List.foldl_nil]
      refine Act.fromTexts_apply (hacts act ?_) (ih fun other hother => hacts other ?_)
      · exact List.mem_append_right _ List.mem_cons_self
      · exact List.mem_append_left _ hother

end SymbolIndex

end Gml
