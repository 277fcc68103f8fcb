import Gml.Proofs.SymbolTable.Completions
import Gml.Proofs.SymbolTable.Restoring

/-!
# Completion and lookup

Completion goes through all the tables and hides a name that an earlier one has; lookup asks
the tables for one name after the other. Both give the same answer, as every record is filed
under its own name. This holds whatever was done to the table, even if documents were said to
contribute records that lie elsewhere, or a snapshot was read that no table ever had.
-/
namespace Gml

/-- How a name is offered that stands for a record. -/
def SymbolRecord.completionKind : SymbolRecord → CompletionKind
  | .script _ => .script
  | .object _ => .object
  | .macroDef _ => .macroDef
  | .builtinFunction _ => .function
  | .builtinVariable _ => .builtinVariable
  | .variable _ => .variable

namespace SymbolTable

variable {t : SymbolTable}

theorem kind_offer (record : SymbolRecord) : (offer record).kind = record.completionKind := by
  cases record <;> rfl

/-! ### Whatever is done to the table -/

/-- One change. Contributions and snapshots may be any. -/
inductive Change where
  | edit (edit : Edit)
  | contribute (uri : Uri) (c : Contribution)
  | restore (snapshot : Snapshot)

/-- The table after a change; a snapshot that cannot be read changes nothing. -/
def Change.apply (t : SymbolTable) : Change → SymbolTable
  | .edit change => change.apply t
  | .contribute uri c => (t.replaceContribution uri c).2
  | .restore snapshot => (ofSnapshot snapshot).toOption.getD t

/-- The table that changes lead to from the empty one. -/
def ofChanges (changes : List Change) : SymbolTable := changes.foldl Change.apply {}

theorem named_empty : ({} : SymbolTable).Named := ⟨nofun, nofun⟩

/-- What is left in the lists was in them. -/
theorem mem_listed_of_retainAll {β γ : Type} {record : β} {table : Table (List β)}
    {keep : β → Bool} {items : List γ} {name : String} (nameOf : γ → String)
    (h : record ∈ listed (items.foldl (fun table item => retain table keep (nameOf item)) table)
      name) : record ∈ listed table name := by
  rw [listed_retainAll] at h
  split at h
  · exact List.mem_of_mem_filter h
  · exact h

namespace Named

theorem detach (h : t.Named) (uri : Uri) : (t.detach uri).Named := by
  rw [SymbolTable.detach]
  split
  · exact h
  next c _ =>
      refine ⟨fun name record hrecord => ?_, fun name site hsite => ?_⟩
      · exact h.macros name record (mem_listed_of_retainAll MacroRecord.name hrecord)
      · exact h.declarations name site (mem_listed_of_retainAll VariableRecord.name hsite)

theorem replaceContribution (h : t.Named) (uri : Uri) (c : Contribution) :
    (t.replaceContribution uri c).2.Named := by
  have hdetached := h.detach uri
  obtain ⟨slots, contributions, hreplaced⟩ := t.exists_replaceContribution_eq uri c
  rw [hreplaced]
  refine ⟨fun name record hrecord => ?_, fun name site hsite => ?_⟩
  · rw [listed_installMacros_empty, splice, List.mem_append, List.mem_append] at hrecord
    rcases hrecord with hbefore | hnew | hafter
    · exact hdetached.macros name record (List.mem_of_mem_take hbefore)
    · exact eq_of_beq (List.mem_filter.mp hnew).2
    · exact hdetached.macros name record (List.mem_of_mem_drop hafter)
  · rw [listed_appendAll _ VariableRecord.name, List.mem_append] at hsite
    rcases hsite with hold | hnew
    · exact hdetached.declarations name site hold
    · exact eq_of_beq (List.mem_filter.mp hnew).2

end Named

theorem documentary_named : Documentary Named where
  same ht hsame := ⟨by rw [hsame.macros]; exact ht.macros,
    by rw [hsame.declarations]; exact ht.declarations⟩
  replaced {_ uri c} ht _ := ht.replaceContribution uri c

/-- Every record is filed under its own name. -/
structure Filed (t : SymbolTable) : Prop where
  named : t.Named
  resourced : t.Resourced

/-- A file read back is a contribution, and perhaps a hash. -/
theorem exists_hashes_restoreFile (usable : Bool) (t : SymbolTable) (file : SnapshotFile) :
    ∃ hashes, restoreFile usable t file =
      { (t.replaceContribution file.uri file.contribution).2 with hashes } := by
  unfold restoreFile
  dsimp only
  split
  · split
    · exact ⟨_, rfl⟩
    · exact ⟨_, rfl⟩
  · exact ⟨_, rfl⟩

namespace Filed

theorem replaceContribution (h : t.Filed) (uri : Uri) (c : Contribution) :
    (t.replaceContribution uri c).2.Filed :=
  ⟨h.named.replaceContribution uri c, h.resourced.replaceContribution uri c⟩

theorem restoreFile (h : t.Filed) (usable : Bool) (file : SnapshotFile) :
    (SymbolTable.restoreFile usable t file).Filed := by
  have hreplaced := h.replaceContribution file.uri file.contribution
  obtain ⟨hashes, hfile⟩ := exists_hashes_restoreFile usable t file
  rw [hfile]
  exact ⟨{ hreplaced.named with }, { hreplaced.resourced with }⟩

/-- What is read from a snapshot is filed in order, whoever wrote the snapshot. -/
theorem ofSnapshot {snapshot : Snapshot} (h : SymbolTable.ofSnapshot snapshot = .ok t) :
    t.Filed := by
  rw [SymbolTable.ofSnapshot, Snapshot.checkVersion] at h
  split at h
  next =>
      cases h
      refine List.foldlRecOn snapshot.objects _ (List.foldlRecOn snapshot.scripts _
        (List.foldlRecOn snapshot.files _ ?_ ?_) ?_) ?_
      · exact ⟨named_empty, .empty⟩
      · exact fun t ht file _ => ht.restoreFile _ file
      · exact fun t ht script _ => ⟨{ ht.named with },
          { ht.resourced with scripts := ht.resourced.scripts.set rfl }⟩
      · exact fun t ht object _ => ⟨{ ht.named with },
          { ht.resourced with objects := ht.resourced.objects.set rfl }⟩
  next => cases h

theorem apply (h : t.Filed) (change : Change) : (change.apply t).Filed := by
  cases change with
  | edit edit => exact ⟨documentary_named.apply h.named edit,
      documentary_resourced.apply h.resourced edit⟩
  | contribute uri c => exact h.replaceContribution uri c
  | restore snapshot => exact attempt h fun _ => ofSnapshot

end Filed

theorem filed_ofChanges (changes : List Change) : (ofChanges changes).Filed :=
  List.foldlRecOn changes _ ⟨named_empty, .empty⟩ fun _ ht change _ => ht.apply change

/-! ### Completion agrees with lookup -/

theorem pairwise_lt_completions (t : SymbolTable) (start : String) :
    (t.completions start).Pairwise fun a b => a.label < b.label := by
  have hdistinct := List.pairwise_map.mp (nodup_labels_completions t start)
  exact (pairwise_completions t start).imp₂ (fun _ _ => lt_of_le_of_ne) hdistinct

theorem label_offer_of_lookup (h : t.Filed) {name : String} {record : SymbolRecord}
    (hlookup : t.lookup name = some record) : (offer record).label = name := by
  have hfind := find?_candidates h.resourced h.named name
  rw [hlookup, Option.map_some] at hfind
  exact eq_of_beq (List.find?_eq_some_iff_append.mp hfind).1

/-- What is offered for a start is strictly sorted. Offered are the names with this start
that stand for something, each as what it stands for. -/
theorem completions_agree_with_lookup (changes : List Change) (start : String) :
    let t := ofChanges changes
    (t.completions start).Pairwise (fun a b => a.label < b.label) ∧
      (∀ name, name ∈ (t.completions start).map (·.label) ↔
        start.toList <+: name.toList ∧ ∃ record, t.lookup name = some record) ∧
      ∀ entry ∈ t.completions start,
        (t.lookup entry.label).map SymbolRecord.completionKind = some entry.kind := by
  intro t
  have h : t.Filed := filed_ofChanges changes
  refine ⟨pairwise_lt_completions t start, fun name => ?_, fun entry hentry => ?_⟩
  · rw [← List.isPrefixOf_iff_prefix, ← startsWith, List.mem_map]
    constructor
    · rintro ⟨entry, hentry, rfl⟩
      obtain ⟨hstart, hoffer⟩ := (mem_completions h.resourced h.named).mp hentry
      obtain ⟨record, hlookup, -⟩ := Option.map_eq_some_iff.mp hoffer
      exact ⟨hstart, record, hlookup⟩
    · rintro ⟨hstart, record, hlookup⟩
      have hlabel := label_offer_of_lookup h hlookup
      refine ⟨offer record, (mem_completions h.resourced h.named).mpr ?_, hlabel⟩
      rw [hlabel, hlookup]
      exact ⟨hstart, rfl⟩
  · obtain ⟨-, hoffer⟩ := (mem_completions h.resourced h.named).mp hentry
    obtain ⟨record, hlookup, rfl⟩ := Option.map_eq_some_iff.mp hoffer
    rw [hlookup, Option.map_some, kind_offer]

end SymbolTable

end Gml
