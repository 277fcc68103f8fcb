import Gml.Proofs.SymbolTable.Linking
import Gml.Proofs.SymbolTable.Scripts

/-!
# What a change of one document leaves alone

The records of all documents stand together in one list for each name. To replace what one
document contributes takes its records out of these lists and puts others in. The records
of all other documents stay, in the order in which they were, and so do their
contributions, hashes, uses and scripts.
-/
namespace Gml

namespace SymbolTable

variable {t t' t'' : SymbolTable} {uri : Uri} {c : Contribution}

/-- From one table to the other nothing changes but what belongs to one document. -/
structure Spares (uri : Uri) (t t' : SymbolTable) : Prop where
  contributions : ∀ other, other ≠ uri → t'.contribution? other = t.contribution? other
  hashes : t'.hashes = t.hashes
  sites : ∀ name, (t'.variableSites name).filter (·.location.uri != uri) =
    (t.variableSites name).filter (·.location.uri != uri)
  definers : ∀ name, (listed t'.macros name).filter (·.location.uri != uri) =
    (listed t.macros name).filter (·.location.uri != uri)
  users : ∀ name, (listed t'.users name).filter (· != uri) = (listed t.users name).filter (· != uri)
  scripts : ∀ name script, script.uri ≠ uri →
    (t'.scripts.get? name = some script ↔ t.scripts.get? name = some script)
  scriptAt : t'.scriptAt = t.scriptAt
  objects : t'.objects = t.objects ∧ t'.objectAt = t.objectAt
  builtins : t'.builtinFunctions = t.builtinFunctions ∧ t'.builtinVariables = t.builtinVariables

namespace Spares

theorem refl (uri : Uri) (t : SymbolTable) : Spares uri t t :=
  ⟨fun _ _ => rfl, rfl, fun _ => rfl, fun _ => rfl, fun _ => rfl, fun _ _ _ => Iff.rfl, rfl,
    ⟨rfl, rfl⟩, ⟨rfl, rfl⟩⟩

theorem trans (h : Spares uri t t') (h' : Spares uri t' t'') : Spares uri t t'' where
  contributions other hother := (h'.contributions other hother).trans (h.contributions other hother)
  hashes := h'.hashes.trans h.hashes
  sites name := (h'.sites name).trans (h.sites name)
  definers name := (h'.definers name).trans (h.definers name)
  users name := (h'.users name).trans (h.users name)
  scripts name script hscript :=
    (h'.scripts name script hscript).trans (h.scripts name script hscript)
  scriptAt := h'.scriptAt.trans h.scriptAt
  objects := ⟨h'.objects.1.trans h.objects.1, h'.objects.2.trans h.objects.2⟩
  builtins := ⟨h'.builtins.1.trans h.builtins.1, h'.builtins.2.trans h.builtins.2⟩

end Spares

/-! ### Lists that lose and get records -/

section

variable {β : Type} {keep : β → Bool}

/-- Of the records that are kept none is lost, whichever lists the others are taken from. -/
theorem filter_listed_retainAll (table : Table (List β)) (keep : β → Bool) {γ : Type}
    (items : List γ) (nameOf : γ → String) (name : String) :
    (listed (items.foldl (fun table item => retain table keep (nameOf item)) table) name).filter
      keep = (listed table name).filter keep := by
  rw [listed_retainAll]
  split
  · rw [List.filter_filter]
    simp
  · rfl

theorem filter_splice {new : List β} (hnew : new.filter keep = []) (slot : Nat)
    (records : List β) : (splice slot new records).filter keep = records.filter keep := by
  rw [splice, List.filter_append, List.filter_append, hnew, List.nil_append, ← List.filter_append,
    List.take_append_drop]

end

theorem filter_listed_addOnce (table : Table (List Uri)) (uri : Uri) (used name : String) :
    (listed (addOnce table used uri) name).filter (· != uri) =
      (listed table name).filter (· != uri) := by
  rw [addOnce]
  split
  · rfl
  · rw [append, listed_set]
    split
    next heq => rw [heq, List.filter_append, List.filter_cons_of_neg (by simp), List.filter_nil,
      List.append_nil, listed]
    next => rfl

theorem filter_listed_addOnceAll (table : Table (List Uri)) (uri : Uri) (uses : List SymbolUse)
    (name : String) :
    (listed (uses.foldl (fun table use => addOnce table use.name uri) table) name).filter
      (· != uri) = (listed table name).filter (· != uri) := by
  induction uses generalizing table with
  | nil => rfl
  | cons use rest ih => rw [List.foldl_cons, ih, filter_listed_addOnce]

/-- The records of a document are not those of another one. -/
theorem filter_own_eq_nil {β : Type} {ownerOf : β → Uri} {records : List β}
    (howned : ∀ record ∈ records, ownerOf record = uri) (p : β → Bool) :
    (records.filter p).filter (ownerOf · != uri) = [] := by
  rw [List.filter_eq_nil_iff]
  intro record hrecord
  simp [howned record (List.mem_of_mem_filter hrecord)]

/-! ### The steps of a change -/

namespace Spares

theorem detach (t : SymbolTable) (uri : Uri) : Spares uri t (t.detach uri) where
  contributions other hother := by
    rw [contribution?, contributions_detach, if_neg hother, contribution?]
  hashes := hashes_detach t uri
  sites name := by
    rw [SymbolTable.detach]
    split
    · rfl
    · exact filter_listed_retainAll _ _ _ VariableRecord.name name
  definers name := by
    rw [SymbolTable.detach]
    split
    · rfl
    · exact filter_listed_retainAll _ _ _ MacroRecord.name name
  users name := by
    rw [SymbolTable.detach]
    split
    · rfl
    · exact filter_listed_retainAll _ _ _ SymbolUse.name name
  scripts name script _ := by rw [(resources_detach t uri).1]
  scriptAt := scriptAt_detach t uri
  objects := by
    rw [SymbolTable.detach]
    split
    · exact ⟨rfl, rfl⟩
    · exact ⟨rfl, rfl⟩
  builtins := (resources_detach t uri).2.2

theorem replaceContribution (t : SymbolTable) (belongs : c.BelongsTo uri) :
    Spares uri t (t.replaceContribution uri c).2 := by
  have hcontributions : ∀ other, other ≠ uri → (t.replaceContribution uri c).2.contribution? other =
      (t.detach uri).contribution? other := fun other hother => by
    rw [contribution?_replaceContribution, if_neg hother, contribution?, contribution?,
      contributions_detach, if_neg hother]
  obtain ⟨slots, contributions, hreplaced⟩ := t.exists_replaceContribution_eq uri c
  refine (detach t uri).trans ?_
  rw [hreplaced] at hcontributions ⊢
  refine { refl uri (t.detach uri) with
    contributions := hcontributions, sites := fun name => ?_, definers := fun name => ?_,
    users := filter_listed_addOnceAll _ uri c.uses }
  · have happended := listed_appendAll (t.detach uri).declarations VariableRecord.name
      c.declarations name
    rw [variableSites, ← listed, happended, List.filter_append,
      filter_own_eq_nil belongs.declarations, List.append_nil]
    rfl
  · rw [listed_installMacros_empty, filter_splice (filter_own_eq_nil belongs.macros _)]

/-- The documentation that a document loses is that of its own script. -/
theorem clearScriptDoc {name : String} (hsound : t.scriptLinks.Sound)
    (hlink : t.scriptAt.get? uri = some name) : Spares uri t (t.clearScriptDoc name) := by
  obtain ⟨script, hscript, huri⟩ := mem_scriptLinks.mp (hsound uri name hlink)
  refine { refl uri t with scripts := fun other found hfound => ?_ }
  rw [SymbolTable.clearScriptDoc, Table.get?_modify]
  split
  next heq =>
      rw [heq, hscript, Option.map_some, Option.some.injEq, Option.some.injEq]
      refine iff_of_false ?_ ?_
      · rintro rfl
        exact hfound huri
      · rintro rfl
        exact hfound huri
  next => exact Iff.rfl

theorem clearContribution (hsound : t.scriptLinks.Sound) (uri : Uri) :
    Spares uri t (t.clearContribution uri) := by
  unfold SymbolTable.clearContribution
  dsimp only
  split
  next name hlink =>
      refine (detach t uri).trans (clearScriptDoc ?_ hlink)
      rwa [scriptLinks_detach]
  · exact detach t uri

end Spares

/-! ### References -/

/-- What the documents say, each about itself, is left when the document goes. -/
theorem filter_flatMap_owned {β : Type} {ownerOf : β → Uri} {say : Uri → List β}
    (howned : ∀ other, ∀ b ∈ say other, ownerOf b = other) (uri : Uri) (uris : List Uri) :
    (uris.flatMap say).filter (ownerOf · != uri) = (uris.filter (· != uri)).flatMap say := by
  induction uris with
  | nil => rfl
  | cons other rest ih =>
      rw [List.flatMap_cons, List.filter_append, ih, List.filter_cons]
      split
      next hother =>
          have hall : (say other).filter (ownerOf · != uri) = say other :=
            List.filter_eq_self.mpr fun b hb => by rwa [howned other b hb]
          rw [hall, List.flatMap_cons]
      next hsame =>
          have hnone : (say other).filter (ownerOf · != uri) = [] :=
            List.filter_eq_nil_iff.mpr fun b hb => by rwa [howned other b hb]
          rw [hnone, List.nil_append]

/-- The uses that a document records. -/
def usesIn (t : SymbolTable) (uri : Uri) : List SymbolUse :=
  ((t.contribution? uri).map (·.uses)).getD []

theorem usesIn_owned (h : t.Consistent) (uri : Uri) :
    ∀ use ∈ t.usesIn uri, use.location.uri = uri := by
  intro use huse
  rw [usesIn] at huse
  cases hc : t.contribution? uri with
  | none => rw [hc] at huse; cases huse
  | some c =>
      rw [hc] at huse
      exact (h.belongs uri c hc).uses use huse

/-- The references of a name in other documents, before they are sorted. -/
theorem references_filter_perm (h : t.Consistent) (uri : Uri) (name : String) :
    ((t.references name).filter (·.uri != uri)).Perm
      (((((listed t.users name).filter (· != uri)).flatMap t.usesIn).filter
        (·.name == name)).map (·.location)) := by
  have hunsorted := (List.mergeSort_perm ((((listed t.users name).flatMap t.usesIn).filter
    (·.name == name)).map (·.location)) Location.le).filter (·.uri != uri)
  rw [List.filter_map, List.filter_filter, List.filter_congr fun _ _ => Bool.and_comm ..,
    ← List.filter_filter] at hunsorted
  rw [← filter_flatMap_owned (usesIn_owned h)]
  exact hunsorted

theorem Spares.references (h : Spares uri t t') (ht : t.Consistent) (ht' : t'.Consistent)
    (name : String) :
    (t'.references name).filter (·.uri != uri) = (t.references name).filter (·.uri != uri) := by
  have huses : ((listed t'.users name).filter (· != uri)).flatMap t'.usesIn =
      ((listed t.users name).filter (· != uri)).flatMap t.usesIn := by
    rw [h.users]
    refine List.flatMap_congr fun other hother => ?_
    rw [usesIn, usesIn, h.contributions other (by simpa using (List.mem_filter.mp hother).2)]
  have hperm := references_filter_perm ht' uri name
  rw [huses] at hperm
  exact eq_of_perm_of_sorted ((pairwise_references t' name).filter _)
    ((pairwise_references t name).filter _)
    (hperm.trans (references_filter_perm ht uri name).symm)

/-! ### Reachable tables -/

theorem scriptLinks_sound_foldl_apply (h : t.scriptLinks.Sound) (edits : List Edit) :
    (edits.foldl Edit.apply t).scriptLinks.Sound := by
  induction edits generalizing t with
  | nil => exact h
  | cons edit rest ih => exact ih (scriptLinks_sound_apply h edit)

end SymbolTable

namespace SymbolIndex

open SymbolTable (Edit Spares)

theorem Reachable.ofEdits (edits : List Edit) : Reachable { table := .ofEdits edits } := by
  induction edits using List.reverseRecOn with
  | nil => exact .start
  | append_singleton edits edit ih =>
      rw [SymbolTable.ofEdits_append]
      exact ih.edit edit

/-- Documents lead to scripts that they are the documents of. -/
theorem Reachable.scriptLinks_sound {index : SymbolIndex} (h : index.Reachable) :
    index.table.scriptLinks.Sound := by
  induction h with
  | start => exact nofun
  | edit _ edit ih => exact SymbolTable.scriptLinks_sound_apply ih edit
  | restore _ hearlier htable _ ihearlier =>
      have hlinked : SymbolTable.Linked _ := ⟨hearlier.sound.resourced.scripts,
        fun uri name hlink => SymbolTable.mem_scriptLinks.mp (ihearlier uri name hlink)⟩
      exact fun uri name hlink => SymbolTable.mem_scriptLinks.mpr
        ((hlinked.ofSnapshot_snapshot htable).linked uri name hlink)
  | advance _ target ih =>
      unfold SymbolIndex.advance
      split
      · exact ih
      · exact ih
  | issue _ uri ih => exact ih
  | @accept index ticket _ _ ih =>
      rw [table_accept]
      exact ih
  | @commit index ticket found _ _ hbelongs ih =>
      rw [(commit_eq index ticket found).2]
      split
      · obtain ⟨edits, hinstall⟩ := exists_edits_install index.table ticket.uri hbelongs
        rw [hinstall]
        exact SymbolTable.scriptLinks_sound_foldl_apply ih edits
      · exact ih

/-- Whether a document is read again or taken away, the contributions and hashes of all
others stay, and so do their records among the sites and definers of every name, in their
order, their uses, and the scripts that they are the documents of. The document itself
says afterwards what it is said to say, or nothing. -/
theorem change_spares_other_documents {index : SymbolIndex} (h : index.Reachable) {uri : Uri}
    {c : Contribution} (belongs : c.BelongsTo uri) :
    let t := index.table
    let replaced := (t.replaceContribution uri c).2
    let cleared := t.clearContribution uri
    (Spares uri t replaced ∧ ∀ name, (replaced.references name).filter (·.uri != uri) =
        (t.references name).filter (·.uri != uri)) ∧
      (Spares uri t cleared ∧ ∀ name, (cleared.references name).filter (·.uri != uri) =
        (t.references name).filter (·.uri != uri)) ∧
      replaced.contribution? uri = c.stored ∧ cleared.contribution? uri = none := by
  intro t replaced cleared
  have hconsistent : t.Consistent := h.sound.consistent
  have hreplaced : Spares uri t replaced := .replaceContribution t belongs
  have hcleared : Spares uri t cleared := .clearContribution h.scriptLinks_sound uri
  refine ⟨⟨hreplaced, hreplaced.references hconsistent (hconsistent.replaceContribution belongs)⟩,
    ⟨hcleared, hcleared.references hconsistent (hconsistent.clearContribution uri)⟩, ?_, ?_⟩
  · rw [SymbolTable.contribution?_replaceContribution, if_pos rfl]
  · have hdetached : cleared.contributions = (t.detach uri).contributions := by
      unfold cleared SymbolTable.clearContribution
      dsimp only
      split
      · rfl
      · rfl
    rw [SymbolTable.contribution?, hdetached, SymbolTable.contributions_detach, if_pos rfl]

/-- A document that defines another macro from now on leaves the definer that stood behind
it where it is. -/
theorem rival_spared_when_owner_leaves :
    let rivals : SymbolIndex := { table := .ofEdits SymbolTable.rivals }
    let other := SymbolTable.soleMacro "b" "RANGE" "9"
    rivals.Reachable ∧ other.BelongsTo "b" ∧
      (SymbolTable.listed (rivals.table.replaceContribution "b" other).2.macros "SPEED").filter
        (·.location.uri != "b") = [⟨"SPEED", "4", .fileStart "a"⟩] := by
  intro rivals other
  have hreachable : rivals.Reachable := .ofEdits SymbolTable.rivals
  have belongs : other.BelongsTo "b" := SymbolTable.soleMacro_belongsTo ..
  obtain ⟨⟨hspares, -⟩, -⟩ := change_spares_other_documents hreachable belongs
  refine ⟨hreachable, belongs, ?_⟩
  rw [hspares.definers]
  decide +kernel

end SymbolIndex

end Gml
