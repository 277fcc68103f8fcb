import Gml.Proofs.SymbolIndex.Installing
import Gml.Proofs.SymbolTable.Keeping

/-!
# Scripts and their documents

A script is registered under its name, and its document is linked to it. Nothing but a
registration makes a script, and an analysis of a document changes at most the signature and
the description of the script that the document is linked to.
-/
namespace Gml

namespace DocUpdate

/-- Two changes one after the other are one. -/
def andThen (update : DocUpdate) : DocUpdate → DocUpdate
  | .unchanged => update
  | later => later

theorem applyTo_andThen (update later : DocUpdate) (script : ScriptRecord) :
    (update.andThen later).applyTo script = later.applyTo (update.applyTo script) := by
  cases later with
  | unchanged => rfl
  | clear => cases update <;> rfl
  | set doc => cases update <;> rfl

@[simp] theorem unchanged_andThen (update : DocUpdate) : unchanged.andThen update = update := by
  cases update <;> rfl

@[simp] theorem andThen_unchanged (update : DocUpdate) : update.andThen .unchanged = update := rfl

@[simp] theorem andThen_self (update : DocUpdate) : update.andThen update = update := by
  cases update <;> rfl

end DocUpdate

namespace SymbolTable

variable {t t' t'' : SymbolTable} {uri other : Uri} {name : String}

/-- Every script bears its key, and a document is linked to a script that has its address. -/
structure Linked (t : SymbolTable) : Prop where
  named : t.scripts.Keyed ScriptRecord.name
  linked : ∀ uri name, t.scriptAt.get? uri = some name →
    ∃ script, t.scripts.get? name = some script ∧ script.uri = uri

/-- The script of a name if its document has an address. -/
def scriptOf? (t : SymbolTable) (uri : Uri) (name : String) : Option ScriptRecord :=
  (t.scripts.get? name).filter (·.uri == uri)

/-- What becomes of the scripts at an address: the one that the document is linked to gets a
change of its documentation, and the link stays. -/
structure Updates (uri : Uri) (update : DocUpdate) (t t' : SymbolTable) : Prop where
  link : t'.scriptAt.get? uri = t.scriptAt.get? uri
  scripts : ∀ name, t'.scriptOf? uri name = if t.scriptAt.get? uri = some name
    then (t.scriptOf? uri name).map update.applyTo else t.scriptOf? uri name

namespace Updates

variable {update later : DocUpdate}

theorem unchanged_of (hlink : t'.scriptAt.get? uri = t.scriptAt.get? uri)
    (hscripts : ∀ name, t'.scriptOf? uri name = t.scriptOf? uri name) :
    Updates uri .unchanged t t' := by
  have hsame : DocUpdate.unchanged.applyTo = id := rfl
  refine ⟨hlink, fun name => ?_⟩
  rw [hscripts, hsame, Option.map_id, id, ite_self]

theorem scriptOf?_eq (h : Updates uri .unchanged t t') (name : String) :
    t'.scriptOf? uri name = t.scriptOf? uri name := by
  have hsame : DocUpdate.unchanged.applyTo = id := rfl
  rw [h.scripts, hsame, Option.map_id, id, ite_self]

theorem of_eq (hscripts : t'.scripts = t.scripts) (hlinks : t'.scriptAt = t.scriptAt) :
    Updates uri .unchanged t t' :=
  unchanged_of (by rw [hlinks]) fun name => by rw [scriptOf?, scriptOf?, hscripts]

theorem refl (uri : Uri) (t : SymbolTable) : Updates uri .unchanged t t := of_eq rfl rfl

theorem trans (h : Updates uri update t t') (h' : Updates uri later t' t'') :
    Updates uri (update.andThen later) t t'' := by
  refine ⟨h'.link.trans h.link, fun name => ?_⟩
  have happly : (update.andThen later).applyTo = later.applyTo ∘ update.applyTo :=
    funext (update.applyTo_andThen later)
  rw [h'.scripts, h.link, h.scripts]
  split
  · rw [Option.map_map, happly]
  · rfl

end Updates

namespace Linked

theorem empty : ({} : SymbolTable).Linked := ⟨.empty, nofun⟩

theorem of_eq (h : t.Linked) (hscripts : t'.scripts = t.scripts)
    (hlinks : t'.scriptAt = t.scriptAt) : t'.Linked := by
  refine ⟨?_, ?_⟩
  · rw [hscripts]
    exact h.named
  · rw [hscripts, hlinks]
    exact h.linked

/-- A script may change in all but its name and its address. -/
theorem change (h : t.Linked) {script changed : ScriptRecord}
    (hscript : t.scripts.get? name = some script) (hname : changed.name = script.name)
    (huri : changed.uri = script.uri) :
    { t with scripts := t.scripts.set name changed }.Linked := by
  refine ⟨h.named.set (hname.trans (h.named name script hscript)), fun uri linked hlink => ?_⟩
  obtain ⟨found, hfound, hat⟩ := h.linked uri linked hlink
  by_cases heq : linked = name
  · subst heq
    rw [hscript, Option.some.injEq] at hfound
    refine ⟨changed, ?_, ?_⟩
    · rw [Table.get?_set, if_pos rfl]
    · rw [huri, hfound, hat]
  · refine ⟨found, ?_, hat⟩
    rw [Table.get?_set, if_neg heq]
    exact hfound

/-- A script with a new name may come with its link. -/
theorem restoreScript (h : t.Linked) {script : ScriptRecord}
    (hnew : t.scripts.get? script.name = none) : (restoreScript t script).Linked := by
  refine ⟨h.named.set rfl, fun uri linked hlink => ?_⟩
  rw [SymbolTable.restoreScript] at hlink ⊢
  dsimp only at hlink ⊢
  rw [Table.get?_set] at hlink
  split at hlink
  next heq =>
      cases hlink
      refine ⟨script, ?_, heq.symm⟩
      rw [Table.get?_set, if_pos rfl]
  next =>
      obtain ⟨found, hfound, hat⟩ := h.linked uri linked hlink
      have hother : linked ≠ script.name := by
        rintro rfl
        rw [hnew] at hfound
        cases hfound
      refine ⟨found, ?_, hat⟩
      rw [Table.get?_set, if_neg hother]
      exact hfound

theorem foldl_restoreScript (h : t.Linked) {scripts : List ScriptRecord}
    (hnodup : (scripts.map ScriptRecord.name).Nodup)
    (hnew : ∀ script ∈ scripts, t.scripts.get? script.name = none) :
    (scripts.foldl SymbolTable.restoreScript t).Linked := by
  induction scripts generalizing t with
  | nil => exact h
  | cons script rest ih =>
      obtain ⟨hfirst, hrest⟩ := List.nodup_cons.mp hnodup
      refine ih (h.restoreScript (hnew script List.mem_cons_self)) hrest fun other hother => ?_
      have hne : other.name ≠ script.name := fun heq =>
        hfirst (heq ▸ List.mem_map_of_mem hother)
      rw [SymbolTable.restoreScript, Table.get?_set, if_neg hne]
      exact hnew other (List.mem_cons_of_mem script hother)

end Linked

/-! ### Registering -/

/-- A registration changes resources only: no object goes, and it makes at most the script that
the kind of the document names. -/
theorem registerIfPossible_eq (t : SymbolTable) (uri : Uri) (kind : DocumentKind) :
    ∃ scripts scriptAt objects objectAt,
      t.registerIfPossible uri kind = { t with scripts, scriptAt, objects, objectAt } ∧
      (∀ name, t.objects.contains name = true → objects.contains name = true) ∧
      (scripts = t.scripts ∧ scriptAt = t.scriptAt ∨
        ∃ name, kind = .script name ∧ t.scripts.get? name = none ∧
          scripts = t.scripts.set name { name, uri } ∧ scriptAt = t.scriptAt.set uri name) := by
  cases kind with
  | script name =>
      rw [registerIfPossible_script]
      cases hname : t.checkNewName name with
      | error e => exact ⟨_, _, _, _, rfl, fun _ => id, .inl ⟨rfl, rfl⟩⟩
      | ok =>
          have hnew := (get?_of_checkNewName hname).1
          exact ⟨_, _, _, _, rfl, fun _ => id, .inr ⟨name, rfl, hnew, rfl, rfl⟩⟩
  | objectEvent object event =>
      rw [registerIfPossible_event]
      split
      · refine ⟨_, _, _, _, rfl, fun name hname => ?_, .inl ⟨rfl, rfl⟩⟩
        rw [Table.contains_set, hname, Bool.or_true]
      · refine ⟨_, _, _, _, rfl, fun name hname => ?_, .inl ⟨rfl, rfl⟩⟩
        rw [Table.contains_set, Table.contains_set, hname, Bool.or_true, Bool.or_true]
      · exact ⟨_, _, _, _, rfl, fun _ => id, .inl ⟨rfl, rfl⟩⟩
  | other => exact ⟨_, _, _, _, rfl, fun _ => id, .inl ⟨rfl, rfl⟩⟩

theorem agrees_registerIfPossible (t : SymbolTable) (uri : Uri) (kind : DocumentKind)
    (other : Uri) : t.Agrees (t.registerIfPossible uri kind) other := by
  obtain ⟨scripts, scriptAt, objects, objectAt, hregister, -, -⟩ :=
    t.registerIfPossible_eq uri kind
  rw [hregister]
  exact ⟨rfl, rfl⟩

theorem Linked.registerIfPossible (h : t.Linked) (uri : Uri) (kind : DocumentKind) :
    (t.registerIfPossible uri kind).Linked := by
  obtain ⟨scripts, scriptAt, objects, objectAt, hregister, -, ⟨rfl, rfl⟩ |
    ⟨name, -, hname, rfl, rfl⟩⟩ := t.registerIfPossible_eq uri kind
  · rw [hregister]
    exact h.of_eq rfl rfl
  · have hnew : t.scripts.get? ({ name, uri } : ScriptRecord).name = none := hname
    rw [hregister]
    exact (h.restoreScript hnew).of_eq rfl rfl

/-- A registration leaves all scripts that there are, and other documents have their links. -/
theorem updates_registerIfPossible (t : SymbolTable) (h : other ≠ uri) (kind : DocumentKind) :
    Updates other .unchanged t (t.registerIfPossible uri kind) := by
  obtain ⟨scripts, scriptAt, objects, objectAt, hregister, -, ⟨rfl, rfl⟩ |
    ⟨name, -, hname, rfl, rfl⟩⟩ := t.registerIfPossible_eq uri kind
  · rw [hregister]
    exact .of_eq rfl rfl
  · rw [hregister]
    refine .unchanged_of ?_ fun found => ?_
    · dsimp only
      rw [Table.get?_set, if_neg h]
    · unfold scriptOf?
      rw [Table.get?_set]
      split
      next heq =>
          subst heq
          rw [hname, Option.filter_some, if_neg, Option.filter_none]
          simpa using Ne.symm h
      · rfl

/-! ### Names that are taken -/

/-- No script can be given a name, for reasons that last. -/
def Taken (t : SymbolTable) (name : String) : Prop :=
  Name.isIdentifier name = false ∨ Name.isReserved name = true ∨ t.scripts.contains name = true ∨
    t.objects.contains name = true ∨ t.builtinFunctions.contains name = true ∨
      t.builtinVariables.contains name = true

namespace Taken

theorem mono (h : t.Taken name) (hscripts : t.scripts.contains name = true →
    t'.scripts.contains name = true) (hobjects : t.objects.contains name = true →
      t'.objects.contains name = true) (hfunctions : t'.builtinFunctions = t.builtinFunctions)
    (hvariables : t'.builtinVariables = t.builtinVariables) : t'.Taken name := by
  rw [Taken, hfunctions, hvariables]
  exact h.imp_right (.imp_right (.imp hscripts (.imp_left hobjects)))

theorem registerIfPossible (h : t.Taken name) (uri : Uri) (kind : DocumentKind) :
    (t.registerIfPossible uri kind).Taken name := by
  obtain ⟨scripts, scriptAt, objects, objectAt, hregister, hobjects, hscripts⟩ :=
    t.registerIfPossible_eq uri kind
  rw [hregister]
  refine h.mono (fun hname => ?_) (hobjects name) rfl rfl
  rcases hscripts with ⟨rfl, -⟩ | ⟨new, -, -, rfl, -⟩
  · exact hname
  · dsimp only
    rw [Table.contains_set, hname, Bool.or_true]

theorem checkNewName (h : t.Taken name) : ∃ e, t.checkNewName name = .error e := by
  rw [SymbolTable.checkNewName]
  split
  · exact ⟨_, rfl⟩
  next hvalid =>
      rw [if_pos]
      · exact ⟨_, rfl⟩
      · rw [exists?]
        rcases h with h | h | h | h | h | h <;> simp_all

/-- To register a script under such a name does nothing. -/
theorem register_eq (h : t.Taken name) (uri : Uri) :
    t.registerIfPossible uri (.script name) = t := by
  obtain ⟨e, he⟩ := h.checkNewName
  rw [registerIfPossible_script, he]

end Taken

/-- Without documents, a name that is refused is refused for good. -/
theorem taken_of_checkNewName (hmacros : t.macros = .empty)
    (hdeclarations : t.declarations = .empty) {e : IndexError}
    (h : t.checkNewName name = .error e) : t.Taken name := by
  rw [checkNewName] at h
  split at h
  next hinvalid =>
      rw [Bool.or_eq_true, Bool.not_eq_true'] at hinvalid
      rcases hinvalid with hword | hreserved
      · exact .inl hword
      · exact .inr (.inl hreserved)
  · split at h
    next hexists =>
        rw [exists?, variableSites, hmacros, hdeclarations] at hexists
        refine .inr (.inr ?_)
        simpa [Table.contains, or_assoc] using hexists
    · cases h

/-- Without documents, a name is taken once a script was to be registered under it. -/
theorem taken_registerIfPossible (hmacros : t.macros = .empty)
    (hdeclarations : t.declarations = .empty) (uri : Uri) (name : String) :
    (t.registerIfPossible uri (.script name)).Taken name := by
  cases hcheck : t.checkNewName name with
  | ok =>
      rw [registerIfPossible_script, hcheck]
      refine .inr (.inr (.inl ?_))
      dsimp only
      rw [Table.contains_set, decide_eq_true rfl, Bool.true_or]
  | error e =>
      exact (taken_of_checkNewName hmacros hdeclarations hcheck).registerIfPossible uri _

/-! ### Removing -/

theorem scriptAt_detach (t : SymbolTable) (uri : Uri) : (t.detach uri).scriptAt = t.scriptAt := by
  rw [detach]
  split <;> rfl

namespace Linked

theorem clearScriptDoc (h : t.Linked) (name : String) : (t.clearScriptDoc name).Linked := by
  rw [SymbolTable.clearScriptDoc, Table.modify]
  split
  next script hscript => exact h.change hscript rfl rfl
  · exact h

theorem removeDocument (h : t.Linked) (uri : Uri) : (t.removeDocument uri).Linked := by
  have hdetached : (t.detach uri).Linked :=
    h.of_eq (resources_detach t uri).1 (scriptAt_detach t uri)
  rw [SymbolTable.removeDocument, clearContribution]
  split
  next name _ => exact (hdetached.clearScriptDoc name).of_eq rfl rfl
  · exact hdetached.of_eq rfl rfl

/-- The link of a script goes with it, and no other document is linked to the script. -/
theorem deleteScript (h : t.Linked) (name : String) :
    (((t.deleteScript name).map Prod.snd).toOption.getD t).Linked := by
  refine deleteScript_induction h fun script hscript => ?_
  refine removeDocument ⟨h.named.erase name, fun uri linked hlink => ?_⟩ script.uri
  dsimp only at hlink ⊢
  rw [Table.get?_erase] at hlink
  split at hlink
  · cases hlink
  next hother =>
      obtain ⟨found, hfound, hat⟩ := h.linked uri linked hlink
      have hne : linked ≠ name := by
        rintro rfl
        rw [hscript, Option.some.injEq] at hfound
        exact hother (hat.symm.trans (congrArg ScriptRecord.uri hfound.symm))
      refine ⟨found, ?_, hat⟩
      rw [Table.get?_erase, if_neg hne]
      exact hfound

theorem deleteObject (h : t.Linked) (name : String) :
    (((t.deleteObject name).map Prod.snd).toOption.getD t).Linked := by
  refine deleteObject_induction h (h.of_eq rfl rfl) fun _ _ uri _ t' ht' => removeDocument ?_ uri
  exact ht'.of_eq rfl rfl

theorem deleteRecordAt (h : t.Linked) (uri : Uri) : (t.deleteRecordAt uri).Linked := by
  rw [SymbolTable.deleteRecordAt]
  split
  · exact h.removeDocument uri
  · refine removeDocument ?_ uri
    exact h.of_eq rfl rfl

theorem prune (h : t.Linked) (files : List SourceFile) : (t.prune files).Linked := by
  rw [SymbolTable.prune]
  refine List.foldlRecOn _ _ (List.foldlRecOn _ _ (List.foldlRecOn _ _ h ?_) ?_) ?_
  · exact fun t ht script _ => ht.deleteScript script.name
  · exact fun t ht name _ => ht.deleteObject name
  · exact fun t ht uri _ => ht.deleteRecordAt uri

theorem registerAll (h : t.Linked) (files : List SourceFile) : (t.registerAll files).Linked :=
  List.foldlRecOn files _ h fun _ ht file _ => ht.registerIfPossible file.uri file.kind

end Linked

/-! ### Reading a snapshot back -/

theorem linked_restoreFiles (files : List SnapshotFile) (usable : Bool) :
    (files.foldl (restoreFile usable) {}).Linked ∧
      (files.foldl (restoreFile usable) {}).scripts = .empty := by
  refine List.foldlRecOn files _ (motive := fun (t : SymbolTable) => t.Linked ∧ t.scripts = .empty)
    ⟨.empty, rfl⟩ fun t ht file _ => ?_
  have hreplaced : (restoreFile usable t file).scripts = t.scripts ∧
      (restoreFile usable t file).scriptAt = t.scriptAt := by
    have hscripts := (resources_replaceContribution t file.uri file.contribution).1
    have hlinks := scriptAt_replaceContribution t file.uri file.contribution
    unfold restoreFile
    dsimp only
    split
    · split
      · exact ⟨hscripts, hlinks⟩
      · exact ⟨hscripts, hlinks⟩
    · exact ⟨hscripts, hlinks⟩
  exact ⟨ht.1.of_eq hreplaced.1 hreplaced.2, hreplaced.1.trans ht.2⟩

/-- A snapshot whose scripts have different names gives scripts that are linked. -/
theorem linked_ofSnapshot {snapshot : Snapshot} (h : ofSnapshot snapshot = .ok t)
    (hnodup : (snapshot.scripts.map ScriptRecord.name).Nodup) : t.Linked := by
  rw [ofSnapshot, Snapshot.checkVersion] at h
  split at h
  · cases h
    obtain ⟨hfiles, hempty⟩ :=
      linked_restoreFiles snapshot.files (snapshot.hasher == ContentHash.hasherName)
    have hscripts := hfiles.foldl_restoreScript hnodup fun script _ => by rw [hempty]; rfl
    exact List.foldlRecOn snapshot.objects _ hscripts fun t ht object _ => ht.of_eq rfl rfl
  · cases h

/-- A table gives linked scripts again when its snapshot is read back. -/
theorem Linked.ofSnapshot_snapshot (h : t.Linked) (htable : ofSnapshot t.snapshot = .ok t') :
    t'.Linked :=
  linked_ofSnapshot htable h.named.nodup_map_values

/-! ### Installing -/

theorem Taken.install (h : t.Taken name) (hlinked : t.Linked) (uri : Uri) (found : Commit) :
    (SymbolIndex.install t uri found).2.Taken name := by
  obtain ⟨scripts, hashes, hinstall, -, hscripts⟩ := SymbolIndex.install_eq hlinked.named uri found
  have hreplaced : ∀ c, (t.replaceContribution uri c).2.objects = t.objects ∧
      (t.replaceContribution uri c).2.builtinFunctions = t.builtinFunctions ∧
      (t.replaceContribution uri c).2.builtinVariables = t.builtinVariables := fun c =>
    (resources_replaceContribution t uri c).2
  rw [hinstall]
  refine h.mono (fun hname => ?_) ?_ ?_ ?_
  · dsimp only
    rw [Table.contains, hscripts]
    split
    · rw [Option.isSome_map]
      exact hname
    · exact hname
  · cases found.contribution with
    | none => exact id
    | some c =>
        dsimp only [Option.elim_some]
        rw [(hreplaced c).1]
        exact id
  · cases found.contribution with
    | none => rfl
    | some c => exact (hreplaced c).2.1
  · cases found.contribution with
    | none => rfl
    | some c => exact (hreplaced c).2.2

theorem Linked.install (h : t.Linked) (uri : Uri) (found : Commit) :
    (SymbolIndex.install t uri found).2.Linked := by
  obtain ⟨scripts, hashes, hinstall, hlinks, hscripts⟩ := SymbolIndex.install_eq h.named uri found
  rw [hinstall]
  refine ⟨fun name script hscript => ?_, fun other linked hlink => ?_⟩
  · rw [hscripts] at hscript
    split at hscript
    · obtain ⟨old, hold, rfl⟩ := Option.map_eq_some_iff.mp hscript
      exact (found.doc.applyTo_place old).1.trans (h.named name old hold)
    · exact h.named name script hscript
  · have hlink' : t.scriptAt.get? other = some linked := (congrArg (·.get? other) hlinks) ▸ hlink
    obtain ⟨script, hscript, hat⟩ := h.linked other linked hlink'
    dsimp only
    rw [hscripts, hscript, Option.map_some]
    split
    · exact ⟨_, rfl, (found.doc.applyTo_place script).2.trans hat⟩
    · exact ⟨_, rfl, hat⟩

/-- An install changes the documentation of the script of its document. -/
theorem updates_install (h : t.Linked) (uri : Uri) (found : Commit) :
    Updates uri found.doc t (SymbolIndex.install t uri found).2 := by
  obtain ⟨scripts, hashes, hinstall, hlinks, hscripts⟩ := SymbolIndex.install_eq h.named uri found
  rw [hinstall]
  refine ⟨congrArg (·.get? uri) hlinks, fun name => ?_⟩
  rw [scriptOf?, hscripts, scriptOf?]
  split
  · cases t.scripts.get? name with
    | none => rfl
    | some script =>
        have huri := (found.doc.applyTo_place script).2
        rw [Option.map_some, Option.filter_some, Option.filter_some, huri]
        split <;> rfl
  · rfl

theorem updates_install_other (h : t.Linked) (hother : other ≠ uri) (found : Commit) :
    Updates other .unchanged t (SymbolIndex.install t uri found).2 := by
  obtain ⟨scripts, hashes, hinstall, hlinks, hscripts⟩ := SymbolIndex.install_eq h.named uri found
  rw [hinstall]
  refine .unchanged_of (congrArg (·.get? other) hlinks) fun name => ?_
  rw [scriptOf?, hscripts, scriptOf?]
  split
  next hlink =>
      obtain ⟨script, hscript, hat⟩ := h.linked uri name hlink
      have huri := (found.doc.applyTo_place script).2
      rw [hscript, Option.map_some, Option.filter_some, Option.filter_some, huri, hat, if_neg,
        if_neg]
      · simpa using hother.symm
      · simpa using hother.symm
  · rfl

end SymbolTable

end Gml
