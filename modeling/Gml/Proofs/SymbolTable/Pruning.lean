import Gml.Proofs.SymbolTable.Deleting

/-!
# Cutting a table down to a project

A table that was read from a snapshot is cut down to the files of the project. What is left then
belongs to these files. What the snapshot kept of them is left too, unless it is an event of an
object that goes as a whole, or the documentation of a script that shares its name with one that
goes.
-/
namespace Gml

namespace SymbolTable

variable {t t' : SymbolTable} {uri : Uri} {name : String}

/-! ### All rounds -/

section

variable {files : List SourceFile}

/-- The objects that some files have events of. -/
def objectNames (files : List SourceFile) : List String :=
  files.filterMap fun file =>
    match file.kind with
    | .objectEvent object _ => some object
    | _ => none

theorem mem_objectNames :
    name ∈ objectNames files ↔ ∃ file ∈ files, ∃ event, file.kind = .objectEvent name event := by
  rw [objectNames, List.mem_filterMap]
  refine exists_congr fun file => and_congr_right fun _ => ?_
  cases file.kind <;> simp

theorem prune_eq (t : SymbolTable) (files : List SourceFile) :
    t.prune files = ((t.pruneScripts (files.map (·.uri))).pruneObjects
      (objectNames files)).pruneDocuments (files.map (·.uri)) := rfl

/-- An event of an object that goes as a whole. -/
def Uprooted (t t' : SymbolTable) (uri : Uri) : Prop :=
  ∃ name object, t.objects.get? name = some object ∧ uri ∈ object.eventUris ∧
    t'.objects.get? name = none

theorem mem_prune_scripts (h : t.scripts.Keyed ScriptRecord.name) :
    uri ∈ (t.prune files).scriptLinks.documents name ↔
      uri ∈ t.scriptLinks.documents name ∧ uri ∈ files.map (·.uri) := by
  rw [prune_eq, scriptLinks_pruneDocuments, scriptLinks_pruneObjects, mem_pruneScripts h]

/-- The objects that are left are those that the files have events of. -/
theorem contains_prune (t : SymbolTable) (files : List SourceFile) (name : String) :
    (t.prune files).objects.contains name = true ↔
      t.objects.contains name = true ∧ name ∈ objectNames files := by
  rw [prune_eq, contains_pruneDocuments, Table.contains, objects_pruneObjects,
    objects_pruneScripts]
  split
  next hlisted => exact (and_iff_left hlisted).symm
  next hlisted => exact iff_of_false Bool.false_ne_true fun hand => hlisted hand.2

/-- What is left of the objects are their events that are files. -/
theorem mem_prune_events (h : t.eventLinks.Complete) :
    uri ∈ (t.prune files).eventLinks.documents name ↔
      uri ∈ t.eventLinks.documents name ∧ name ∈ objectNames files ∧
        uri ∈ files.map (·.uri) := by
  have hscripts := eventLinks_pruneScripts t (files.map (·.uri))
  have hcomplete : (t.pruneScripts (files.map (·.uri))).eventLinks.Complete := by rwa [hscripts]
  rw [prune_eq, mem_pruneDocuments (complete_pruneObjects hcomplete _), mem_eventLinks,
    objects_pruneObjects, objects_pruneScripts, mem_eventLinks, ← and_assoc]
  refine and_congr_left fun _ => ?_
  split
  next hlisted => exact (and_iff_left hlisted).symm
  next hlisted => simp [hlisted]

theorem loses_prune (h : t.scripts.Keyed ScriptRecord.name) (files : List SourceFile) :
    Loses (fun uri => uri ∉ files.map (·.uri) ∨ t.Uprooted (t.prune files) uri) t
      (t.prune files) := by
  refine ((loses_pruneScripts h fun uri => .inl).trans (loses_pruneObjects ?_)).trans
    (loses_pruneDocuments (fun uri => .inl) _)
  intro name hunlisted uri hevent
  rw [eventLinks_pruneScripts] at hevent
  obtain ⟨object, hobject, hmem⟩ := mem_eventLinks.mp hevent
  refine .inr ⟨name, object, hobject, hmem, ?_⟩
  by_contra hleft
  have hcontains := Option.isSome_iff_ne_none.mpr hleft
  exact hunlisted ((contains_prune t files name).mp hcontains).2

end

end SymbolTable

/-! ### Snapshots that are read -/

namespace Links

variable {links : Links} {name : String} {uri : Uri}

/-- A resource comes with its documents, in the place of one of the same name. -/
def assign (links : Links) (name : String) (uris : List Uri) : Links where
  documents owner := if owner = name then uris else links.documents owner
  owner? uri := if uri ∈ uris then some name else links.owner? uri

/-- Resources that come one after the other. -/
def assigned (resources : List (String × List Uri)) : Links :=
  resources.foldl (fun links resource => links.assign resource.1 resource.2)
    ⟨fun _ => [], fun _ => none⟩

variable {resources : List (String × List Uri)}

theorem assigned_concat (resources : List (String × List Uri)) (resource : String × List Uri) :
    assigned (resources ++ [resource]) = (assigned resources).assign resource.1 resource.2 := by
  rw [assigned, List.foldl_append]
  rfl

/-- A resource that has a document, or that a document leads to, is one of those that came. -/
theorem exists_of_assigned
    (h : uri ∈ (assigned resources).documents name ∨ (assigned resources).owner? uri = some name) :
    ∃ resource ∈ resources, resource.1 = name ∧ uri ∈ resource.2 := by
  induction resources using List.reverseRecOn with
  | nil => exact h.elim nofun nofun
  | append_singleton resources last ih =>
      rw [assigned_concat, assign] at h
      have hcases : (last.1 = name ∧ uri ∈ last.2) ∨
          uri ∈ (assigned resources).documents name ∨
            (assigned resources).owner? uri = some name := by
        rcases h with h | h
        · dsimp only at h
          split at h
          next heq => exact .inl ⟨heq.symm, h⟩
          next => exact .inr (.inl h)
        · dsimp only at h
          split at h
          next hmem => exact .inl ⟨Option.some.inj h, hmem⟩
          next => exact .inr (.inr h)
      rcases hcases with hlast | hbefore
      · exact ⟨last, by simp, hlast⟩
      · obtain ⟨resource, hmem, hresource⟩ := ih hbefore
        exact ⟨resource, List.mem_append_left _ hmem, hresource⟩

/-- Resources without common documents are found at all their documents. -/
theorem complete_assigned (h : resources.Pairwise fun a b => ∀ uri ∈ a.2, uri ∉ b.2) :
    (assigned resources).Complete := by
  induction resources using List.reverseRecOn with
  | nil => exact fun _ _ => nofun
  | append_singleton resources last ih =>
      obtain ⟨hbefore, -, hlast⟩ := List.pairwise_append.mp h
      intro uri name hmem
      rw [assigned_concat, assign] at hmem ⊢
      dsimp only at hmem ⊢
      split at hmem
      next heq => rw [if_pos hmem, heq]
      next =>
          obtain ⟨resource, hresource, -, hold⟩ := exists_of_assigned (.inl hmem)
          rw [if_neg (hlast resource hresource last (List.mem_singleton_self last) uri hold)]
          exact ih hbefore uri name hmem

end Links

namespace Snapshot

/-- Scripts have different addresses, and no event of an object is an event of another one or the
address of a script. -/
structure Apart (s : Snapshot) : Prop where
  scripts : (s.scripts.map ScriptRecord.uri).Nodup
  events : s.objects.Pairwise fun a b => ∀ uri ∈ a.eventUris, uri ∉ b.eventUris
  resources : ∀ script ∈ s.scripts, ∀ object ∈ s.objects, script.uri ∉ object.eventUris

/-- The scripts of a snapshot, each with its document. -/
def scriptDocuments (s : Snapshot) : List (String × List Uri) :=
  s.scripts.map fun script => (script.name, [script.uri])

/-- The objects of a snapshot, each with its events. -/
def eventDocuments (s : Snapshot) : List (String × List Uri) :=
  s.objects.map fun object => (object.name, object.eventUris)

/-- All scripts of a name are at some addresses. -/
def Finds (s : Snapshot) (name : String) (uris : List Uri) : Prop :=
  ∀ script ∈ s.scripts, script.name = name → script.uri ∈ uris

end Snapshot

namespace SymbolTable

variable {s : Snapshot} {t : SymbolTable} {uri : Uri} {name : String} {files : List SourceFile}

theorem links_restoreFile (usable : Bool) (t : SymbolTable) (file : SnapshotFile) :
    (restoreFile usable t file).scriptLinks = t.scriptLinks ∧
      (restoreFile usable t file).eventLinks = t.eventLinks := by
  have hscripts := scriptLinks_replaceContribution t file.uri file.contribution
  have hevents := eventLinks_replaceContribution t file.uri file.contribution
  rw [restoreFile]
  dsimp only
  split
  · split
    · exact ⟨hscripts, hevents⟩
    · exact ⟨hscripts, hevents⟩
  · exact ⟨hscripts, hevents⟩

theorem scriptLinks_restoreScript (t : SymbolTable) (script : ScriptRecord) :
    (restoreScript t script).scriptLinks = t.scriptLinks.assign script.name [script.uri] := by
  refine Links.ext (funext fun owner => ?_) (funext fun other => ?_)
  · dsimp only [scriptLinks, restoreScript, Links.assign]
    rw [Table.get?_set]
    split <;> rfl
  · dsimp only [scriptLinks, restoreScript, Links.assign]
    rw [Table.get?_set]
    simp only [List.mem_singleton]

theorem eventLinks_restoreObject (t : SymbolTable) (object : ObjectRecord) :
    (restoreObject t object).eventLinks = t.eventLinks.assign object.name object.eventUris := by
  refine Links.ext (funext fun owner => ?_) (funext fun other => ?_)
  · dsimp only [eventLinks, restoreObject, Links.assign]
    rw [Table.get?_set]
    split <;> rfl
  · exact Table.get?_foldl_set object.eventUris object.name t.objectAt other

theorem links_restoreFiles (files : List SnapshotFile) (usable : Bool) :
    (files.foldl (restoreFile usable) {}).scriptLinks = ⟨fun _ => [], fun _ => none⟩ ∧
      (files.foldl (restoreFile usable) {}).eventLinks = ⟨fun _ => [], fun _ => none⟩ := by
  refine List.foldlRecOn files _ (motive := fun (t : SymbolTable) =>
    t.scriptLinks = ⟨fun _ => [], fun _ => none⟩ ∧ t.eventLinks = ⟨fun _ => [], fun _ => none⟩)
    ⟨rfl, rfl⟩ fun t ht file _ => ?_
  obtain ⟨hscripts, hevents⟩ := links_restoreFile usable t file
  exact ⟨hscripts.trans ht.1, hevents.trans ht.2⟩

theorem links_foldl_restoreScript (scripts : List ScriptRecord) (t : SymbolTable) :
    (scripts.foldl restoreScript t).scriptLinks =
        scripts.foldl (fun links script => links.assign script.name [script.uri]) t.scriptLinks ∧
      (scripts.foldl restoreScript t).eventLinks = t.eventLinks := by
  induction scripts generalizing t with
  | nil => exact ⟨rfl, rfl⟩
  | cons script scripts ih =>
      obtain ⟨hscripts, hevents⟩ := ih (restoreScript t script)
      rw [scriptLinks_restoreScript] at hscripts
      exact ⟨hscripts, hevents⟩

theorem links_foldl_restoreObject (objects : List ObjectRecord) (t : SymbolTable) :
    (objects.foldl restoreObject t).scriptLinks = t.scriptLinks ∧
      (objects.foldl restoreObject t).eventLinks =
        objects.foldl (fun links object => links.assign object.name object.eventUris)
          t.eventLinks := by
  induction objects generalizing t with
  | nil => exact ⟨rfl, rfl⟩
  | cons object objects ih =>
      obtain ⟨hscripts, hevents⟩ := ih (restoreObject t object)
      rw [eventLinks_restoreObject] at hevents
      exact ⟨hscripts, hevents⟩

theorem ofSnapshot_eq_ok (h : ofSnapshot s = .ok t) :
    t = s.objects.foldl restoreObject (s.scripts.foldl restoreScript
      (s.files.foldl (restoreFile (s.hasher == ContentHash.hasherName)) {})) := by
  rw [ofSnapshot, Snapshot.checkVersion] at h
  split at h
  · exact (Except.ok.inj h).symm
  · cases h

/-- Documents and resources of a table that is read belong together as the snapshot says. -/
theorem links_ofSnapshot (h : ofSnapshot s = .ok t) :
    t.scriptLinks = Links.assigned s.scriptDocuments ∧
      t.eventLinks = Links.assigned s.eventDocuments := by
  obtain ⟨hscripts, hevents⟩ := links_restoreFiles s.files (s.hasher == ContentHash.hasherName)
  rw [ofSnapshot_eq_ok h, (links_foldl_restoreObject _ _).1, (links_foldl_restoreObject _ _).2,
    (links_foldl_restoreScript _ _).1, (links_foldl_restoreScript _ _).2, hscripts, hevents,
    Snapshot.scriptDocuments, Snapshot.eventDocuments, Links.assigned, Links.assigned,
    List.foldl_map, List.foldl_map]
  exact ⟨rfl, rfl⟩

theorem keyed_ofSnapshot (h : ofSnapshot s = .ok t) : t.scripts.Keyed ScriptRecord.name := by
  rw [ofSnapshot_eq_ok h]
  refine List.foldlRecOn s.objects _
    (motive := fun (t : SymbolTable) => t.scripts.Keyed ScriptRecord.name) ?_ fun _ ht _ _ => ht
  refine List.foldlRecOn s.scripts _
    (motive := fun (t : SymbolTable) => t.scripts.Keyed ScriptRecord.name) ?_
    fun _ ht _ _ => ht.set rfl
  rw [(linked_restoreFiles s.files _).2]
  exact .empty

/-! ### A restored table and a project -/

theorem complete_scriptLinks_ofSnapshot (h : ofSnapshot s = .ok t) (hapart : s.Apart) :
    t.scriptLinks.Complete := by
  rw [(links_ofSnapshot h).1]
  refine Links.complete_assigned (List.pairwise_map.mpr ?_)
  refine (List.pairwise_map.mp hapart.scripts).imp fun hne uri huri hother => hne ?_
  exact (List.mem_singleton.mp huri).symm.trans (List.mem_singleton.mp hother)

theorem complete_eventLinks_ofSnapshot (h : ofSnapshot s = .ok t) (hapart : s.Apart) :
    t.eventLinks.Complete := by
  rw [(links_ofSnapshot h).2]
  exact Links.complete_assigned (List.pairwise_map.mpr hapart.events)

/-- A script that has a document, or that a document leads to, is one of the snapshot. -/
theorem exists_script_ofSnapshot (h : ofSnapshot s = .ok t)
    (hlink : uri ∈ t.scriptLinks.documents name ∨ t.scriptLinks.owner? uri = some name) :
    ∃ script ∈ s.scripts, script.name = name ∧ script.uri = uri := by
  rw [(links_ofSnapshot h).1] at hlink
  obtain ⟨resource, hresource, hname, huri⟩ := Links.exists_of_assigned hlink
  obtain ⟨script, hscript, rfl⟩ := List.mem_map.mp hresource
  exact ⟨script, hscript, hname, (List.mem_singleton.mp huri).symm⟩

/-- Of the documents of scripts none goes with an object. -/
theorem not_uprooted_of_script (h : ofSnapshot s = .ok t) (hapart : s.Apart) {script : ScriptRecord}
    (hscript : script ∈ s.scripts) (t' : SymbolTable) : ¬t.Uprooted t' script.uri := by
  rintro ⟨name, object, hobject, hevent, -⟩
  have hmem := mem_eventLinks.mpr ⟨object, hobject, hevent⟩
  rw [(links_ofSnapshot h).2] at hmem
  obtain ⟨resource, hresource, -, huri⟩ := Links.exists_of_assigned (.inl hmem)
  obtain ⟨found, hfound, rfl⟩ := List.mem_map.mp hresource
  exact hapart.resources script hscript found hfound huri

theorem script_prune (h : ofSnapshot s = .ok t) (hapart : s.Apart)
    (hfound : s.Finds name (files.map (·.uri))) :
    (t.prune files).scripts.get? name = t.scripts.get? name := by
  refine (loses_prune (keyed_ofSnapshot h) files).script name fun uri hlink => ?_
  obtain ⟨script, hscript, hname, rfl⟩ := exists_script_ofSnapshot h hlink
  rintro (hgone | huprooted)
  · exact hgone (hfound script hscript hname)
  · exact not_uprooted_of_script h hapart hscript _ huprooted

/-- All resources and documents belong to some files. -/
structure Within (t : SymbolTable) (files : List SourceFile) : Prop where
  scripts : ∀ name script, t.scripts.get? name = some script → script.uri ∈ files.map (·.uri)
  events : ∀ name object, t.objects.get? name = some object →
    ∀ uri ∈ object.eventUris, uri ∈ files.map (·.uri)
  objects : ∀ name object, t.objects.get? name = some object →
    ∃ file ∈ files, ∃ event, file.kind = .objectEvent name event
  documents : ∀ uri ∈ t.knownDocuments, uri ∈ files.map (·.uri)

theorem within_prune (hkeyed : t.scripts.Keyed ScriptRecord.name) (h : t.eventLinks.Complete)
    (files : List SourceFile) : (t.prune files).Within files where
  scripts name script hscript :=
    ((mem_prune_scripts hkeyed).mp (mem_scriptLinks.mpr ⟨script, hscript, rfl⟩)).2
  events name object hobject uri hevent :=
    ((mem_prune_events h).mp (mem_eventLinks.mpr ⟨object, hobject, hevent⟩)).2.2
  objects name object hobject :=
    mem_objectNames.mp ((contains_prune t files name).mp (Table.contains_of_get? hobject)).2
  documents uri hknown := by
    by_contra hother
    obtain ⟨hcontribution, hhash⟩ := forgets_prune hother t
    rcases mem_knownDocuments.mp hknown with hsome | hsome
    · exact hsome hcontribution
    · exact hsome hhash

/-- A script stays at its address. It loses at most its documentation, and keeps this if there is
no other script of its name. -/
theorem kept_script_prune (h : ofSnapshot s = .ok t) (hapart : s.Apart) {script : ScriptRecord}
    (hscript : t.scripts.get? name = some script) (huri : script.uri ∈ files.map (·.uri)) :
    ∃ kept, (t.prune files).scripts.get? name = some kept ∧
      (t.prune files).scriptAt? script.uri = some kept ∧
      (kept = script ∨ kept = { script with signature := none, doc := none }) ∧
      (s.Finds name (files.map (·.uri)) → kept = script) := by
  have hkeyed := keyed_ofSnapshot h
  have hloses := loses_prune hkeyed files
  have hmem : script.uri ∈ t.scriptLinks.documents name :=
    mem_scriptLinks.mpr ⟨script, hscript, rfl⟩
  obtain ⟨kept, hkept, -⟩ := mem_scriptLinks.mp ((mem_prune_scripts hkeyed).mpr ⟨hmem, huri⟩)
  refine ⟨kept, hkept, ?_, ?_, fun hfound => ?_⟩
  · have hlink : (t.prune files).scriptAt.get? script.uri = t.scriptAt.get? script.uri := by
      refine hloses.link _ fun hgone => hgone.elim (· huri) ?_
      obtain ⟨source, hsource, -, hplace⟩ := exists_script_ofSnapshot h (.inl hmem)
      exact hplace ▸ not_uprooted_of_script h hapart hsource _
    have howner : t.scriptAt.get? script.uri = some name :=
      complete_scriptLinks_ofSnapshot h hapart _ _ hmem
    rw [scriptAt?, hlink, howner, Option.bind_some, hkept]
  · obtain ⟨before, hbefore, hleft⟩ := hloses.scripts name kept hkept
    rw [hscript, Option.some.injEq] at hbefore
    rwa [← hbefore] at hleft
  · rw [script_prune h hapart hfound, hscript, Option.some.injEq] at hkept
    exact hkept.symm

/-- A table that is read from a snapshot and cut down to the files of a project has resources and
documents of the project only. Of what it knew at these files it forgets no more than the events
of the objects that are gone, and the documentation of a script if the snapshot has another one of
its name that is gone. -/
theorem pruned_to_the_project (h : ofSnapshot s = .ok t) (hapart : s.Apart)
    (files : List SourceFile) :
    (t.prune files).Within files ∧
      (∀ name script, t.scripts.get? name = some script → script.uri ∈ files.map (·.uri) →
        ∃ kept, (t.prune files).scripts.get? name = some kept ∧
          (t.prune files).scriptAt? script.uri = some kept ∧
          (kept = script ∨ kept = { script with signature := none, doc := none }) ∧
          (s.Finds name (files.map (·.uri)) → kept = script)) ∧
      ∀ uri ∈ files.map (·.uri), ¬t.Uprooted (t.prune files) uri →
        t.Agrees (t.prune files) uri ∧
          ((∀ name, t.scriptAt.get? uri = some name → s.Finds name (files.map (·.uri))) →
            (t.prune files).scriptAt? uri = t.scriptAt? uri) := by
  have hkeyed := keyed_ofSnapshot h
  refine ⟨within_prune hkeyed (complete_eventLinks_ofSnapshot h hapart) files,
    fun name script hscript huri => kept_script_prune h hapart hscript huri,
    fun uri huri hrooted => ?_⟩
  have hloses := loses_prune hkeyed files
  have hthere : ¬(uri ∉ files.map (·.uri) ∨ t.Uprooted (t.prune files) uri) :=
    fun hgone => hgone.elim (· huri) hrooted
  refine ⟨hloses.agrees uri hthere, fun hfound => ?_⟩
  rw [scriptAt?, scriptAt?, hloses.link uri hthere]
  cases hlink : t.scriptAt.get? uri with
  | none => rw [Option.bind_none, Option.bind_none]
  | some name => rw [Option.bind_some, Option.bind_some, script_prune h hapart (hfound name hlink)]

def projectFile (path : String) (kind : DocumentKind) : SourceFile :=
  { path, url := { scheme := "file", authority := some {}, path }, kind }

def jumpScript : ScriptRecord where
  name := "jump"
  uri := "file:///p/jump.gml"
  signature := some { label := "jump()", parameters := [], minArgs := 0, maxArgs := some 0 }

/-- A snapshot of a script and of a hero with two events, one of which is gone. -/
def heroSnapshot : Snapshot where
  version := Snapshot.currentVersion
  hasher := ContentHash.hasherName
  scripts := [jumpScript]
  objects := [{ name := "hero", eventUris := ["file:///p/create.gml", "file:///p/step.gml"] },
    { name := "ghost", eventUris := ["file:///p/ghost.gml"] }]
  files := [{ uri := "file:///p/jump.gml", contentHash := some 1 },
    { uri := "file:///p/step.gml", contentHash := some 2 }]

def heroFiles : List SourceFile :=
  [projectFile "/p/jump.gml" (.script "jump"),
    projectFile "/p/create.gml" (.objectEvent "hero" "create")]

theorem jump_is_left_with_the_hero :
    let t := (ofSnapshot heroSnapshot).toOption.getD {}
    ofSnapshot heroSnapshot = .ok t ∧ heroSnapshot.Apart ∧ (t.prune heroFiles).Within heroFiles ∧
      (t.prune heroFiles).scriptAt? "file:///p/jump.gml" = some jumpScript ∧
      t.Agrees (t.prune heroFiles) "file:///p/jump.gml" := by
  intro t
  have htable : ofSnapshot heroSnapshot = .ok t := rfl
  have hapart : heroSnapshot.Apart := ⟨by decide, by decide, by decide⟩
  have hfile : jumpScript.uri ∈ heroFiles.map (·.uri) := by decide +kernel
  have hfound : heroSnapshot.Finds "jump" (heroFiles.map (·.uri)) := by
    intro script hscript _
    rwa [List.mem_singleton.mp hscript]
  obtain ⟨hwithin, hscripts, hdocuments⟩ := pruned_to_the_project htable hapart heroFiles
  obtain ⟨kept, -, hkept, -, hsame⟩ := hscripts "jump" jumpScript rfl hfile
  have hrooted : ¬t.Uprooted (t.prune heroFiles) jumpScript.uri :=
    not_uprooted_of_script htable hapart (List.mem_singleton_self jumpScript) _
  exact ⟨htable, hapart, hwithin, hsame hfound ▸ hkept, (hdocuments _ hfile hrooted).1⟩

/-- A snapshot of two scripts with one name, the first of which is gone. -/
def doubledSnapshot : Snapshot where
  version := Snapshot.currentVersion
  hasher := ContentHash.hasherName
  scripts := [{ name := "jump", uri := "file:///p/leap.gml" }, jumpScript]
  objects := []
  files := [{ uri := "file:///p/leap.gml", contentHash := some 1 }]

/-- With the document of the first script the second one loses its documentation. -/
theorem doubled_script_loses_its_signature :
    let t := (ofSnapshot doubledSnapshot).toOption.getD {}
    let files := [projectFile "/p/jump.gml" (.script "jump")]
    ofSnapshot doubledSnapshot = .ok t ∧ doubledSnapshot.Apart ∧
      jumpScript.uri ∈ files.map (·.uri) ∧ ¬t.Uprooted (t.prune files) jumpScript.uri ∧
      t.scripts.get? "jump" = some jumpScript ∧ t.scriptAt? jumpScript.uri = some jumpScript ∧
      (t.prune files).scripts.get? "jump" = some { jumpScript with signature := none } ∧
      (t.prune files).scriptAt? jumpScript.uri = some { jumpScript with signature := none } := by
  intro t files
  have htable : ofSnapshot doubledSnapshot = .ok t := rfl
  have hapart : doubledSnapshot.Apart := ⟨by decide, by decide, by decide⟩
  refine ⟨htable, hapart, by decide +kernel, ?_, rfl, rfl, by decide +kernel, by decide +kernel⟩
  exact not_uprooted_of_script htable hapart (by decide) _

end SymbolTable

end Gml
