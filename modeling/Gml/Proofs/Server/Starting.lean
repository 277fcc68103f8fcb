import Gml.Proofs.Server.Waiting
import Gml.Proofs.Server.Warming

/-!
# Before the first file is read

The reading of a workspace starts with a table that has the files as resources: the restored one,
cut down to the files, or one with the built-ins alone. In a table without documents a name that
a script does not get is refused for good.
-/
namespace Gml

/-! ### Resources of the files -/

namespace SymbolTable

variable {t : SymbolTable} {name : String}

theorem Taken.registerAll (h : t.Taken name) (files : List SourceFile) :
    (t.registerAll files).Taken name := by
  induction files generalizing t with
  | nil => exact h
  | cons file rest ih => exact ih (h.registerIfPossible file.uri file.kind)

/-- Without documents, all names of listed scripts are taken in the end. -/
theorem taken_registerAll (hmacros : t.macros = .empty) (hdeclarations : t.declarations = .empty)
    {files : List SourceFile} {file : SourceFile} (hfile : file ∈ files)
    (hkind : file.kind = .script name) : (t.registerAll files).Taken name := by
  induction files generalizing t with
  | nil => cases hfile
  | cons first rest ih =>
      obtain ⟨scripts, scriptAt, objects, objectAt, hregister, -, -⟩ :=
        t.registerIfPossible_eq first.uri first.kind
      have hall : t.registerAll (first :: rest) =
          (t.registerIfPossible first.uri first.kind).registerAll rest := rfl
      rw [hall]
      rcases List.mem_cons.mp hfile with rfl | hrest
      · rw [hkind]
        exact (taken_registerIfPossible hmacros hdeclarations _ name).registerAll rest
      · rw [hregister]
        exact ih hmacros hdeclarations hrest

/-- The scripts of a snapshot that was written are linked when it is read back. -/
theorem linked_of_kept (h : t.Linked) {snapshot : Snapshot} {table : SymbolTable}
    (hread : Snapshot.read t.snapshot.render = .ok snapshot)
    (htable : ofSnapshot snapshot = .ok table) : table.Linked := by
  obtain rfl := eq_of_read_render hread
  exact linked_ofSnapshot htable h.named.nodup_map_values

end SymbolTable

/-! ### Before the first file -/

namespace Session

variable {session session' : Session}

/-- What the reading of a workspace starts with does not depend on the documents. -/
theorem firstRun_congr (hdisk : session'.disk = session.disk)
    (hfolders : session'.server.folders = session.server.folders)
    (hindex : session'.server.index = session.server.index) :
    session'.firstRun.1.session.server.index.table = session.firstRun.1.session.server.index.table ∧
      session'.firstRun.1.session.disk = session.firstRun.1.session.disk ∧
      session'.firstRun.1.restored = session.firstRun.1.restored ∧
      session'.firstRun.2 = session.firstRun.2 := by
  have hroot : session'.server.root? = session.server.root? := by
    rw [Server.root?, hfolders, ← Server.root?]
  have hdisk' : session'.indexing.disk = session.indexing.disk := hdisk
  cases hsome : session.server.root? with
  | none =>
      rw [firstRun, firstRun, hroot, hsome]
      unfold indexing
      dsimp only [Server.setTable]
      rw [hindex]
      exact ⟨rfl, hdisk, rfl, rfl⟩
  | some root =>
      obtain ⟨hstart, hrestored, hfiles⟩ := session.indexing.prepareIndex_eq root
      obtain ⟨hstart', hrestored', hfiles'⟩ := session'.indexing.prepareIndex_eq root
      have hconfig : session'.indexing.loadedConfig root = session.indexing.loadedConfig root := by
        unfold loadedConfig
        rw [hdisk']
      have hprepared : (session'.indexing.prepared root).disk =
          (session.indexing.prepared root).disk := by
        unfold prepared
        rw [hconfig, hdisk']
      have hkept : (session'.indexing.prepared root).restoredTable?
          (session'.indexing.loadedConfig root) = (session.indexing.prepared root).restoredTable?
            (session.indexing.loadedConfig root) := by
        unfold restoredTable?
        rw [hconfig, hprepared]
      have hfound := filesToIndex_congr hprepared root.onDisk (session.indexing.loadedConfig root)
      rw [firstRun_of_root hsome, firstRun_of_root (hroot.trans hsome), hstart, hstart',
        hrestored, hrestored', hfiles, hfiles', hkept, hconfig, hfound]
      refine ⟨?_, hprepared, rfl, rfl⟩
      dsimp only [Server.setTable]
      unfold startTable
      rw [hkept, hconfig, hfound, hdisk']

/-- The files that are read are those that are found, up to the limit. -/
theorem files_firstRun_eq (session : Session) :
    session.firstRun.2 = session.indexWorkspace.2.discovered ∨ ∃ config most,
      session.indexWorkspace.2.server.config = some config ∧
        config.indexing.maxFiles = some most ∧
          session.firstRun.2 = session.indexWorkspace.2.discovered.take most := by
  obtain ⟨hdisk, hfolders, hconfig⟩ := session.project_indexWorkspace
  cases hroot : session.server.root? with
  | none =>
      rw [firstRun, hroot] at hfolders ⊢
      have hroot' : session.indexWorkspace.2.server.root? = none := by
        rw [Server.root?, hfolders]
        exact hroot
      rw [discovered_of_none hroot']
      exact .inl rfl
  | some root =>
      obtain ⟨hstart, -, hfiles⟩ := session.indexing.prepareIndex_eq root
      rw [firstRun_of_root hroot, hstart] at hdisk hfolders hconfig
      dsimp only [Server.setTable] at hdisk hfolders hconfig
      rw [server_prepared] at hfolders hconfig
      have hroot' : session.indexWorkspace.2.server.root? = some root := by
        rw [Server.root?, hfolders]
        exact hroot
      rw [firstRun_of_root hroot, hfiles, filesToIndex, discovered_of_root hroot', hdisk]
      cases hmost : (session.indexing.loadedConfig root).indexing.maxFiles with
      | none => exact .inl rfl
      | some most => exact .inr ⟨_, most, hconfig, hmost, rfl⟩

theorem mem_discovered_of_mem_firstRun {file : SourceFile} (h : file ∈ session.firstRun.2) :
    file ∈ session.indexWorkspace.2.discovered := by
  rcases session.files_firstRun_eq with hall | ⟨config, most, -, -, hsome⟩
  · exact hall ▸ h
  · exact List.mem_of_mem_take (hsome ▸ h)

/-- Files that are read in one place have one text. -/
theorem text_eq_of_mem_firstRun {file other : SourceFile} (hfile : file ∈ session.firstRun.2)
    {text text' : String} (hread : session.firstRun.1.session.disk.read? file.path = some text)
    (hother : other ∈ session.firstRun.2) (huri : other.uri = file.uri)
    (hread' : session.firstRun.1.session.disk.read? other.path = some text') : text' = text := by
  rw [← session.project_indexWorkspace.1] at hread hread'
  exact text_eq (mem_discovered_of_mem_firstRun hfile) (mem_discovered_of_mem_firstRun hother) huri
    hread hread'

/-- The files that are read when there is no limit. -/
theorem files_firstRun (hlimit : ∀ config, session.indexWorkspace.2.server.config = some config →
      config.indexing.maxFiles = none) :
    session.firstRun.2 = session.indexWorkspace.2.discovered := by
  rcases session.files_firstRun_eq with hall | ⟨config, most, hconfig, hmost, -⟩
  · exact hall
  · rw [hlimit config hconfig] at hmost
    cases hmost

/-- The first file is read with the table of the last session or none. The manual comes to it, it
is cut down to the files, and the files are registered one after the other. -/
theorem table_firstRun {root : FilePath} (hroot : session.server.root? = some root) :
    ∃ config, session.indexWorkspace.2.server.config = some config ∧
      let kept := session.indexWorkspace.2.restoredTable? config
      let manual := (Storage.loadManual session.disk config.manual).1
      let table := (kept.getD {}).seedBuiltins manual
      session.firstRun.1.restored = kept.isSome ∧
        session.firstRun.1.session.server.index.table =
          (if kept.isSome then table.prune session.firstRun.2 else table).registerAll
            session.firstRun.2 := by
  obtain ⟨hdisk, -, hconfig⟩ := session.project_indexWorkspace
  obtain ⟨hstart, hrestored, hfiles⟩ := session.indexing.prepareIndex_eq root
  rw [firstRun_of_root hroot, hstart] at hdisk hconfig
  dsimp only [Server.setTable] at hdisk hconfig
  rw [server_prepared] at hconfig
  refine ⟨_, hconfig, ?_⟩
  have hkept : session.indexWorkspace.2.restoredTable? (session.indexing.loadedConfig root) =
      (session.indexing.prepared root).restoredTable? (session.indexing.loadedConfig root) := by
    rw [restoredTable?, restoredTable?, hdisk]
  rw [hkept, firstRun_of_root hroot, hrestored, hstart, hfiles]
  refine ⟨rfl, ?_⟩
  dsimp only [Server.setTable]
  unfold startTable
  rfl

/-- Without a directory there is only the manual. -/
theorem table_firstRun_of_none (hroot : session.server.root? = none) :
    session.firstRun.1.restored = false ∧ session.firstRun.2 = [] ∧
      session.firstRun.1.session.server.index.table =
        session.server.index.table.seedBuiltins Manual.bundled := by
  obtain ⟨readiness, hadvance⟩ := exists_advance session.server.index .indexing
  rw [firstRun, hroot]
  unfold indexing
  rw [hadvance]
  exact ⟨rfl, rfl, rfl⟩

/-- Without a snapshot there is the manual, and the files are registered one after the other. -/
theorem cold_firstRun (hindex : session.server.index = {})
    (hcold : ∀ config, session.indexWorkspace.2.server.config = some config →
      Storage.loadSnapshot? session.indexWorkspace.2.disk config.indexing.cacheDir = none) :
    session.firstRun.1.restored = false ∧ ∃ manual,
      session.firstRun.1.session.server.index.table =
        (({} : SymbolTable).seedBuiltins manual).registerAll session.firstRun.2 := by
  cases hroot : session.server.root? with
  | none =>
      obtain ⟨hrestored, hfiles, htable⟩ := table_firstRun_of_none hroot
      rw [hfiles, htable, hindex]
      exact ⟨hrestored, _, rfl⟩
  | some root =>
      obtain ⟨config, hconfig, hrestored, htable⟩ := table_firstRun hroot
      have hnone : session.indexWorkspace.2.restoredTable? config = none := by
        rw [restoredTable?, hcold config hconfig, Option.bind_none, ite_self]
      rw [hnone] at hrestored htable
      exact ⟨hrestored, _, htable⟩

variable {earlier : Session} {made : Reading → Prop}

/-- The scripts are linked when the first file is read, if they were linked in the session that
wrote the snapshot. -/
theorem linked_firstRun (hsession : session.server.index.table.Linked)
    (hearlier : earlier.server.index.table.Linked)
    (hkept : session.indexWorkspace.2.KeepsFrom earlier) :
    session.firstRun.1.session.server.index.table.Linked := by
  cases hroot : session.server.root? with
  | none =>
      rw [(table_firstRun_of_none hroot).2.2]
      exact hsession.of_eq rfl rfl
  | some root =>
      obtain ⟨config, hconfig, -, hstart⟩ := table_firstRun hroot
      rw [hstart]
      refine SymbolTable.Linked.registerAll ?_ _
      cases htable : session.indexWorkspace.2.restoredTable? config with
      | none => exact SymbolTable.Linked.empty.of_eq rfl rfl
      | some table =>
          refine SymbolTable.Linked.prune ?_ _
          obtain ⟨snapshot, hread, hrestored⟩ :=
            exists_snapshot_of_restoredTable? hkept hconfig htable
          exact (SymbolTable.linked_of_kept hearlier hread hrestored).of_eq rfl rfl

/-- In every session the scripts are linked. -/
theorem Reached.linked (h : session.Reached made) : session.server.index.table.Linked := by
  have hkeyed : ∀ {session : Session}, session.Reached made →
      session.server.documents.Keyed (·.url.render) := fun h uri document hdocument =>
    (h.orderly.documents uri document hdocument).1
  have hevent : ∀ {session : Session} (event : Event), session.Reached made →
      session.server.index.table.Linked → (session.receive event).server.index.table.Linked :=
    fun event h hlinked => (evolves_receive (hkeyed h) (fun _ => trivial) event
      (savesFit_any _ event)).linked hlinked
  induction h with
  | start h =>
      rw [h.index]
      exact .empty
  | folders | configure | disk => assumption
  | @index session earlier _ _ hkept _ ih ihearlier =>
      have hindex : Server.Evolves (fun _ _ => True) session.firstRun.1.session.server
          session.indexWorkspace.2.server := evolves_indexWorkspace (fun _ => trivial) session
      exact hindex.linked (linked_firstRun ih ihearlier hkept)
  | didOpen h url version text _ ih => exact hevent (.didOpen url version text) h ih
  | didChange h url version changes _ ih => exact hevent (.didChange url version changes) h ih
  | didSave h url saved _ ih => exact hevent (.didSave url saved) h ih
  | didClose h url _ ih => exact hevent (.didClose url) h ih
  | @round session _ d sequence mode _ ih =>
      dsimp only
      rw [(d.runCycle_eq _ ⟨d.uri, sequence⟩ {} mode).1]
      rcases session.server.index.table_commit ⟨d.uri, sequence⟩ (d.found {}) with hsame | hinstall
      · rw [hsame]
        exact ih
      · rw [hinstall]
        exact ih.install _ _
  | shutdown _ ih =>
      unfold Session.shutdown
      split
      · exact ih
      · split
        · exact ih
        · exact ih

end Session

end Gml
