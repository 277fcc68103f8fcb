import Gml.Proofs.Json.Snapshots
import Gml.Proofs.Server.Events
import Gml.Proofs.SymbolIndex.Installing

/-!
# What the reading of a workspace does

A table that is kept from an earlier session comes back with all that it knew of the
documents. Then each file is skipped, taken over with what is known of it or analysed,
and at last come the documents that waited.
-/
namespace Gml

/-! ### A kept table -/

namespace SymbolTable

variable {t table : SymbolTable} {snapshot : Snapshot}

theorem eq_of_read_render (h : Snapshot.read t.snapshot.render = .ok snapshot) :
    snapshot = { t.snapshot with objects := t.snapshot.objects.map ObjectRecord.once } := by
  rw [Snapshot.read] at h
  cases hdecode : Snapshot.decode t.snapshot.render with
  | error e => rw [hdecode] at h; cases h
  | ok decoded =>
      obtain ⟨-, hdecoded⟩ := Snapshot.decode_render.mp hdecode
      subst hdecoded
      rw [hdecode] at h
      cases h
      rfl

theorem ofSnapshot_eq (hversion : snapshot.version = Snapshot.currentVersion)
    (hhasher : snapshot.hasher = ContentHash.hasherName) :
    ofSnapshot snapshot = .ok (snapshot.objects.foldl restoreObject
      (snapshot.scripts.foldl restoreScript (snapshot.files.foldl (restoreFile true) {}))) := by
  rw [ofSnapshot, Snapshot.checkVersion, if_pos hversion, Except.map, hhasher, beq_self_eq_true]

theorem documents_foldl_restore (t : SymbolTable) (scripts : List ScriptRecord)
    (objects : List ObjectRecord) :
    (objects.foldl restoreObject (scripts.foldl restoreScript t)).contributions = t.contributions ∧
      (objects.foldl restoreObject (scripts.foldl restoreScript t)).hashes = t.hashes := by
  obtain ⟨scriptAt, hscripts⟩ := exists_foldl_restoreScript t scripts
  obtain ⟨objectAt, hobjects⟩ := exists_foldl_restoreObject (scripts.foldl restoreScript t) objects
  rw [hobjects, hscripts]
  exact ⟨rfl, rfl⟩

/-- What a table knows of the documents is known again to the one that is read back. -/
theorem agrees_of_kept {made : Reading → Prop} (h : t.Settled made)
    (hread : Snapshot.read t.snapshot.render = .ok snapshot)
    (htable : ofSnapshot snapshot = .ok table) (uri : Uri) : t.Agrees table uri := by
  have hstored : ∀ uri, ((t.contribution? uri).getD {}).stored = t.contribution? uri := by
    intro uri
    rcases h uri with ⟨hnone, -⟩ | ⟨r, -, rfl, hholds, -⟩
    · rw [hnone]
      rfl
    · rw [hholds, Contribution.stored_getD]
  obtain rfl := eq_of_read_render hread
  rw [ofSnapshot_eq rfl rfl, Except.ok.injEq] at htable
  subst htable
  obtain ⟨hcontributions, hhashes⟩ := documents_foldl_restore (t.restoreFiles t.knownDocuments)
    t.scripts.values (t.objects.values.map ObjectRecord.once)
  have hcontribution := contribution?_restoreFiles hstored t.knownDocuments uri
  have hhash := hashes_restoreFiles t t.knownDocuments uri
  rw [contribution?, ← hcontributions] at hcontribution
  rw [← hhashes] at hhash
  by_cases hknown : uri ∈ t.knownDocuments
  · rw [if_pos hknown] at hcontribution hhash
    exact ⟨hcontribution, hhash⟩
  · rw [if_neg hknown] at hcontribution hhash
    rw [mem_knownDocuments, not_or, not_not, not_not] at hknown
    exact ⟨hcontribution.trans hknown.1.symm, hhash.trans hknown.2.symm⟩

theorem settled_of_kept {made : Reading → Prop} (h : t.Settled made)
    (hread : Snapshot.read t.snapshot.render = .ok snapshot)
    (htable : ofSnapshot snapshot = .ok table) : table.Settled made := fun uri =>
  (h uri).of_agrees (agrees_of_kept h hread htable uri)

end SymbolTable

/-! ### One file -/

/-- The document that a file on disk is. -/
def SourceFile.document (file : SourceFile) (text : String) : Document :=
  { url := file.url, version := 0, content := text, kind := file.kind, isOpen := false }

def SourceFile.reading (file : SourceFile) (text : String) : Reading := ⟨file.uri, file.kind, text⟩

namespace IndexRun

/-- All that the reading of a file can do to a session. -/
inductive Reads (run : IndexRun) (file : SourceFile) : Session → Prop
  | missing (sent : List Message) (h : run.session.disk.read? file.path = none) :
      Reads run file { run.session with sent }
  | opened (sent : List Message)
      (h : ∃ document, run.session.server.document? file.url = some document ∧
        document.isOpen = true) :
      Reads run file { run.session with sent }
  | unchanged {text : String} (sent : List Message)
      (h : run.session.disk.read? file.path = some text) (hrestored : run.restored = true)
      (hhash : run.session.server.index.table.hashes.get? file.uri = some (ContentHash.ofText text)) :
      Reads run file { run.session with
        server := run.session.server.putDocument (file.document text), sent }
  | analysed {text : String} (sent : List Message)
      (h : run.session.disk.read? file.path = some text) :
      Reads run file { run.session with
        server := ((run.session.server.putDocument (file.document text)).analyse file.url text
          .bootstrap).2
        sent }

theorem reads_indexFile (run : IndexRun) (file : SourceFile) :
    run.Reads file (run.indexFile file).session ∧ (run.indexFile file).restored = run.restored := by
  unfold indexFile
  split
  next hread => exact ⟨.missing _ hread, rfl⟩
  next text hread =>
      dsimp only
      cases hopen : ((run.session.server.document? file.url).map (·.isOpen)).getD false with
      | true =>
          have hnone : run.session.server.indexDocument? file.url file.kind text = none := by
            rw [Server.indexDocument?, if_pos hopen]
          have hknown : ∃ document, run.session.server.document? file.url = some document ∧
              document.isOpen = true := by
            cases hdocument : run.session.server.document? file.url with
            | none => rw [hdocument] at hopen; cases hopen
            | some document => rw [hdocument] at hopen; exact ⟨document, rfl, hopen⟩
          rw [hnone]
          exact ⟨.opened _ hknown, rfl⟩
      | false =>
          have hsome : run.session.server.indexDocument? file.url file.kind text =
              some (run.session.server.putDocument (file.document text)) := by
            rw [Server.indexDocument?, hopen, if_neg Bool.false_ne_true]
            rfl
          rw [hsome]
          dsimp only
          split
          next hunchanged =>
              rw [Bool.and_eq_true, beq_iff_eq] at hunchanged
              exact ⟨.unchanged _ hread hunchanged.1 hunchanged.2, rfl⟩
          next =>
              refine ⟨?_, rfl⟩
              rw [Session.analyse]
              dsimp only
              cases ((run.session.server.putDocument (file.document text)).analyse file.url text
                .bootstrap).1 with
              | none => exact .analysed run.session.sent hread
              | some report =>
                  dsimp only
                  split
                  · exact .analysed run.session.sent hread
                  · exact .analysed _ hread

theorem Reads.send {run : IndexRun} {file : SourceFile} {session : Session}
    (h : run.Reads file session) (sent : List Message) : run.Reads file { session with sent } := by
  cases h with
  | missing _ hread => exact .missing sent hread
  | opened _ hopen => exact .opened sent hopen
  | unchanged _ hread hrestored hhash => exact .unchanged sent hread hrestored hhash
  | analysed _ hread => exact .analysed sent hread

theorem reads_step (run : IndexRun) (file : SourceFile) :
    run.Reads file (run.step file).session ∧ (run.step file).restored = run.restored := by
  obtain ⟨hreads, hrestored⟩ := run.reads_indexFile file
  refine ⟨?_, hrestored⟩
  obtain ⟨sent, hprogress⟩ : ∃ sent, (run.step file).session =
      { (run.indexFile file).session with sent } := by
    unfold step Session.reportProgress
    dsimp only
    split
    · exact ⟨_, rfl⟩
    · exact ⟨_, rfl⟩
  rw [hprogress]
  exact hreads.send sent

end IndexRun

/-! ### The project of a session -/

namespace Session

/-- The disk and what the server knows of the project stay. -/
structure SameProject (s s' : Session) : Prop where
  disk : s'.disk = s.disk
  folders : s'.server.folders = s.server.folders
  config : s'.server.config = s.server.config
  waiting : s'.server.waiting = s.server.waiting

namespace SameProject

variable {s s' s'' : Session}

theorem refl (s : Session) : s.SameProject s := ⟨rfl, rfl, rfl, rfl⟩

theorem trans (h : s.SameProject s') (h' : s'.SameProject s'') : s.SameProject s'' :=
  ⟨h'.disk.trans h.disk, h'.folders.trans h.folders, h'.config.trans h.config,
    h'.waiting.trans h.waiting⟩

theorem of_analyse (s : Session) (url : Url) (text : String) (mode : LintMode)
    (sent : List Message) :
    s.SameProject { s with server := (s.server.analyse url text mode).2, sent } := by
  obtain ⟨index, documents, hanalyse⟩ := s.server.exists_analyse url text mode
  rw [hanalyse]
  exact ⟨rfl, rfl, rfl, rfl⟩

theorem of_reads {run : IndexRun} {file : SourceFile} (h : run.Reads file s) :
    run.session.SameProject s := by
  cases h with
  | missing | opened | unchanged => exact ⟨rfl, rfl, rfl, rfl⟩
  | @analysed text sent hread =>
      have hput : run.session.SameProject { run.session with
          server := run.session.server.putDocument (file.document text) } := ⟨rfl, rfl, rfl, rfl⟩
      exact hput.trans (of_analyse _ file.url text .bootstrap sent)

theorem of_replay (s : Session) (url : Url) : s.SameProject (s.replay url) := by
  unfold replay
  split
  · exact refl s
  next document _ =>
      have hregister : s.SameProject { s with server := s.server.register url } := by
        unfold Server.register
        split
        · exact ⟨rfl, rfl, rfl, rfl⟩
        · exact refl s
      refine hregister.trans ?_
      dsimp only
      split
      · obtain ⟨sent, hpublish⟩ := publish_eq { s with server := s.server.register url } url
          (some document.version) document.content
        rw [hpublish]
        exact of_analyse _ url document.content .full sent
      · exact of_analyse _ url document.content .full s.sent

theorem of_replayAll (s : Session) (urls : List Url) : s.SameProject (s.replayAll urls) := by
  rw [replayAll]
  induction urls generalizing s with
  | nil => exact refl s
  | cons url urls ih => exact (of_replay s url).trans (ih _)

theorem of_steps (run : IndexRun) (files : List SourceFile) :
    run.session.SameProject (files.foldl IndexRun.step run).session := by
  induction files generalizing run with
  | nil => exact refl run.session
  | cons file files ih => exact (of_reads (run.reads_step file).1).trans (ih _)

end SameProject

/-! ### Before the first file and after the last one -/

@[irreducible] def loadedConfig (session : Session) (root : FilePath) : ProjectConfig :=
  Storage.loadConfig session.disk root.onDisk

/-- The session with its settings and with a manual on its disk. -/
@[irreducible] def prepared (session : Session) (root : FilePath) : Session :=
  { session with
    server := session.server.setConfig (session.loadedConfig root)
    disk := (Storage.loadManual session.disk (session.loadedConfig root).manual).2 }

theorem server_prepared (session : Session) (root : FilePath) :
    (session.prepared root).server = session.server.setConfig (session.loadedConfig root) := by
  rw [prepared]

/-- The table before the first file is read. -/
@[irreducible] def startTable (session : Session) (root : FilePath) : SymbolTable :=
  let kept := (session.prepared root).restoredTable? (session.loadedConfig root)
  let manual := (Storage.loadManual session.disk (session.loadedConfig root).manual).1
  let files := ((session.prepared root).filesToIndex root.onDisk (session.loadedConfig root)).1
  let table := (kept.getD {}).seedBuiltins manual
  (if kept.isSome then table.prune files else table).registerAll files

/-- A progress bar takes messages and nothing else. -/
theorem startProgress_eq (session : Session) (title : String) (total : Nat) :
    (session.startProgress title total).2 =
      { session with sent := (session.startProgress title total).2.sent } := by
  unfold startProgress
  split
  · rfl
  · dsimp only
    split <;> rfl

theorem prepareIndex_eq (session : Session) (root : FilePath) :
    (session.prepareIndex root).1.session = { session.prepared root with
        server := (session.prepared root).server.setTable (session.startTable root)
        sent := (session.prepareIndex root).1.session.sent } ∧
      (session.prepareIndex root).1.restored =
        ((session.prepared root).restoredTable? (session.loadedConfig root)).isSome ∧
      (session.prepareIndex root).2 =
        ((session.prepared root).filesToIndex root.onDisk (session.loadedConfig root)).1 := by
  unfold prepareIndex startTable prepared loadedConfig
  dsimp only
  -- What is loaded is left alone from here on.
  generalize Storage.loadConfig session.disk root.onDisk = config
  generalize Storage.loadManual session.disk config.manual = loaded
  exact ⟨startProgress_eq _ _ _, rfl, rfl⟩

theorem endProgress_eq (session : Session) (bar : ProgressBar) (message : String) :
    session.endProgress bar message =
      { session with sent := (session.endProgress bar message).sent } := by
  unfold endProgress
  split <;> rfl

theorem exists_advance (index : SymbolIndex) (target : Readiness) :
    ∃ readiness, (index.advance target).2 = { index with readiness } := by
  unfold SymbolIndex.advance
  split
  · exact ⟨target, rfl⟩
  · exact ⟨index.readiness, rfl⟩

/-- The session when all files are read. -/
@[irreducible] def afterFiles (session : Session) (root : FilePath) : Session :=
  ((session.prepareIndex root).2.foldl IndexRun.step (session.prepareIndex root).1).session

/-- The documents that waited come when all files are read. -/
theorem indexRoot_eq (session : Session) (root : FilePath) :
    ∃ readiness sent, (session.indexRoot root).2 = ({ session.afterFiles root with
        server := { (session.afterFiles root).server with
          index := { (session.afterFiles root).server.index with readiness }, waiting := none }
        sent } : Session).replayAll ((session.afterFiles root).server.waiting.getD []) := by
  unfold indexRoot Server.finishIndexing afterFiles
  dsimp only
  rw [endProgress_eq]
  generalize List.foldl IndexRun.step (session.prepareIndex root).1
    (session.prepareIndex root).2 = run
  obtain ⟨readiness, hadvance⟩ := exists_advance run.session.server.index .ready
  rw [hadvance]
  exact ⟨readiness, _, rfl⟩

theorem afterFiles_project (session : Session) (root : FilePath) :
    (session.afterFiles root).disk = (session.prepared root).disk ∧
      (session.afterFiles root).server.folders = session.server.folders ∧
      (session.afterFiles root).server.config = some (session.loadedConfig root) ∧
      (session.afterFiles root).server.waiting = session.server.waiting := by
  have hread : (session.prepareIndex root).1.session.SameProject (session.afterFiles root) := by
    unfold afterFiles
    exact SameProject.of_steps _ _
  have hserver := session.server_prepared root
  rw [(session.prepareIndex_eq root).1] at hread
  obtain ⟨hdisk, hfolders, hconfig, hwaiting⟩ := hread
  dsimp only [Server.setTable] at hdisk hfolders hconfig hwaiting
  rw [hserver] at hfolders hconfig hwaiting
  exact ⟨hdisk, hfolders, hconfig, hwaiting⟩

/-- The reading of a workspace leaves the disk as it is once the manual is there. -/
theorem indexRoot_project (session : Session) (root : FilePath) :
    (session.indexRoot root).2.disk = (session.prepared root).disk ∧
      (session.indexRoot root).2.server.folders = session.server.folders ∧
      (session.indexRoot root).2.server.config = some (session.loadedConfig root) := by
  obtain ⟨hdisk, hfolders, hconfig, -⟩ := session.afterFiles_project root
  obtain ⟨readiness, sent, hindex⟩ := session.indexRoot_eq root
  have hreplay := SameProject.of_replayAll { session.afterFiles root with
      server := { (session.afterFiles root).server with
        index := { (session.afterFiles root).server.index with readiness }, waiting := none }
      sent } ((session.afterFiles root).server.waiting.getD [])
  rw [hindex]
  exact ⟨hreplay.disk.trans hdisk, hreplay.folders.trans hfolders, hreplay.config.trans hconfig⟩

/-! ### Order along the reading -/

variable {session earlier : Session} {made : Reading → Prop} {root : FilePath}

theorem orderly_reads {run : IndexRun} {file : SourceFile} (hreads : run.Reads file session)
    (h : run.session.server.Orderly made)
    (hmade : ∀ text, run.session.disk.read? file.path = some text → made (file.reading text)) :
    session.server.Orderly made := by
  cases hreads with
  | missing | opened => exact h
  | unchanged _ hread => exact h.putDocument (hmade _ hread)
  | @analysed text _ hread =>
      have hdocument : made (file.document text).reading := hmade text hread
      exact (h.putDocument hdocument).analyse .bootstrap
        (run.session.server.made_put rfl hdocument)

theorem orderly_steps {run : IndexRun} (h : run.session.server.Orderly made)
    {files : List SourceFile} (hmade : ∀ file ∈ files, ∀ text,
      run.session.disk.read? file.path = some text → made (file.reading text)) :
    (files.foldl IndexRun.step run).session.server.Orderly made := by
  induction files generalizing run with
  | nil => exact h
  | cons file files ih =>
      obtain ⟨hreads, -⟩ := run.reads_step file
      apply ih
      · exact orderly_reads hreads h (hmade file List.mem_cons_self)
      · rw [(SameProject.of_reads hreads).disk]
        exact fun other hother => hmade other (List.mem_cons_of_mem file hother)

theorem orderly_replay (h : session.server.Orderly made) (url : Url) :
    (session.replay url).server.Orderly made := by
  unfold replay
  split
  · exact h
  next document hdocument =>
      have hmade : ∀ other, (session.server.register url).document? url = some other →
          made ⟨url.render, other.kind, document.content⟩ := by
        intro other hother
        rw [Server.document?, Server.documents_register, ← Server.document?, hdocument] at hother
        cases hother
        exact h.made_content hdocument
      dsimp only
      split
      · exact orderly_publish (h.register url) _ hmade
      · rw [server_analyse]
        exact (h.register url).analyse .full hmade

theorem orderly_replayAll (h : session.server.Orderly made) (urls : List Url) :
    (session.replayAll urls).server.Orderly made := by
  rw [replayAll]
  induction urls generalizing session with
  | nil => exact h
  | cons url urls ih => exact ih (orderly_replay h url)

/-- Whatever snapshot the project of a session keeps was written by another session. -/
def KeepsFrom (session earlier : Session) : Prop :=
  ∀ config snapshot, session.server.config = some config →
    Storage.loadSnapshot? session.disk config.indexing.cacheDir = some snapshot →
      session.disk.read? (Storage.snapshotPath config.indexing.cacheDir) =
        some earlier.server.index.table.snapshot.render

/-- A table that is found again is read from what the earlier session wrote. -/
theorem exists_snapshot_of_restoredTable? (hkept : session.KeepsFrom earlier)
    {config : ProjectConfig} (hconfig : session.server.config = some config) {table : SymbolTable}
    (htable : session.restoredTable? config = some table) :
    ∃ snapshot, Snapshot.read earlier.server.index.table.snapshot.render = .ok snapshot ∧
      SymbolTable.ofSnapshot snapshot = .ok table := by
  have hok : ∀ {ε α : Type} {result : Except ε α} {a : α}, result.toOption = some a →
      result = .ok a := by
    rintro ε α (e | b) a h
    · cases h
    · cases h
      rfl
  obtain ⟨-, hloaded⟩ := Option.ite_none_right_eq_some.mp htable
  obtain ⟨snapshot, hsnapshot, hrestored⟩ := Option.bind_eq_some_iff.mp hloaded
  have htext := hkept config snapshot hconfig hsnapshot
  rw [Storage.loadSnapshot?, htext, Option.bind_some] at hsnapshot
  exact ⟨snapshot, hok hsnapshot, hok hrestored⟩

/-- A table that is found again is that of the earlier session. -/
theorem settled_of_restoredTable? (hearlier : earlier.server.index.table.Settled made)
    (hkept : session.KeepsFrom earlier) {config : ProjectConfig}
    (hconfig : session.server.config = some config) {table : SymbolTable}
    (htable : session.restoredTable? config = some table) : table.Settled made := by
  obtain ⟨snapshot, hread, hrestored⟩ := exists_snapshot_of_restoredTable? hkept hconfig htable
  exact SymbolTable.settled_of_kept hearlier hread hrestored

theorem settled_startTable (hearlier : earlier.server.index.table.Settled made)
    (hkept : (session.prepared root).KeepsFrom earlier) :
    (session.startTable root).Settled made := by
  have hconfig : (session.prepared root).server.config = some (session.loadedConfig root) := by
    rw [server_prepared]
    rfl
  unfold startTable
  dsimp only
  refine (SymbolTable.drops_registerAll _ _).settled ?_
  cases htable : (session.prepared root).restoredTable? (session.loadedConfig root) with
  | none => exact SymbolTable.settled_empty made
  | some table =>
      have htable := settled_of_restoredTable? hearlier hkept hconfig htable
      refine (SymbolTable.drops_prune _ _).settled ?_
      exact (SymbolTable.Drops.of_eq rfl rfl).settled htable

/-- Outside the files that are to be read nothing is known. -/
theorem forgets_startTable {uri : Uri}
    (huri : uri ∉ ((session.prepared root).filesToIndex root.onDisk
      (session.loadedConfig root)).1.map (·.uri)) : (session.startTable root).Forgets uri := by
  unfold startTable
  dsimp only
  refine (SymbolTable.drops_registerAll _ _).forgets ?_
  cases (session.prepared root).restoredTable? (session.loadedConfig root) with
  | none => exact ⟨rfl, rfl⟩
  | some table => exact SymbolTable.forgets_prune huri _

theorem orderly_afterFiles (h : session.server.Orderly made)
    (hstart : (session.startTable root).Settled made)
    (hmade : ∀ file ∈ ((session.prepared root).filesToIndex root.onDisk
      (session.loadedConfig root)).1, ∀ text,
        (session.prepared root).disk.read? file.path = some text → made (file.reading text)) :
    (session.afterFiles root).server.Orderly made := by
  obtain ⟨hsession, -, hfiles⟩ := session.prepareIndex_eq root
  unfold afterFiles
  refine orderly_steps ?_ ?_
  · rw [hsession, server_prepared]
    exact ⟨hstart, h.documents⟩
  · rw [hsession, hfiles]
    exact hmade

theorem orderly_indexRoot (h : session.server.Orderly made)
    (hstart : (session.startTable root).Settled made)
    (hmade : ∀ file ∈ ((session.prepared root).filesToIndex root.onDisk
      (session.loadedConfig root)).1, ∀ text,
        (session.prepared root).disk.read? file.path = some text → made (file.reading text)) :
    (session.indexRoot root).2.server.Orderly made := by
  have hread := orderly_afterFiles h hstart hmade
  obtain ⟨readiness, sent, hindex⟩ := session.indexRoot_eq root
  rw [hindex]
  refine orderly_replayAll ?_ _
  exact ⟨hread.table, hread.documents⟩

end Session

end Gml
