import Gml.Proofs.Server.Sessions
import Gml.Proofs.Url.Files

/-!
# A warm start

A session that starts with the snapshot of an earlier one reads again only the files that
have changed. When it is done, the table still holds the text of every file that can be
read and has no errors, and it knows of nothing else.
-/
namespace Gml

open Session (FilesAmong KeepsFrom)

variable {made : Reading → Prop}

/-! ### Along the files -/

namespace SymbolTable

/-- A text is held in the place of one of some files, of the kind of this file. A manifest may
name a file more than once and give it more than one kind; otherwise there is no choice. -/
def HoldsText (t : SymbolTable) (files : List SourceFile) (uri : Uri) (text : String) : Prop :=
  ∃ file ∈ files, file.uri = uri ∧ t.Holds (file.reading text)

/-- The text of a file is held if it can be read and has no errors. -/
def HoldsFile (t : SymbolTable) (disk : Disk) (files : List SourceFile) (file : SourceFile) :
    Prop :=
  ∀ text, disk.read? file.path = some text → (parse text).ok = true →
    t.HoldsText files file.uri text

end SymbolTable

/-- The files of a project on a disk, with their texts among some texts: files with one
address have one text, and its hash tells it apart from all others in its place. -/
structure Recognised (made : Reading → Prop) (disk : Disk) (files : List SourceFile) : Prop where
  among : ∀ file ∈ files, ∀ text, disk.read? file.path = some text → made (file.reading text)
  single : ∀ file ∈ files, ∀ other ∈ files, other.uri = file.uri →
    ∀ text text', disk.read? file.path = some text → disk.read? other.path = some text' →
      text' = text
  tells : ∀ file ∈ files, ∀ text, disk.read? file.path = some text →
    ∀ r, made r → r.uri = file.uri → r.hash = ContentHash.ofText text →
      ∃ other ∈ files, other.uri = file.uri ∧ r = other.reading text

theorem SourceFile.holds_analyse {server : Server} (file : SourceFile) {text : String}
    (htimely : server.index.Timely)
    (hknown : server.document? file.url = some (file.document text))
    (hok : (parse text).ok = true) :
    (server.analyse file.url text .bootstrap).2.index.table.Holds (file.reading text) := by
  have hreading : file.reading text = ⟨file.url.render, (file.document text).kind, text⟩ := rfl
  rw [hreading]
  exact Server.holds_analyse htimely hknown hok

namespace Recognised

variable {disk : Disk} {files : List SourceFile} {file other : SourceFile} {text : String}

/-- What is kept under the hash of the present text comes from this text. -/
theorem holdsFile_of_hash (h : Recognised made disk files) (hfile : file ∈ files)
    (hread : disk.read? file.path = some text) {t : SymbolTable} (hsettled : t.Settled made)
    (hhash : t.hashes.get? file.uri = some (ContentHash.ofText text)) :
    t.HoldsFile disk files file := by
  intro text' hread' _
  rw [hread, Option.some.injEq] at hread'
  subst hread'
  rcases hsettled file.uri with ⟨-, hnone⟩ | ⟨r, hr, huri, hholds⟩
  · rw [hnone] at hhash
    cases hhash
  · have hrhash := hholds.2
    rw [huri, hhash, Option.some.injEq] at hrhash
    obtain ⟨other, hother, hsame, rfl⟩ := h.tells file hfile text hread r hr huri hrhash.symm
    exact ⟨other, hother, hsame, hholds⟩

/-- An analysis of a file does no harm to other files, nor to the file under another name. -/
theorem holdsFile_analyse (h : Recognised made disk files) (hfile : file ∈ files)
    (hread : disk.read? file.path = some text) {server : Server} (htimely : server.index.Timely)
    (hknown : server.document? file.url = some (file.document text)) (hother : other ∈ files)
    (hholds : other ≠ file → server.index.table.HoldsFile disk files other) :
    (server.analyse file.url text .bootstrap).2.index.table.HoldsFile disk files other := by
  intro text' hread' hok
  by_cases huri : other.uri = file.uri
  · obtain rfl := h.single file hfile other hother huri text text' hread hread'
    exact ⟨file, hfile, huri.symm, file.holds_analyse htimely hknown hok⟩
  · have hne : other ≠ file := fun heq => huri (congrArg SourceFile.uri heq)
    obtain ⟨found, hfound, hsame, hheld⟩ := hholds hne text' hread' hok
    refine ⟨found, hfound, hsame, hheld.of_agrees (Server.agrees_analyse ?_)⟩
    exact fun heq => huri (hsame.symm.trans heq)

end Recognised

namespace IndexRun

/-- Where the reading of some files stands when the first of them are done: of each of these
that can be read and has no errors the text is in the table. -/
structure Covers (made : Reading → Prop) (disk : Disk) (files done : List SourceFile)
    (session : Session) : Prop where
  sameDisk : session.disk = disk
  orderly : session.server.Orderly made
  closed : session.server.Every fun document => document.isOpen = false
  timely : session.server.index.Timely
  holds : ∀ file ∈ done, session.server.index.table.HoldsFile disk files file
  forgets : ∀ uri, uri ∉ files.map (·.uri) → session.server.index.table.Forgets uri

variable {disk : Disk} {files done : List SourceFile}

theorem Covers.reads {run : IndexRun} {file : SourceFile} {session : Session}
    (h : Covers made disk files done run.session) (hreads : run.Reads file session)
    (hproject : Recognised made disk files) (hfile : file ∈ files)
    (hdone : ∀ other ∈ done, other ∈ files) :
    Covers made disk files (done ++ [file]) session := by
  have hdisk : session.disk = disk := (Session.SameProject.of_reads hreads).disk.trans h.sameDisk
  have horderly : session.server.Orderly made := by
    refine Session.orderly_reads hreads h.orderly ?_
    rw [h.sameDisk]
    exact hproject.among file hfile
  have hconcat : ∀ {t : SymbolTable}, (∀ other ∈ done, t.HoldsFile disk files other) →
      t.HoldsFile disk files file → ∀ other ∈ done ++ [file], t.HoldsFile disk files other :=
    fun hbefore hnow => List.forall_mem_append.mpr ⟨hbefore, List.forall_mem_singleton.mpr hnow⟩
  cases hreads with
  | missing sent hread =>
      rw [h.sameDisk] at hread
      refine ⟨hdisk, horderly, h.closed, h.timely, hconcat h.holds ?_, h.forgets⟩
      intro text htext
      rw [hread] at htext
      cases htext
  | opened sent hopen =>
      obtain ⟨document, hdocument, hisOpen⟩ := hopen
      rw [(h.closed _ _ hdocument).2] at hisOpen
      cases hisOpen
  | @unchanged text sent hread hrestored hhash =>
      rw [h.sameDisk] at hread
      refine ⟨hdisk, horderly, h.closed.putDocument rfl, h.timely, hconcat h.holds ?_, h.forgets⟩
      exact hproject.holdsFile_of_hash hfile hread h.orderly.table hhash
  | @analysed text sent hread =>
      rw [h.sameDisk] at hread
      have hclosed : (run.session.server.putDocument (file.document text)).Every
          fun document => document.isOpen = false := h.closed.putDocument rfl
      have hknown : (run.session.server.putDocument (file.document text)).document? file.url =
          some (file.document text) := run.session.server.document?_putDocument rfl
      have hindex : run.session.server.index =
          (run.session.server.putDocument (file.document text)).index := rfl
      have htimely := h.timely
      have hbefore := h.holds
      have hforgets := h.forgets
      rw [hindex] at htimely hbefore hforgets
      -- Where the document comes from has no part in its analysis.
      generalize run.session.server.putDocument (file.document text) = server at *
      refine ⟨hdisk, horderly, hclosed.analyse fun _ _ _ => id, Server.timely_analyse htimely,
        hconcat ?_ ?_, ?_⟩
      · intro other hother
        exact hproject.holdsFile_analyse hfile hread htimely hknown (hdone other hother)
          fun _ => hbefore other hother
      · exact hproject.holdsFile_analyse hfile hread htimely hknown hfile (absurd rfl)
      · intro uri huri
        refine (hforgets uri huri).of_agrees (Server.agrees_analyse ?_)
        rintro rfl
        exact huri (List.mem_map_of_mem hfile)

theorem Covers.steps {run : IndexRun} (h : Covers made disk files done run.session)
    (hproject : Recognised made disk files) {rest : List SourceFile}
    (hrest : ∀ file ∈ rest, file ∈ files) (hdone : ∀ file ∈ done, file ∈ files) :
    Covers made disk files (done ++ rest) (rest.foldl IndexRun.step run).session := by
  induction rest generalizing done run with
  | nil =>
      rw [List.append_nil]
      exact h
  | cons file rest ih =>
      obtain ⟨hfile, hrest⟩ := List.forall_mem_cons.mp hrest
      have hstep := h.reads (run.reads_step file).1 hproject hfile hdone
      rw [List.append_cons]
      refine ih hstep hrest ?_
      rw [List.forall_mem_append, List.forall_mem_singleton]
      exact ⟨hdone, hfile⟩

end IndexRun

/-! ### From the start to the end -/

theorem SymbolTable.Settled.mono {made' : Reading → Prop} {t : SymbolTable} (h : t.Settled made)
    (hmade : ∀ r, made r → made' r) : t.Settled made' := by
  intro uri
  rcases h uri with hforgets | ⟨r, hr, huri, hholds⟩
  · exact .inl hforgets
  · exact .inr ⟨r, hmade r hr, huri, hholds⟩

namespace Session

variable {session earlier : Session} {root : FilePath}

theorem discovered_of_root (h : session.server.root? = some root) :
    session.discovered = Discovery.files session.disk root.onDisk := by
  rw [discovered, h]

theorem discovered_of_none (h : session.server.root? = none) : session.discovered = [] := by
  rw [discovered, h]

theorem FilesAmong.of_discovered (h : ∀ file ∈ session.discovered, ∀ text,
    session.disk.read? file.path = some text → made (file.reading text)) :
    session.FilesAmong made := by
  intro root config file text hroot _ hfile hread
  refine h file ?_ text hread
  rw [discovered_of_root hroot]
  unfold filesToIndex at hfile
  dsimp only at hfile
  split at hfile
  · exact List.mem_of_mem_take hfile
  · exact hfile

/-- The files that a session finds are of the kinds under which some texts were read in their
place. -/
def KeepsKinds (made : Reading → Prop) (session : Session) : Prop :=
  ∀ file ∈ session.discovered, ∀ r, made r → r.uri = file.uri →
    ∃ other ∈ session.discovered, other.uri = file.uri ∧ r.kind = other.kind

/-- No other of some texts in the place of a file has the hash of the text that it has now. -/
def WithoutCollision (made : Reading → Prop) (session : Session) : Prop :=
  ∀ file ∈ session.discovered, ∀ text, session.disk.read? file.path = some text →
    ∀ r, made r → r.uri = file.uri → r.hash = ContentHash.ofText text → r.text = text

/-- The texts of earlier sessions and those of the files that a session finds. -/
def involved (made : Reading → Prop) (session : Session) (r : Reading) : Prop :=
  made r ∨ ∃ file ∈ session.discovered, ∃ text, session.disk.read? file.path = some text ∧
    r = file.reading text

/-- Files that a session finds with one address have one text. -/
theorem text_eq {file other : SourceFile} (hfile : file ∈ session.discovered)
    (hother : other ∈ session.discovered) (huri : other.uri = file.uri) {text text' : String}
    (htext : session.disk.read? file.path = some text)
    (htext' : session.disk.read? other.path = some text') : text' = text := by
  cases hroot : session.server.root? with
  | none =>
      rw [discovered_of_none hroot] at hfile
      cases hfile
  | some root =>
      rw [discovered_of_root hroot] at hfile hother
      exact Discovery.text_eq hother hfile huri htext' htext

theorem recognised_involved (hkinds : session.KeepsKinds made)
    (hhash : session.WithoutCollision made) :
    Recognised (session.involved made) session.disk session.discovered := by
  have hsingle : ∀ file ∈ session.discovered, ∀ other ∈ session.discovered,
      other.uri = file.uri → ∀ text text', session.disk.read? file.path = some text →
        session.disk.read? other.path = some text' → text' = text :=
    fun _ hfile _ hother huri _ _ htext htext' => text_eq hfile hother huri htext htext'
  refine ⟨fun file hfile text htext => .inr ⟨file, hfile, text, htext, rfl⟩, hsingle, ?_⟩
  rintro file hfile text htext r (hr | ⟨other, hother, text', htext', rfl⟩) huri hrhash
  · obtain ⟨other, hother, hsame, hkind⟩ := hkinds file hfile r hr huri
    refine ⟨other, hother, hsame, ?_⟩
    rw [SourceFile.reading, hsame, ← huri, ← hkind, ← hhash file hfile text htext r hr huri hrhash]
  · refine ⟨other, hother, huri, ?_⟩
    rw [hsingle file hfile other hother huri text text' htext htext']

theorem index_indexing (hfresh : session.Fresh) :
    ∃ readiness, session.indexing.server.index = { readiness } := by
  obtain ⟨readiness, hadvance⟩ := exists_advance session.server.index .indexing
  unfold indexing
  rw [hadvance, hfresh.index]
  exact ⟨readiness, rfl⟩

/-- When a new session begins to read its files, it knows no document and what it kept of
others is settled. -/
theorem covers_start (hfresh : session.Fresh) (hearlier : earlier.server.index.table.Settled made)
    (hkept : (session.indexing.prepared root).KeepsFrom earlier) {files : List SourceFile}
    (hfiles : ((session.indexing.prepared root).filesToIndex root.onDisk
      (session.indexing.loadedConfig root)).1 = files) :
    IndexRun.Covers made (session.indexing.prepared root).disk files []
      (session.indexing.prepareIndex root).1.session := by
  have hstart : (session.indexing.startTable root).Settled made := settled_startTable hearlier hkept
  have hforgets : ∀ uri, uri ∉ files.map (·.uri) → (session.indexing.startTable root).Forgets uri :=
    fun uri huri => forgets_startTable (hfiles ▸ huri)
  have htimely : session.indexing.server.index.Timely := by
    obtain ⟨readiness, hindex⟩ := index_indexing hfresh
    intro uri
    rw [hindex]
    exact Nat.zero_lt_one
  have hdocuments : session.indexing.server.documents = .empty := hfresh.documents
  rw [(session.indexing.prepareIndex_eq root).1, server_prepared]
  generalize session.indexing.server = server at htimely hdocuments ⊢
  generalize session.indexing.startTable root = table at hstart hforgets ⊢
  have hdocuments' : ((server.setConfig (session.indexing.loadedConfig root)).setTable
      table).documents = .empty := hdocuments
  exact {
    sameDisk := rfl
    orderly := ⟨hstart, Server.every_of_empty hdocuments' _⟩
    closed := Server.every_of_empty hdocuments' _
    timely := htimely
    holds := List.forall_mem_nil _
    forgets := hforgets }

/-- After the last file nobody waits, so that nothing happens any more. -/
theorem table_indexRoot (hfresh : session.Fresh) (root : FilePath) :
    (session.indexing.indexRoot root).2.server.index.table =
      (session.indexing.afterFiles root).server.index.table := by
  have hwaiting : (session.indexing.afterFiles root).server.waiting = some [] := by
    rw [(session.indexing.afterFiles_project root).2.2.2]
    exact hfresh.waiting
  obtain ⟨readiness, sent, hindex⟩ := session.indexing.indexRoot_eq root
  rw [hindex, hwaiting]
  rfl

/-- Without a directory there are the built-in functions and no documents. -/
theorem indexNothing_eq (hfresh : session.Fresh) :
    ∃ index, index.table = ({} : SymbolTable).seedBuiltins Manual.bundled ∧
      session.indexing.indexNothing =
        { session with server := { session.server with index, waiting := none } } := by
  have htable : session.indexing.server.index.table = {} := by
    obtain ⟨readiness, hindex⟩ := index_indexing hfresh
    rw [hindex]
  have hwaiting : (session.indexing.server.setTable
      (session.indexing.server.index.table.seedBuiltins Manual.bundled)).waiting = some [] :=
    hfresh.waiting
  unfold indexNothing Server.finishIndexing
  dsimp only
  obtain ⟨readiness, hadvance⟩ := exists_advance (session.indexing.server.setTable
    (session.indexing.server.index.table.seedBuiltins Manual.bundled)).index .ready
  rw [hadvance, hwaiting, htable]
  exact ⟨_, rfl, rfl⟩

/-- What is known when the files of a directory have been read. -/
theorem covers_afterFiles {after : Session} (hearlier : earlier.Reached made)
    (hfresh : session.Fresh) (hroot : session.server.root? = some root)
    (hafter : (session.indexing.indexRoot root).2 = after) (hkept : after.KeepsFrom earlier)
    (hlimit : ∀ config, after.server.config = some config → config.indexing.maxFiles = none)
    (hkinds : after.KeepsKinds made) (hhash : after.WithoutCollision made) :
    IndexRun.Covers (after.involved made) after.disk after.discovered after.discovered
      (session.indexing.afterFiles root) := by
  obtain ⟨hdisk, hfolders, hconfig⟩ := session.indexing.indexRoot_project root
  rw [hafter] at hdisk hfolders hconfig
  have hroot' : after.server.root? = some root := by
    rw [Server.root?, hfolders]
    exact hroot
  have hfiles : ((session.indexing.prepared root).filesToIndex root.onDisk
      (session.indexing.loadedConfig root)).1 = after.discovered := by
    rw [filesToIndex, hlimit _ hconfig, discovered_of_root hroot', hdisk]
  have hsettled : earlier.server.index.table.Settled (after.involved made) :=
    hearlier.orderly.table.mono fun _ => .inl
  rw [← hafter] at hkept
  have hstart := covers_start hfresh hsettled hkept.before hfiles
  rw [← hdisk] at hstart
  have hread := hstart.steps (recognised_involved hkinds hhash) (fun _ => id)
    (List.forall_mem_nil _)
  rw [List.nil_append] at hread
  unfold afterFiles
  rw [(session.indexing.prepareIndex_eq root).2.2, hfiles]
  exact hread

/-- A warm start from the snapshot of a session in which only some texts were analysed, without
an open document and without a limit of files: when it is over, the table holds the present
text of every file that is found, can be read and has no errors, and it knows of no other
document. Files must be of the kinds that they had, and hashes must tell their texts apart from
the earlier ones. -/
theorem warm_start (hearlier : earlier.Reached made) (hfresh : session.Fresh)
    (hkept : session.indexWorkspace.2.KeepsFrom earlier)
    (hlimit : ∀ config, session.indexWorkspace.2.server.config = some config →
      config.indexing.maxFiles = none)
    (hkinds : session.indexWorkspace.2.KeepsKinds made)
    (hhash : session.indexWorkspace.2.WithoutCollision made) :
    let after := session.indexWorkspace.2
    (∀ file ∈ after.discovered, ∀ text, after.disk.read? file.path = some text →
      (parse text).ok = true →
        after.server.index.table.HoldsText after.discovered file.uri text) ∧
    ∀ uri, uri ∉ after.discovered.map (·.uri) → after.server.index.table.Forgets uri := by
  intro after
  cases hroot : session.server.root? with
  | none =>
      obtain ⟨index, htable, hindex⟩ := indexNothing_eq hfresh
      have hafter : after =
          { session with server := { session.server with index, waiting := none } } :=
        (congrArg Prod.snd (indexWorkspace_of_none hroot)).trans hindex
      have hfound : after.discovered = [] := by
        rw [hafter]
        exact discovered_of_none hroot
      refine ⟨?_, ?_⟩
      · rw [hfound]
        exact List.forall_mem_nil _
      · intro uri _
        rw [hafter]
        dsimp only
        rw [htable]
        exact ⟨rfl, rfl⟩
  | some root =>
      have hafter : (session.indexing.indexRoot root).2 = after := by
        rw [← indexWorkspace_of_root hroot]
      have hread := covers_afterFiles hearlier hfresh hroot hafter hkept hlimit hkinds hhash
      have htable := table_indexRoot hfresh root
      rw [hafter] at htable
      rw [htable]
      exact ⟨hread.holds, hread.forgets⟩

/-- What is found of a project when the workspace has been read. -/
theorem project_of_root (hroot : session.server.root? = some root) :
    let config := Storage.loadConfig session.disk root.onDisk
    session.indexWorkspace.2.disk = (Storage.loadManual session.disk config.manual).2 ∧
      session.indexWorkspace.2.server.root? = some root ∧
      session.indexWorkspace.2.server.config = some config := by
  obtain ⟨hdisk, hfolders, hconfig⟩ := session.indexing.indexRoot_project root
  have hloaded : session.indexing.loadedConfig root =
      Storage.loadConfig session.disk root.onDisk := by
    unfold loadedConfig
    rfl
  have hprepared : (session.indexing.prepared root).disk =
      (Storage.loadManual session.disk (session.indexing.loadedConfig root).manual).2 := by
    unfold prepared
    rfl
  rw [hprepared, hloaded] at hdisk
  rw [hloaded] at hconfig
  rw [indexWorkspace_of_root hroot]
  refine ⟨hdisk, ?_, hconfig⟩
  rw [Server.root?, hfolders]
  exact hroot

/-! ### A project that changes between two sessions -/

/-- The root directory of the project. -/
def sampleRoot : FilePath := ⟨"/p".toUTF8.toList⟩

/-- A project with an object that has two events. -/
def projectDisk (create : String) (kept : List (String × DiskNode)) : Disk :=
  let manual :=
    "\x7b\"functions\":[],\"variables\":[\x7b\"name\":\"x\",\"description\":\"\"\x7d]\x7d"
  let manifest :=
    "\x7b\"resources\":[\x7b\"id\":\x7b\"name\":\"o\",\"path\":\"objects/o/o.yy\"\x7d\x7d]\x7d"
  ⟨.directory [("p", .directory [
    (".gml-tools", .directory (("gmlDocs.json", .file (some manual)) :: kept)),
    ("objects", .directory [("o", .directory [
      ("Create_0.gml", .file (some create)),
      ("Step_0.gml", .file (some "hp -= 1;"))])]),
    ("p.yyp", .file (some manifest))])]⟩

def eventFile (event : String) : SourceFile :=
  let path := "/p/objects/o/" ++ event ++ ".gml"
  { path, url := { scheme := "file", authority := some {}, path }, kind := .objectEvent "o" event }

def startedOn (disk : Disk) : Session :=
  { server := { folders := [{ scheme := "file", authority := some {}, path := "/p" }] }, disk }

theorem fresh_startedOn (disk : Disk) : (startedOn disk).Fresh := ⟨rfl, rfl, rfl⟩

theorem root_startedOn (disk : Disk) : (startedOn disk).server.root? = some sampleRoot := by
  have hfolder : [({ scheme := "file", authority := some {}, path := "/p" } : Url)].findSome?
      Url.filePath? = some sampleRoot := by decide +kernel
  exact hfolder

/-- The reading of a project with a manual that is kept changes nothing on its disk. -/
theorem indexWorkspace_project (session : Session) (root : FilePath) (config : ProjectConfig)
    (hroot : session.server.root? = some root)
    (hconfig : Storage.loadConfig session.disk root.onDisk = config)
    (hmanual : (Storage.keptManual? session.disk config.manual.cachePath).isSome = true) :
    session.indexWorkspace.2.disk = session.disk ∧
      session.indexWorkspace.2.server.root? = some root ∧
      session.indexWorkspace.2.server.config = some config := by
  obtain ⟨manual, hkept⟩ := Option.isSome_iff_exists.mp hmanual
  obtain ⟨hdisk, hfound, hloaded⟩ := project_of_root hroot
  rw [hconfig] at hdisk hloaded
  have hloadManual : Storage.loadManual session.disk config.manual = (manual, session.disk) := by
    unfold Storage.loadManual
    rw [hkept]
  exact ⟨hdisk.trans (congrArg Prod.snd hloadManual), hfound, hloaded⟩

/-- What a session finds of the project, if it finds its two events. -/
structure Samples (disk : Disk) (create : String) : Prop where
  sameDisk : (startedOn disk).indexWorkspace.2.disk = disk
  config : (startedOn disk).indexWorkspace.2.server.config = some (.base "/p")
  discovered : (startedOn disk).indexWorkspace.2.discovered =
    [eventFile "Create_0", eventFile "Step_0"]
  create : disk.read? (eventFile "Create_0").path = some create
  step : disk.read? (eventFile "Step_0").path = some "hp -= 1;"

def objectResource : Resource := ⟨"o", .object, "objects/o/o.yy"⟩

/-- The manifest of the project. -/
def objectManifest : String :=
  "\x7b\"resources\":[\x7b\"id\":\x7b\"name\":\"o\",\"path\":\"objects/o/o.yy\"\x7d\x7d]\x7d"

-- The kernel takes a long literal apart slowly, its list of characters is at hand.
theorem objectManifest_reads : Manifest.parse? objectManifest = some ⟨[objectResource]⟩ := by
  rw [show objectManifest = String.ofList _ from rfl, Manifest.parse?_ofList, Json.read?_ofList]
  decide +kernel

theorem Samples.of_disk {disk : Disk} {create : String}
    (hconfig : Storage.loadConfig disk sampleRoot.onDisk = .base "/p")
    (hmanual : (Storage.keptManual? disk (ProjectConfig.base "/p").manual.cachePath).isSome = true)
    (hpath : (Discovery.withExtension disk sampleRoot.onDisk "yyp").head? = some "/p/p.yyp")
    (htext : disk.read? "/p/p.yyp" = some objectManifest)
    (hfiles : Discovery.resourceFiles disk sampleRoot.onDisk objectResource =
      [eventFile "Create_0", eventFile "Step_0"])
    (hcreate : disk.read? (eventFile "Create_0").path = some create)
    (hstep : disk.read? (eventFile "Step_0").path = some "hp -= 1;") : Samples disk create := by
  obtain ⟨hdisk, hroot', hloaded⟩ := (startedOn disk).indexWorkspace_project sampleRoot (.base "/p")
    (root_startedOn disk) hconfig hmanual
  have hmanifest := (Discovery.manifest?_of_text _ hpath htext).trans objectManifest_reads
  have hlisted := Discovery.files_of_manifest? hmanifest
  rw [List.flatMap_singleton, hfiles] at hlisted
  refine ⟨hdisk, hloaded, ?_, hcreate, hstep⟩
  rw [discovered_of_root hroot', hdisk]
  exact hlisted

/-- The project as its first session finds it. -/
theorem samples_projectDisk : Samples (projectDisk "hp = 3;" []) "hp = 3;" :=
  .of_disk (by decide +kernel) (by decide +kernel) (by decide +kernel) (by decide +kernel)
    (by decide +kernel) (by decide +kernel) (by decide +kernel)

/-- The project as its first session leaves it. -/
def firstSession : Session := (startedOn (projectDisk "hp = 3;" [])).indexWorkspace.2

/-- The texts that the first session reads. -/
def firstTexts (r : Reading) : Prop :=
  r = (eventFile "Create_0").reading "hp = 3;" ∨ r = (eventFile "Step_0").reading "hp -= 1;"

theorem reached_firstSession : firstSession.Reached firstTexts := by
  refine .index (.start (fresh_startedOn _)) (.start (fresh_startedOn {})) ?_ ?_
  · intro config snapshot hconfig hsnapshot
    have hnone : (Storage.loadSnapshot? (projectDisk "hp = 3;" [])
        (ProjectConfig.base "/p").indexing.cacheDir).isNone = true := by decide +kernel
    rw [samples_projectDisk.config, Option.some.injEq] at hconfig
    rw [← hconfig, samples_projectDisk.sameDisk] at hsnapshot
    rw [hsnapshot] at hnone
    cases hnone
  · apply FilesAmong.of_discovered
    rw [samples_projectDisk.discovered, samples_projectDisk.sameDisk, List.forall_mem_cons,
      List.forall_mem_singleton, samples_projectDisk.create, samples_projectDisk.step]
    refine ⟨?_, ?_⟩
    · rintro _ ⟨⟩
      exact .inl rfl
    · rintro _ ⟨⟩
      exact .inr rfl

/-- The project later, with the snapshot of its first session and another text of an event. -/
def changedDisk : Disk :=
  projectDisk "mana = 5;" [("index-cache", .directory [("index.json",
    .file (some firstSession.server.index.table.snapshot.render))])]

theorem samples_changedDisk : Samples changedDisk "mana = 5;" :=
  .of_disk (by decide +kernel) (by decide +kernel) (by decide +kernel) (by decide +kernel)
    (by decide +kernel) (by decide +kernel) (by decide +kernel)

theorem keepsKinds_changedDisk :
    (startedOn changedDisk).indexWorkspace.2.KeepsKinds firstTexts := by
  rw [KeepsKinds, samples_changedDisk.discovered]
  rintro file hfile r (rfl | rfl) hr
  · exact ⟨eventFile "Create_0", List.mem_cons_self, hr, rfl⟩
  · exact ⟨eventFile "Step_0", List.mem_cons_of_mem _ List.mem_cons_self, hr, rfl⟩

theorem withoutCollision_changedDisk :
    (startedOn changedDisk).indexWorkspace.2.WithoutCollision firstTexts := by
  have huri : (eventFile "Create_0").uri ≠ (eventFile "Step_0").uri := by decide +kernel
  have hother : ContentHash.ofText "hp = 3;" ≠ ContentHash.ofText "mana = 5;" := by decide +kernel
  rw [WithoutCollision, samples_changedDisk.discovered, samples_changedDisk.sameDisk,
    List.forall_mem_cons, List.forall_mem_singleton, samples_changedDisk.create,
    samples_changedDisk.step]
  refine ⟨?_, ?_⟩
  · rintro _ ⟨⟩ r (rfl | rfl) hr hhash
    · exact absurd hhash hother
    · exact absurd hr.symm huri
  · rintro _ ⟨⟩ r (rfl | rfl) hr hhash
    · exact absurd hr huri
    · rfl

/-- The project as the session after the change leaves it. -/
def secondSession : Session := (startedOn changedDisk).indexWorkspace.2

theorem warm_start_after_change :
    secondSession.server.index.table.HoldsText secondSession.discovered (eventFile "Create_0").uri
        "mana = 5;" ∧
      secondSession.server.index.table.HoldsText secondSession.discovered (eventFile "Step_0").uri
        "hp -= 1;" := by
  unfold secondSession
  have hkept : (startedOn changedDisk).indexWorkspace.2.KeepsFrom firstSession := by
    intro config snapshot hconfig _
    rw [samples_changedDisk.config, Option.some.injEq] at hconfig
    rw [← hconfig, samples_changedDisk.sameDisk]
    rfl
  have hlimit : ∀ config, (startedOn changedDisk).indexWorkspace.2.server.config = some config →
      config.indexing.maxFiles = none := by
    intro config hconfig
    rw [samples_changedDisk.config, Option.some.injEq] at hconfig
    rw [← hconfig]
    rfl
  obtain ⟨hholds, -⟩ := warm_start reached_firstSession (fresh_startedOn changedDisk) hkept hlimit
    keepsKinds_changedDisk withoutCollision_changedDisk
  rw [samples_changedDisk.sameDisk] at hholds
  refine ⟨hholds (eventFile "Create_0") ?_ "mana = 5;" samples_changedDisk.create
      (by decide +kernel),
    hholds (eventFile "Step_0") ?_ "hp -= 1;" samples_changedDisk.step (by decide +kernel)⟩
  · rw [samples_changedDisk.discovered]
    exact List.mem_cons_self
  · rw [samples_changedDisk.discovered]
    exact List.mem_cons_of_mem _ List.mem_cons_self

end Session

end Gml
