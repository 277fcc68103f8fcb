import Gml.Proofs.Server.Documentation
import Gml.Proofs.Server.Starting

/-!
# Opening a file before or after the workspace is read

A file that is open while the workspace is read is analysed under the kind that its own path
gives; one that is opened later is analysed under the kind of a listing in the project. Apart from
that the order does not matter.
-/
namespace Gml

namespace SymbolTable

variable {t t' : SymbolTable} {uri : Uri} {update : DocUpdate}

/-- The script that a document is linked to, when its documentation changes. -/
theorem Updates.scriptAt?_eq (h : Updates uri update t t') (ht : t.Linked) (ht' : t'.Linked) :
    t'.scriptAt? uri = (t.scriptAt? uri).map update.applyTo := by
  have hat : ∀ {t : SymbolTable}, t.Linked → ∀ name, t.scriptAt.get? uri = some name →
      t.scriptAt? uri = t.scriptOf? uri name := by
    intro t ht name hlink
    obtain ⟨script, hscript, huri⟩ := ht.linked uri name hlink
    rw [scriptAt?, hlink, Option.bind_some, scriptOf?, hscript, Option.filter_some, if_pos]
    simpa using huri
  cases hlink : t.scriptAt.get? uri with
  | none =>
      rw [scriptAt?, scriptAt?, h.link, hlink]
      rfl
  | some name =>
      rw [hat ht name hlink, hat ht' name (h.link.trans hlink), h.scripts, if_pos hlink]

end SymbolTable

/-! ### The two orders -/

namespace Session

open Server (Evolves)

/-- A new server that finds no snapshot and reads all files that it finds. -/
structure StartsCold (session : Session) : Prop where
  fresh : session.Fresh
  snapshot : ∀ config, session.indexWorkspace.2.server.config = some config →
    Storage.loadSnapshot? session.indexWorkspace.2.disk config.indexing.cacheDir = none
  limit : ∀ config, session.indexWorkspace.2.server.config = some config →
    config.indexing.maxFiles = none

variable {session : Session} {url : Url} {version : Int} {text name : String} {file : SourceFile}

namespace StartsCold

theorem table_eq (h : session.StartsCold) :
    session.firstRun.1.restored = false ∧ ∃ manual,
      session.firstRun.1.session.server.index.table =
        (({} : SymbolTable).seedBuiltins manual).registerAll
          session.indexWorkspace.2.discovered := by
  rw [← files_firstRun h.limit]
  exact cold_firstRun h.fresh.index h.snapshot

theorem linked (h : session.StartsCold) :
    session.firstRun.1.session.server.index.table.Linked := by
  obtain ⟨-, manual, htable⟩ := h.table_eq
  rw [htable]
  refine SymbolTable.Linked.registerAll ?_ _
  exact SymbolTable.Linked.empty.of_eq rfl rfl

/-- The names of all listed scripts are taken before the first file is read. -/
theorem taken (h : session.StartsCold) (hfile : file ∈ session.indexWorkspace.2.discovered)
    (hkind : file.kind = .script name) :
    session.firstRun.1.session.server.index.table.Taken name := by
  obtain ⟨-, manual, htable⟩ := h.table_eq
  rw [htable]
  exact SymbolTable.taken_registerAll rfl rfl hfile hkind

end StartsCold

theorem didOpen_of_fresh (h : session.Fresh) (url : Url) (version : Int) (text : String) :
    session.didOpen url version text = { session with server := { session.server.putDocument
      { url, version, content := text, kind := url.documentKind, isOpen := true } with
        waiting := some [url] } } := by
  have hunknown : session.server.document? url = none := by
    rw [Server.document?, h.documents]
    rfl
  have hopening : session.opening url version text =
      { url, version, content := text, kind := url.documentKind, isOpen := true } := by
    rw [opening, hunknown]
    rfl
  let document : Document :=
    { url, version, content := text, kind := url.documentKind, isOpen := true }
  let opened : Session := { session with server := session.server.putDocument document }
  have hwaiting : opened.server.waiting = some [] := h.waiting
  rw [didOpen, openDocument_eq, hopening]
  exact whenReady_of_waiting hwaiting url _

/-- A document that is opened before the workspace is read has its turn when all files have been
read, and until then nothing happens to it and its script. -/
theorem exists_turn_of_opened (h : session.StartsCold) (url : Url) (version : Int)
    (text : String) :
    ∃ ready : Session,
      (session.didOpen url version text).indexWorkspace.2 = ready.replay url ∧
      ready.server.Steady ∧ ready.server.document? url = some
        { url, version, content := text, kind := url.documentKind, isOpen := true } ∧
      ready.server.index.table.Linked ∧
      SymbolTable.Updates url.render .unchanged session.firstRun.1.session.server.index.table
        ready.server.index.table ∧
      ∀ name, session.firstRun.1.session.server.index.table.Taken name →
        ready.server.index.table.Taken name := by
  let document : Document :=
    { url, version, content := text, kind := url.documentKind, isOpen := true }
  have hopened := didOpen_of_fresh h.fresh url version text
  generalize session.didOpen url version text = opened at hopened ⊢
  have hsteady : opened.server.Steady := by
    rw [hopened]
    have hput := h.fresh.steady.putDocument document
    exact ⟨hput.keyed, hput.timely⟩
  obtain ⟨htable, -⟩ : opened.firstRun.1.session.server.index.table =
      session.firstRun.1.session.server.index.table ∧ _ :=
    firstRun_congr (by rw [hopened]) (by rw [hopened]; rfl) (by rw [hopened]; rfl)
  have hfirst : opened.firstRun.1.session.server.document? url = some document := by
    rw [Server.document?, opened.firstRun_eq.1, hopened]
    have hkey : document.url.render = url.render := rfl
    exact session.server.document?_putDocument hkey
  have hstart := steady_firstRun hsteady
  have hlinked := h.linked
  rw [← htable] at hlinked ⊢
  obtain ⟨ready, hready, hindex, hreadyTable, hleaves⟩ := opened.ready_eq hsteady
  have hwaiting : opened.server.waiting = some [url] := by rw [hopened]
  rw [hwaiting] at hindex
  -- While the files are read, the document is open and its address is passed over.
  have hread : Server.LeavesAt url.render opened.firstRun.1.session.server ready.server := by
    refine Server.LeavesAt.trans ?_ (hleaves url.render)
    unfold filesRead
    exact IndexRun.leavesAt_steps_of_open hstart (Server.hasOpen_of_some hfirst) _
  obtain ⟨hlinked', hupdates⟩ := hread.scripts hlinked
  refine ⟨ready, hindex, hready, hread.document.trans hfirst, hlinked', hupdates, ?_⟩
  intro name htaken
  have hevolves : Evolves (fun _ _ => True) opened.firstRun.1.session.server
      (opened.firstRun.2.foldl IndexRun.step opened.firstRun.1).session.server :=
    evolves_steps (fun _ => trivial) _
  rw [hreadyTable]
  unfold filesRead
  exact hevolves.taken hlinked htaken

/-- If nobody waits, the reading of the workspace is over with the last file. -/
theorem indexWorkspace_of_fresh (h : session.Fresh) :
    session.indexWorkspace.2.server.index.table = session.filesRead.server.index.table ∧
      ∀ url, session.indexWorkspace.2.server.document? url =
        session.filesRead.server.document? url := by
  obtain ⟨ready, -, hindex, htable, hleaves⟩ := session.ready_eq h.steady
  rw [h.waiting] at hindex
  have hsame : session.indexWorkspace.2 = ready := hindex
  rw [hsame]
  exact ⟨htable, fun url => (hleaves url.render).document⟩

/-- A file that is found has the kind of one of its listings when the workspace has been read,
and its script hears what its text says or nothing. -/
theorem exists_listing_of_found (h : session.StartsCold)
    (hfile : file ∈ session.indexWorkspace.2.discovered)
    (hread : session.indexWorkspace.2.disk.read? file.path = some text)
    (hok : (parse text).ok = true) :
    let found := session.indexWorkspace.2
    (∃ listed ∈ found.discovered, listed.uri = file.uri ∧ ∃ document,
      found.server.document? file.url = some document ∧ document.kind = listed.kind) ∧
    found.server.index.table.Linked ∧
    (∀ name, session.firstRun.1.session.server.index.table.Taken name →
      found.server.index.table.Taken name) ∧
    ∃ said, (said = .unchanged ∨ said = Docs.update text ∧
        ∃ listed ∈ found.discovered, listed.uri = file.uri ∧ listed.kind.isScript = true) ∧
      SymbolTable.Updates file.uri said session.firstRun.1.session.server.index.table
        found.server.index.table := by
  intro found
  obtain ⟨htable, hdocuments⟩ := indexWorkspace_of_fresh h.fresh
  have hdisk : found.disk = session.firstRun.1.session.disk := session.project_indexWorkspace.1
  have hfiles : session.firstRun.2 = found.discovered := files_firstRun h.limit
  have hsteady := steady_firstRun h.fresh.steady
  have hclosed : session.firstRun.1.session.server.hasOpen file.url = false := by
    rw [Server.hasOpen, Server.document?, session.firstRun_eq.1, h.fresh.documents]
    rfl
  rw [htable, hdocuments]
  unfold filesRead
  rw [hfiles]
  have hread' : session.firstRun.1.session.disk.read? file.path = some text := hdisk ▸ hread
  obtain ⟨listed, hlisted, huri, document, hdocument, hkind, -⟩ :=
    IndexRun.document?_steps hsteady hclosed hfile rfl hread'
  have hevolves : Evolves (fun _ _ => True) session.firstRun.1.session.server
      (found.discovered.foldl IndexRun.step session.firstRun.1).session.server :=
    evolves_steps (fun _ => trivial) _
  refine ⟨⟨listed, hlisted, huri, document, hdocument, hkind⟩, hevolves.linked h.linked,
    fun name => hevolves.taken h.linked, ?_⟩
  have hsingle : ∀ other ∈ found.discovered, other.uri = file.uri → ∀ text',
      session.firstRun.1.session.disk.read? other.path = some text' → text' = text := by
    intro other hother hat text' hread'
    rw [← hdisk] at hread'
    exact text_eq hfile hother hat hread hread'
  obtain ⟨-, htold, hother⟩ := IndexRun.updates_steps hsteady h.linked hclosed hok hsingle
  by_cases htells : session.firstRun.1.Tells file.uri text found.discovered
  · exact ⟨_, .inr ⟨rfl, IndexRun.exists_of_tells htells⟩, htold htells⟩
  · exact ⟨_, .inl rfl, hother htells⟩

theorem server_didOpen_of_ready (hready : session.server.waiting = none) (url : Url)
    (version : Int) (text : String) :
    (session.didOpen url version text).server =
      (((session.server.putDocument (session.opening url version text)).register url).analyse url
        text .full).2 := by
  obtain ⟨sent, hpublish⟩ := publish_eq { session with
    server := (session.server.putDocument (session.opening url version text)).register url } url
    (some version) text
  rw [didOpen, openDocument_eq, whenReady_of_ready]
  · exact congrArg Session.server hpublish
  · exact hready

/-- A text without errors that is opened before the workspace is read is read under the kind of
its path, and its script hears what it says, if its name was taken at the start. -/
theorem opened_first (h : session.StartsCold) (url : Url) (version : Int)
    (hok : (parse text).ok = true) :
    let reading : Reading := ⟨url.render, url.documentKind, text⟩
    let start := session.firstRun.1.session.server.index.table
    let before := (session.didOpen url version text).indexWorkspace.2.server.index.table
    before.contribution? url.render = reading.contribution.stored ∧
    ((∀ name, url.documentKind = .script name → start.Taken name) →
      before.scriptAt? url.render = (start.scriptAt? url.render).map reading.update.applyTo) := by
  intro reading start before
  obtain ⟨ready, hindex, hready, hwaits, hreadyLinked, hupdates, htaken⟩ :=
    exists_turn_of_opened h url version text
  have hbefore : before = ((ready.server.register url).analyse url text .full).2.index.table := by
    dsimp only [before]
    rw [hindex, server_replay hwaits]
  refine ⟨?_, fun hnames => ?_⟩
  · rw [hbefore]
    exact (Server.holds_analyse (Server.steady_register hready url).timely
      ((Server.document?_register _ _ _).trans hwaits) hok).1
  · obtain ⟨hlinked, hturn⟩ := Server.updates_register_analyse hready hreadyLinked hwaits
      (fun name hname => htaken name (hnames name hname)) text .full
    have hlast := (hupdates.trans hturn).scriptAt?_eq h.linked hlinked
    rw [DocUpdate.unchanged_andThen, ← hbefore] at hlast
    exact hlast

/-- A file that is opened when the workspace has been read is read under the kind of one of its
listings, and its script hears what its text says under this kind. -/
theorem opened_later (h : session.StartsCold)
    (hfile : file ∈ session.indexWorkspace.2.discovered)
    (hread : session.indexWorkspace.2.disk.read? file.path = some text)
    (hok : (parse text).ok = true) (version : Int) :
    let found := session.indexWorkspace.2
    let start := session.firstRun.1.session.server.index.table
    let after := (found.didOpen file.url version text).server.index.table
    ∃ listed ∈ found.discovered, listed.uri = file.uri ∧
      after.contribution? file.uri = (listed.reading text).contribution.stored ∧
      ∃ said, (said = .unchanged ∨ said = Docs.update text ∧
          ∃ other ∈ found.discovered, other.uri = file.uri ∧ other.kind.isScript = true) ∧
        after.scriptAt? file.uri = (start.scriptAt? file.uri).map
          (said.andThen (listed.reading text).update).applyTo := by
  intro found start after
  obtain ⟨⟨listed, hlisted, huri, document, hdocument, hkind⟩, hfoundLinked, hfoundTaken,
    said, hsaid, hupdates⟩ := exists_listing_of_found h hfile hread hok
  have hsteady : found.server.Steady := steady_indexWorkspace h.fresh.steady
  let opened : Document := { document with version, content := text, isOpen := true, dirty := true }
  have hopening : found.opening file.url version text = opened := by
    rw [opening, hdocument]
    rfl
  have hafter : after = (((found.server.putDocument opened).register file.url).analyse file.url
      text .full).2.index.table := by
    dsimp only [after]
    rw [server_didOpen_of_ready session.indexWorkspace_ready, ← hopening]
  have hkey := hsteady.key_eq hdocument
  have hopened : (found.server.putDocument opened).document? file.url = some opened :=
    found.server.document?_putDocument hkey
  have hput := hsteady.putDocument opened
  have hreading : Reading.mk file.url.render opened.kind text = listed.reading text := by
    rw [SourceFile.reading, huri]
    exact congrArg (Reading.mk file.uri · text) hkind
  refine ⟨listed, hlisted, huri, ?_, said, hsaid, ?_⟩
  · rw [hafter, ← hreading]
    exact (Server.holds_analyse (Server.steady_register hput file.url).timely
      ((Server.document?_register _ _ _).trans hopened) hok).1
  · obtain ⟨hlinked, hturn⟩ := Server.updates_register_analyse hput hfoundLinked hopened
      (fun name hname => hfoundTaken name (h.taken hlisted (hkind.symm.trans hname))) text .full
    rw [hreading] at hturn
    have hlast := (hupdates.trans hturn).scriptAt?_eq h.linked hlinked
    rw [← hafter] at hlast
    exact hlast

/-- A file of a cold start whose text has no errors may be opened before the workspace is read or
afterwards. First it is read under the kind that its path gives, then under that of a listing. If
all its listings are of the kind that its path gives, the same is read in it and its script is the
same, with the same signature. -/
theorem opening_commutes (h : session.StartsCold)
    (hfile : file ∈ session.indexWorkspace.2.discovered)
    (hread : session.indexWorkspace.2.disk.read? file.path = some text)
    (hok : (parse text).ok = true) (version : Int) :
    let found := session.indexWorkspace.2
    let before := (session.didOpen file.url version text).indexWorkspace.2.server.index.table
    let after := (found.didOpen file.url version text).server.index.table
    before.contribution? file.uri =
      (Reading.mk file.uri file.url.documentKind text).contribution.stored ∧
    (∃ listed ∈ found.discovered, listed.uri = file.uri ∧
      after.contribution? file.uri = (listed.reading text).contribution.stored) ∧
    ((∀ listed ∈ found.discovered, listed.uri = file.uri →
        listed.kind = file.url.documentKind) →
      before.contribution? file.uri = after.contribution? file.uri ∧
        before.scriptAt? file.uri = after.scriptAt? file.uri) := by
  intro found before after
  obtain ⟨hbefore, hscript⟩ := opened_first h file.url version hok
  obtain ⟨listed, hlisted, huri, hafter, said, hsaid, hscript'⟩ :=
    opened_later h hfile hread hok version
  refine ⟨hbefore, ⟨listed, hlisted, huri, hafter⟩, fun hkinds => ?_⟩
  have hreading : listed.reading text = ⟨file.uri, file.url.documentKind, text⟩ := by
    rw [SourceFile.reading, huri, hkinds listed hlisted huri]
  rw [hreading] at hafter hscript'
  -- What the file said when it was read is said once more when it is opened.
  have hsame : said.andThen (Reading.update ⟨file.uri, file.url.documentKind, text⟩) =
      Reading.update ⟨file.uri, file.url.documentKind, text⟩ := by
    rcases hsaid with hnone | ⟨htold, other, hother, hat, hisScript⟩
    · rw [hnone]
      exact DocUpdate.unchanged_andThen _
    · rw [hkinds other hother hat] at hisScript
      rw [htold, Reading.update, if_pos ⟨hok, hisScript⟩]
      exact DocUpdate.andThen_self _
  have htaken : ∀ name, file.url.documentKind = .script name →
      session.firstRun.1.session.server.index.table.Taken name := fun name hname =>
    h.taken hlisted ((hkinds listed hlisted huri).trans hname)
  refine ⟨hbefore.trans hafter.symm, ?_⟩
  rw [hsame] at hscript'
  exact (hscript htaken).trans hscript'.symm

/-! ### A script in its own directory and one in another -/

/-- The code of the script. -/
def jumpText : String := "/// jump(height)\n"

/-- A manual with one variable. -/
def plainManual : String := "\x7b\"variables\":[\x7b\"name\":\"x\"\x7d]\x7d"

/-- A project with one script and a manual. -/
def scriptDisk (directory manual : String) (kept : List (String × DiskNode)) : Disk :=
  let manifest := "\x7b\"resources\":[\x7b\"id\":\x7b\"name\":\"jump\",\"path\":\"scripts/" ++
    directory ++ "/jump.yy\"\x7d\x7d]\x7d"
  ⟨.directory [("p", .directory [
    (".gml-tools", .directory (("gmlDocs.json", .file (some manual)) :: kept)),
    ("p.yyp", .file (some manifest)),
    ("scripts", .directory [(directory, .directory [("jump.gml", .file (some jumpText))])])])]⟩

/-- The script lies in the directory of its name. -/
def ownDisk : Disk := scriptDisk "jump" plainManual []

/-- The manifest finds the script in the directory of another name. -/
def movedDisk : Disk := scriptDisk "moves" plainManual []

def jumpResource : Resource := ⟨"jump", .script, "scripts/jump/jump.yy"⟩

/-- The manifest of the script in its own directory. -/
def ownManifest : String :=
  "\x7b\"resources\":[\x7b\"id\":\x7b\"name\":\"jump\",\"path\":\"scripts/jump/jump.yy\"\x7d\x7d]\x7d"

theorem ownManifest_reads : Manifest.parse? ownManifest = some ⟨[jumpResource]⟩ := by
  rw [show ownManifest = String.ofList _ from rfl, Manifest.parse?_ofList, Json.read?_ofList]
  decide +kernel

def movedResource : Resource := ⟨"jump", .script, "scripts/moves/jump.yy"⟩

/-- The manifest of the script in another directory. -/
def movedManifest : String :=
  "\x7b\"resources\":[\x7b\"id\":\x7b\"name\":\"jump\",\"path\":\"scripts/moves/jump.yy\"\x7d\x7d]\x7d"

theorem movedManifest_reads : Manifest.parse? movedManifest = some ⟨[movedResource]⟩ := by
  rw [show movedManifest = String.ofList _ from rfl, Manifest.parse?_ofList, Json.read?_ofList]
  decide +kernel

def jumpFile (directory : String) : SourceFile :=
  let path := "/p/scripts/" ++ directory ++ "/jump.gml"
  { path, url := { scheme := "file", authority := some {}, path }, kind := .script "jump" }

/-- What a session finds of the project, if it finds its script. -/
structure FindsJump (disk : Disk) (directory : String) : Prop where
  sameDisk : (startedOn disk).indexWorkspace.2.disk = disk
  config : (startedOn disk).indexWorkspace.2.server.config = some (.base "/p")
  discovered : (startedOn disk).indexWorkspace.2.discovered = [jumpFile directory]
  text : (startedOn disk).indexWorkspace.2.disk.read? (jumpFile directory).path = some jumpText

namespace FindsJump

variable {disk : Disk} {directory : String}

theorem of_disk {manifest : String} {resource : Resource}
    (hconfig : Storage.loadConfig disk sampleRoot.onDisk = .base "/p")
    (hmanual : (Storage.keptManual? disk (ProjectConfig.base "/p").manual.cachePath).isSome = true)
    (hpath : (Discovery.withExtension disk sampleRoot.onDisk "yyp").head? = some "/p/p.yyp")
    (hmanifest : disk.read? "/p/p.yyp" = some manifest)
    (hreads : Manifest.parse? manifest = some ⟨[resource]⟩)
    (hfiles : Discovery.resourceFiles disk sampleRoot.onDisk resource =
      [jumpFile directory])
    (htext : disk.read? (jumpFile directory).path = some jumpText) : FindsJump disk directory := by
  obtain ⟨hdisk, hroot, hloaded⟩ := (startedOn disk).indexWorkspace_project sampleRoot (.base "/p")
    (root_startedOn disk) hconfig hmanual
  have hlisted := Discovery.files_of_manifest?
    ((Discovery.manifest?_of_text _ hpath hmanifest).trans hreads)
  rw [List.flatMap_singleton, hfiles] at hlisted
  refine ⟨hdisk, hloaded, ?_, ?_⟩
  · rw [discovered_of_root hroot, hdisk]
    exact hlisted
  · rw [hdisk]
    exact htext

theorem mem_discovered (h : FindsJump disk directory) :
    jumpFile directory ∈ (startedOn disk).indexWorkspace.2.discovered := by
  rw [h.discovered]
  exact List.mem_singleton_self _

theorem limit (h : FindsJump disk directory) (config : ProjectConfig)
    (hconfig : (startedOn disk).indexWorkspace.2.server.config = some config) :
    config.indexing.maxFiles = none := by
  rw [h.config, Option.some.injEq] at hconfig
  rw [← hconfig]
  rfl

/-- What the file of the script is read with. -/
theorem start (h : FindsJump disk directory) :
    let config := ProjectConfig.base "/p"
    let kept := (startedOn disk).indexWorkspace.2.restoredTable? config
    let table := (kept.getD {}).seedBuiltins (Storage.loadManual disk config.manual).1
    (startedOn disk).firstRun.2 = [jumpFile directory] ∧
      (startedOn disk).firstRun.1.restored = kept.isSome ∧
      (startedOn disk).firstRun.1.session.server.index.table =
        (if kept.isSome then table.prune [jumpFile directory] else table).registerAll
          [jumpFile directory] := by
  have hfiles := (files_firstRun h.limit).trans h.discovered
  obtain ⟨config, hconfig, hrestored, htable⟩ := table_firstRun (root_startedOn disk)
  rw [h.config, Option.some.injEq] at hconfig
  subst hconfig
  rw [hfiles] at htable
  exact ⟨hfiles, hrestored, htable⟩

theorem no_snapshot (h : FindsJump disk directory)
    (hsnapshot : (Storage.loadSnapshot? disk (ProjectConfig.base "/p").indexing.cacheDir).isNone =
      true) (config : ProjectConfig)
    (hconfig : (startedOn disk).indexWorkspace.2.server.config = some config) :
    Storage.loadSnapshot? (startedOn disk).indexWorkspace.2.disk config.indexing.cacheDir =
      none := by
  rw [h.config, Option.some.injEq] at hconfig
  rw [h.sameDisk, ← hconfig]
  exact Option.isNone_iff_eq_none.mp hsnapshot

end FindsJump

/-- A project that is new finds its script, which says nothing before its file is read. -/
structure StartsWithJump (disk : Disk) (directory : String) : Prop where
  finds : FindsJump disk directory
  cold : (startedOn disk).StartsCold
  link : (startedOn disk).firstRun.1.session.server.index.table.scriptAt.get?
    (jumpFile directory).uri = some "jump"
  script : (startedOn disk).firstRun.1.session.server.index.table.scripts.get? "jump" =
    some { name := "jump", uri := (jumpFile directory).uri }

/-- The table of a new project when its script is registered. -/
def jumpTable (disk : Disk) (directory : String) : SymbolTable :=
  (({} : SymbolTable).seedBuiltins (Storage.loadManual disk
    (ProjectConfig.base "/p").manual).1).registerAll [jumpFile directory]

theorem StartsWithJump.of_disk {disk : Disk} {directory : String} (h : FindsJump disk directory)
    (hsnapshot : (Storage.loadSnapshot? disk (ProjectConfig.base "/p").indexing.cacheDir).isNone =
      true)
    (htable : (jumpTable disk directory).scriptAt.get? (jumpFile directory).uri = some "jump" ∧
      (jumpTable disk directory).scripts.get? "jump" =
        some { name := "jump", uri := (jumpFile directory).uri }) :
    StartsWithJump disk directory := by
  have hkept : (startedOn disk).indexWorkspace.2.restoredTable? (.base "/p") = none := by
    rw [restoredTable?, h.sameDisk, Option.isNone_iff_eq_none.mp hsnapshot, Option.bind_none,
      ite_self]
  obtain ⟨-, -, hstart⟩ := h.start
  rw [hkept] at hstart
  refine ⟨h, ⟨fresh_startedOn _, h.no_snapshot hsnapshot, h.limit⟩, ?_, ?_⟩
  · rw [hstart]
    exact htable.1
  · rw [hstart]
    exact htable.2

/-- The code of the script has no errors, and it says something about the script. -/
theorem jumpText_reads :
    (parse jumpText).ok = true ∧ (Docs.read (parse jumpText).tree).1.isSome = true :=
  ⟨by decide +kernel, by decide +kernel⟩

theorem own_project : StartsWithJump ownDisk "jump" :=
  .of_disk (.of_disk (by decide +kernel) (by decide +kernel) (by decide +kernel)
    (by decide +kernel) ownManifest_reads (by decide +kernel) (by decide +kernel))
    (by decide +kernel) (by decide +kernel)

theorem moved_project : StartsWithJump movedDisk "moves" :=
  .of_disk (.of_disk (by decide +kernel) (by decide +kernel) (by decide +kernel)
    (by decide +kernel) movedManifest_reads (by decide +kernel) (by decide +kernel))
    (by decide +kernel) (by decide +kernel)

theorem opening_commutes_in_own_directory :
    let session := startedOn ownDisk
    let file := jumpFile "jump"
    let before := (session.didOpen file.url 1 jumpText).indexWorkspace.2.server.index.table
    let after := (session.indexWorkspace.2.didOpen file.url 1 jumpText).server.index.table
    before.contribution? file.uri = after.contribution? file.uri ∧
      before.scriptAt? file.uri = after.scriptAt? file.uri := by
  obtain ⟨hfound, hcold, -, -⟩ := own_project
  have hkind : (jumpFile "jump").kind = (jumpFile "jump").url.documentKind := by decide +kernel
  obtain ⟨-, -, hsame⟩ :=
    opening_commutes hcold hfound.mem_discovered hfound.text jumpText_reads.1 1
  refine hsame ?_
  rw [hfound.discovered, List.forall_mem_singleton]
  exact fun _ => hkind

/-- A script in the directory of another name that is opened first never has its signature. -/
theorem opening_differs_in_other_directory :
    let session := startedOn movedDisk
    let file := jumpFile "moves"
    let before := (session.didOpen file.url 1 jumpText).indexWorkspace.2.server.index.table
    let after := (session.indexWorkspace.2.didOpen file.url 1 jumpText).server.index.table
    session.StartsCold ∧ file ∈ session.indexWorkspace.2.discovered ∧
    session.indexWorkspace.2.disk.read? file.path = some jumpText ∧ (parse jumpText).ok = true ∧
    (before.scriptAt? file.uri).map (·.signature) = some none ∧
    (after.scriptAt? file.uri).map (fun script => script.signature.map (·.label)) =
      some (some "jump(height)") := by
  obtain ⟨hfound, hcold, hlink, hscript⟩ := moved_project
  obtain ⟨hok, -⟩ := jumpText_reads
  have hfile := hfound.mem_discovered
  have htext := hfound.text
  have hdiscovered := hfound.discovered
  clear hfound
  generalize startedOn movedDisk = session at *
  intro _ file _ _
  have hstart : session.firstRun.1.session.server.index.table.scriptAt? file.uri =
      some { name := "jump", uri := file.uri } := by
    rw [SymbolTable.scriptAt?, hlink, Option.bind_some, hscript]
  have hkind : file.url.documentKind.isScript = false := by decide +kernel
  -- Under the kind of its path the file is no script.
  obtain ⟨-, hbefore⟩ := opened_first hcold file.url 1 hok
  have hnames : ∀ name, file.url.documentKind = .script name →
      session.firstRun.1.session.server.index.table.Taken name := by
    intro name hname
    rw [hname] at hkind
    cases hkind
  have hsilent := hbefore hnames
  rw [Reading.update, if_neg fun h => Bool.false_ne_true (hkind.symm.trans h.2)] at hsilent
  -- Under the kind of its listing it is one.
  obtain ⟨listed, hlisted, -, -, said, hsaid, hafter⟩ :=
    opened_later hcold hfile htext hok 1
  rw [hdiscovered, List.mem_singleton] at hlisted
  have hupdate : said.andThen (listed.reading jumpText).update = Docs.update jumpText := by
    have hreading : (listed.reading jumpText).update = Docs.update jumpText := by
      rw [hlisted, Reading.update]
      exact if_pos ⟨hok, rfl⟩
    rw [hreading]
    rcases hsaid with hnone | ⟨htold, -⟩
    · rw [hnone]
      exact DocUpdate.unchanged_andThen _
    · rw [htold]
      exact DocUpdate.andThen_self _
  rw [hupdate] at hafter
  have hscriptBefore := hsilent.trans (congrArg (Option.map DocUpdate.unchanged.applyTo) hstart)
  have hscriptAfter := hafter.trans (congrArg (Option.map (Docs.update jumpText).applyTo) hstart)
  have hlabel : ((Docs.update jumpText).applyTo { name := "jump", uri := file.uri }).signature.map
      (·.label) = some "jump(height)" := by
    decide +kernel
  exact ⟨hcold, hfile, htext, hok, congrArg (Option.map (·.signature)) hscriptBefore,
    (congrArg (Option.map fun script => script.signature.map (·.label)) hscriptAfter).trans
      (congrArg some hlabel)⟩

end Session

end Gml
