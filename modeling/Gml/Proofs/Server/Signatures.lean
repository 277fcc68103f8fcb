import Gml.Proofs.Server.Opening

/-!
# What scripts are said to take

The signature and the description of a script are those that the text of its file gives if the
file was analysed while its document was linked to the script. A file that is skipped, because the
restored table comes from its text, leaves the script as it was found.
-/
namespace Gml

/-- A script has the signature and the description that a text gives. -/
def ScriptRecord.Says (script : ScriptRecord) (text : String) : Prop :=
  script.signature = ((Docs.read (parse text).tree).1.map fun doc => doc.signature script.name) ∧
    script.doc = (Docs.read (parse text).tree).1.bind fun doc => doc.description

theorem ScriptRecord.says_iff {script : ScriptRecord} {text : String} :
    script.Says text ↔ (Docs.update text).applyTo script = script := by
  obtain ⟨name, uri, signature, doc⟩ := script
  rw [Says, Docs.update]
  cases (Docs.read (parse text).tree).1 with
  | none => simp [DocUpdate.applyTo, eq_comm]
  | some doc => simp [DocUpdate.applyTo, eq_comm]

theorem ScriptRecord.says_applyTo (script : ScriptRecord) (text : String) :
    ((Docs.update text).applyTo script).Says text := by
  rw [says_iff]
  have hself := (Docs.update text).applyTo_andThen (Docs.update text) script
  rw [DocUpdate.andThen_self] at hself
  exact hself.symm

namespace SymbolTable

variable {t : SymbolTable} {uri : Uri} {name : String}

/-- The scripts at an address when its document is registered: the one that the document is
linked to then may be new. -/
theorem scriptOf?_registerIfPossible (h : t.Linked) (uri : Uri) (kind : DocumentKind)
    (name : String) :
    (t.registerIfPossible uri kind).scriptOf? uri name =
      if (t.registerIfPossible uri kind).scriptAt.get? uri = some name ∧ kind.isScript = true
      then some ((t.scriptOf? uri name).getD { name, uri }) else t.scriptOf? uri name := by
  obtain ⟨scripts, scriptAt, objects, objectAt, hregister, -, ⟨rfl, rfl⟩ |
    ⟨own, rfl, hown, rfl, rfl⟩⟩ := t.registerIfPossible_eq uri kind
  · rw [hregister]
    split
    next hlink =>
        obtain ⟨script, hscript, huri⟩ := h.linked uri name hlink.1
        have hat : t.scriptOf? uri name = some script := by
          rw [scriptOf?, hscript, Option.filter_some, if_pos]
          simpa using huri
        rw [hat]
        exact hat
    · rfl
  · rw [hregister]
    dsimp only
    rw [Table.get?_set, if_pos rfl, scriptOf?, scriptOf?, Table.get?_set]
    by_cases hname : name = own
    · subst hname
      rw [if_pos rfl, if_pos ⟨rfl, rfl⟩, hown, Option.filter_some, if_pos (beq_self_eq_true uri)]
      rfl
    · rw [if_neg hname, if_neg fun hsame => hname (Option.some.inj hsame.1).symm]

end SymbolTable

/-! ### A turn -/

namespace Session

variable {session : Session} {document : Document} {url : Url} {text name : String}

/-- What the turn of a document does to the scripts at its address, if its text has no errors:
only a script whose document this is hears of it. -/
theorem scriptOf?_replay (hsteady : session.server.Steady)
    (hlinked : session.server.index.table.Linked)
    (hdocument : session.server.document? url = some document)
    (hok : (parse document.content).ok = true) :
    (session.replay url).server.index.table.Linked ∧
    ∀ name, (session.replay url).server.index.table.scriptOf? url.render name =
      if (session.replay url).server.index.table.scriptAt.get? url.render = some name ∧
          document.kind.isScript = true
      then some ((Docs.update document.content).applyTo
        ((session.server.index.table.scriptOf? url.render name).getD { name, uri := url.render }))
      else session.server.index.table.scriptOf? url.render name := by
  have hregister : (session.server.register url).index.table =
      session.server.index.table.registerIfPossible url.render document.kind := by
    rw [Server.register, hdocument]
    rfl
  have hknown : (session.server.register url).document? url = some document := by
    rw [Server.document?_register, hdocument]
  have hlinked' : (session.server.register url).index.table.Linked := by
    rw [hregister]
    exact hlinked.registerIfPossible _ _
  obtain ⟨hlinked'', hupdates⟩ := Server.updates_analyse (Server.steady_register hsteady url)
    hlinked' hknown document.content .full
  have hregistered := SymbolTable.scriptOf?_registerIfPossible hlinked url.render document.kind
  rw [← hregister] at hregistered
  rw [server_replay hdocument]
  refine ⟨hlinked'', fun name => ?_⟩
  rw [hupdates.scripts, hupdates.link, hregistered, Reading.update]
  dsimp only
  cases document.kind.isScript with
  | true =>
      simp only [hok, and_true, if_true]
      split
      · rfl
      · rfl
  | false =>
      have hsame : DocUpdate.unchanged.applyTo = id := rfl
      simp only [Bool.false_eq_true, and_false, if_false, hsame, Option.map_id, id_eq, ite_self]

theorem replayAll_append (session : Session) (urls more : List Url) :
    session.replayAll (urls ++ more) = (session.replayAll urls).replayAll more := by
  rw [replayAll, replayAll, replayAll, List.foldl_append]

theorem steady_replayAll (h : session.server.Steady) (urls : List Url) :
    (session.replayAll urls).server.Steady := by
  have hevolves : Server.Evolves (fun _ _ => True) session.server
      (session.replayAll urls).server := evolves_replayAll (fun _ => trivial) session urls
  exact hevolves.steady h

/-- What the turns of all documents that waited, each once, do to the scripts at an address. -/
theorem scriptOf?_replayAll (hsteady : session.server.Steady)
    (hlinked : session.server.index.table.Linked)
    (hdocument : session.server.document? url = some document)
    (hok : (parse document.content).ok = true) {urls : List Url}
    (hnodup : (urls.map Url.render).Nodup) (name : String) :
    (session.replayAll urls).server.index.table.scriptOf? url.render name =
      if url.render ∈ urls.map Url.render ∧ document.kind.isScript = true ∧
          (session.replayAll urls).server.index.table.scriptAt.get? url.render = some name
      then some ((Docs.update document.content).applyTo
        ((session.server.index.table.scriptOf? url.render name).getD { name, uri := url.render }))
      else session.server.index.table.scriptOf? url.render name := by
  by_cases hwaits : url.render ∈ urls.map Url.render
  · obtain ⟨first, hfirst, hsame⟩ := List.mem_map.mp hwaits
    obtain ⟨earlier, later, rfl⟩ := List.append_of_mem hfirst
    have hsplit : session.replayAll (earlier ++ first :: later) =
        ((session.replayAll earlier).replay first).replayAll later := replayAll_append _ _ _
    rw [List.map_append, List.map_cons, hsame, List.nodup_middle, List.nodup_cons,
      List.mem_append, not_or] at hnodup
    have hsteady' := steady_replayAll hsteady earlier
    have hbefore := leavesAt_replayAll hsteady hnodup.1.1
    obtain ⟨hlinked', hupdates⟩ := hbefore.scripts hlinked
    have hdocument' : (session.replayAll earlier).server.document? first = some document := by
      rw [Server.document?, hsame]
      exact hbefore.document.trans hdocument
    obtain ⟨hlinked'', hturn⟩ := scriptOf?_replay hsteady' hlinked' hdocument' hok
    obtain ⟨-, hupdates'⟩ :=
      (leavesAt_replayAll (steady_replay hsteady' first) hnodup.1.2).scripts hlinked''
    rw [hsame] at hturn
    rw [hsplit, hupdates'.scriptOf?_eq, hupdates'.link, hturn, hupdates.scriptOf?_eq]
    exact if_congr (by rw [and_comm, and_iff_right hwaits]) rfl rfl
  · rw [if_neg fun h => hwaits h.1]
    obtain ⟨-, hupdates⟩ := (leavesAt_replayAll hsteady hwaits).scripts hlinked
    exact hupdates.scriptOf?_eq name

/-! ### The whole reading -/

variable {file : SourceFile}

/-- The scripts at the address of a file that is not open: first the files are read, then it may
have a turn. -/
theorem scriptOf?_indexWorkspace (hsteady : session.server.Steady)
    (hlinked : session.firstRun.1.session.server.index.table.Linked)
    (hnodup : ((session.server.waiting.getD []).map Url.render).Nodup)
    (hfile : file ∈ session.firstRun.2)
    (hread : session.firstRun.1.session.disk.read? file.path = some text)
    (hok : (parse text).ok = true) (hclosed : session.server.hasOpen file.url = false) :
    let start := session.firstRun.1.session.server.index.table
    let after := session.indexWorkspace.2.server
    ∃ document, after.document? file.url = some document ∧ ∀ name, ∃ read : Option ScriptRecord,
      (start.scriptAt.get? file.uri = some name ∧
          session.firstRun.1.Tells file.uri text session.firstRun.2 →
        read = (start.scriptOf? file.uri name).map (Docs.update text).applyTo) ∧
      (¬ (start.scriptAt.get? file.uri = some name ∧
          session.firstRun.1.Tells file.uri text session.firstRun.2) →
        read = start.scriptOf? file.uri name) ∧
      after.index.table.scriptOf? file.uri name =
        if file.uri ∈ (session.server.waiting.getD []).map Url.render ∧
            document.kind.isScript = true ∧ after.index.table.scriptAt.get? file.uri = some name
        then some ((Docs.update text).applyTo (read.getD { name, uri := file.uri })) else read := by
  intro start after
  have hsteady' := steady_firstRun hsteady
  have hclosed' : session.firstRun.1.session.server.hasOpen file.url = false :=
    (Server.hasOpen_of_eq (by rw [session.firstRun_eq.1])).trans hclosed
  -- The files are read.
  obtain ⟨hlinked', htold, hother⟩ :=
    IndexRun.updates_steps hsteady' hlinked hclosed' hok fun _ hother hat _ =>
      text_eq_of_mem_firstRun hfile hread hother hat
  obtain ⟨listed, hlisted, hat, document, hdocument, -, hcontent⟩ :=
    IndexRun.document?_steps hsteady' hclosed' hfile rfl hread
  obtain rfl := text_eq_of_mem_firstRun hfile hread hlisted hat hcontent
  -- Then whoever waits has a turn.
  obtain ⟨ready, hready, hindex, htable, hleaves⟩ := session.ready_eq hsteady
  have hknown : ready.server.document? file.url = some document := by
    refine (hleaves file.url.render).document.trans ?_
    unfold filesRead
    exact hdocument
  rw [filesRead] at htable
  rw [← htable] at hlinked' htold hother
  have hturns := scriptOf?_replayAll hready hlinked' hknown hok hnodup
  have hkept : ∃ last, after.document? file.url = some last ∧ last.kind = document.kind := by
    dsimp only [after]
    rw [hindex]
    by_cases hwaits : file.url.render ∈ (session.server.waiting.getD []).map Url.render
    · exact ⟨document.settled, (settled_replayAll hready hknown hwaits).1, rfl⟩
    · exact ⟨document, (leavesAt_replayAll hready hwaits).document.trans hknown, rfl⟩
  obtain ⟨last, hlast, hkind⟩ := hkept
  rw [← hindex] at hturns
  refine ⟨last, hlast, fun name => ⟨_, fun hheard => ?_, fun hnot => ?_, hkind ▸ hturns name⟩⟩
  · rw [(htold hheard.2).scripts]
    exact if_pos hheard.1
  · by_cases htells : session.firstRun.1.Tells file.uri document.content session.firstRun.2
    · rw [(htold htells).scripts]
      exact if_neg fun hlink => hnot ⟨hlink, htells⟩
    · exact (hother htells).scriptOf?_eq name

/-- What a script says comes from its file, from a turn of its document or from before. -/
theorem says_iff_of_reading (hsteady : session.server.Steady)
    (hlinked : session.firstRun.1.session.server.index.table.Linked)
    (hnodup : ((session.server.waiting.getD []).map Url.render).Nodup)
    (hfile : file ∈ session.firstRun.2)
    (hread : session.firstRun.1.session.disk.read? file.path = some text)
    (hok : (parse text).ok = true) (hclosed : session.server.hasOpen file.url = false)
    {script : ScriptRecord}
    (hscript : session.indexWorkspace.2.server.index.table.scriptOf? file.uri name = some script) :
    let start := session.firstRun.1
    let after := session.indexWorkspace.2.server
    script.Says text ↔
      (start.session.server.index.table.scriptAt.get? file.uri = some name ∧
        start.Tells file.uri text session.firstRun.2) ∨
      (file.uri ∈ (session.server.waiting.getD []).map Url.render ∧
        (∃ document, after.document? file.url = some document ∧ document.kind.isScript = true) ∧
        after.index.table.scriptAt.get? file.uri = some name) ∨
      ∃ found, start.session.server.index.table.scriptOf? file.uri name = some found ∧
        found.Says text := by
  intro start after
  obtain ⟨document, hdocument, hscripts⟩ :=
    scriptOf?_indexWorkspace hsteady hlinked hnodup hfile hread hok hclosed
  obtain ⟨read, hheard, hnot, hlast⟩ := hscripts name
  have hkind : (∃ document, after.document? file.url = some document ∧
      document.kind.isScript = true) ↔ document.kind.isScript = true := by
    rw [hdocument]
    simp only [Option.some.injEq, exists_eq_left']
  rw [hscript] at hlast
  rw [hkind]
  split at hlast
  next hturn =>
      rw [Option.some.injEq] at hlast
      refine iff_of_true ?_ (.inr (.inl hturn))
      rw [hlast]
      exact ScriptRecord.says_applyTo _ text
  next hturn =>
      subst hlast
      by_cases hread : start.session.server.index.table.scriptAt.get? file.uri = some name ∧
          start.Tells file.uri text session.firstRun.2
      · obtain ⟨found, -, hfound⟩ := Option.map_eq_some_iff.mp (hheard hread).symm
        refine iff_of_true ?_ (.inl hread)
        rw [← hfound]
        exact ScriptRecord.says_applyTo found text
      · rw [or_iff_right hread, or_iff_right hturn, ← hnot hread]
        simp only [Option.some.injEq, exists_eq_left']

/-- Where a script has its documentation from. The workspace is read after some events, with the
snapshot of any earlier session or none. A script whose file was read, has no errors and is not
open has the signature and the description that the text of the file gives if and only if the file
was analysed as the code of the script that its document was linked to; or the document was known
before, so that it had a turn as the code of the script that it is linked to in the end; or the
script had them before the first file was read. Files that are scripts and are not skipped always
give their scripts what they say. -/
theorem documentation_iff {session before after earlier : Session} {made : Reading → Prop}
    (hearlier : earlier.Reached made) (hfresh : session.Fresh) {events : List Event}
    (hbefore : session.receiveAll events = before) (hafter : before.indexWorkspace.2 = after)
    (hkept : after.KeepsFrom earlier) (hfile : file ∈ before.firstRun.2)
    (hread : after.disk.read? file.path = some text) (hok : (parse text).ok = true)
    (hclosed : after.server.hasOpen file.url = false) {script : ScriptRecord}
    (hscript : after.server.index.table.scripts.get? name = some script)
    (huri : script.uri = file.uri) :
    let start := before.firstRun.1
    (script.Says text ↔
      (start.session.server.index.table.scriptAt.get? file.uri = some name ∧
        start.Tells file.uri text before.firstRun.2) ∨
      ((before.server.document? file.url).isSome = true ∧
        (∃ document, after.server.document? file.url = some document ∧
          document.kind.isScript = true) ∧
        after.server.index.table.scriptAt.get? file.uri = some name) ∨
      ∃ found, start.session.server.index.table.scriptOf? file.uri name = some found ∧
        found.Says text) ∧
    ((∀ listed ∈ before.firstRun.2, listed.uri = file.uri → listed.kind.isScript = true) →
      start.skips file text = false →
      start.session.server.index.table.scriptAt.get? file.uri = some name → script.Says text) := by
  intro start
  have hwaits : before.Waits (events.filterMap Event.opened?) :=
    hbefore ▸ hfresh.waits.receiveAll hfresh.steady events
  have hsteady : before.server.Steady := hbefore ▸ steady_receiveAll hfresh.steady events
  have hlinked : start.session.server.index.table.Linked := by
    refine linked_firstRun ?_ hearlier.linked (hafter ▸ hkept)
    rw [hwaits.index]
    exact .empty
  obtain ⟨queue, hwaiting, hqueue⟩ := hwaits.queue
  have hnodup : ((before.server.waiting.getD []).map Url.render).Nodup := by
    rw [hwaiting, Option.getD_some, hqueue]
    exact SymbolTable.nodup_eraseDups _
  have hknown : file.uri ∈ (before.server.waiting.getD []).map Url.render ↔
      (before.server.document? file.url).isSome = true := by
    rw [hwaiting, Option.getD_some, hqueue, List.mem_eraseDups]
    exact (hwaits.known file.uri).symm
  have hread' : start.session.disk.read? file.path = some text := by
    rw [← hafter, before.project_indexWorkspace.1] at hread
    exact hread
  have hclosed' : before.server.hasOpen file.url = false := by
    rw [← hasOpen_indexWorkspace hsteady, hafter]
    exact hclosed
  have hat : before.indexWorkspace.2.server.index.table.scriptOf? file.uri name = some script := by
    rw [hafter, SymbolTable.scriptOf?, hscript, Option.filter_some, if_pos]
    simpa using huri
  have hiff := says_iff_of_reading hsteady hlinked hnodup hfile hread' hok hclosed' hat
  rw [hafter, hknown] at hiff
  refine ⟨hiff, fun hkinds hskips hlink => hiff.mpr (.inl ⟨hlink, ?_⟩)⟩
  exact IndexRun.tells_of_not_skips (steady_firstRun hsteady) hkinds
    (fun _ hother hat _ => text_eq_of_mem_firstRun hfile hread' hother hat) hfile hread' hskips

/-! ### A name that is built in for a time -/

theorem kept_of_no_snapshot {earlier : Session}
    (h : ∀ config, session.server.config = some config →
      Storage.loadSnapshot? session.disk config.indexing.cacheDir = none) :
    session.KeepsFrom earlier := by
  intro config snapshot hconfig hsnapshot
  rw [h config hconfig] at hsnapshot
  cases hsnapshot

theorem hasOpen_of_fresh (h : session.Fresh) (url : Url) :
    session.indexWorkspace.2.server.hasOpen url = false := by
  rw [hasOpen_indexWorkspace h.steady, Server.hasOpen, Server.document?, h.documents]
  rfl

theorem says_in_own_directory :
    ∃ script,
      (startedOn ownDisk).indexWorkspace.2.server.index.table.scripts.get? "jump" = some script ∧
        script.Says jumpText := by
  obtain ⟨hfound, hcold, hlink, hstart⟩ := own_project
  obtain ⟨hok, -⟩ := jumpText_reads
  have hfile := hfound.mem_discovered
  have htext := hfound.text
  have hdiscovered := hfound.discovered
  clear hfound
  generalize startedOn ownDisk = session at *
  have hfiles := files_firstRun hcold.limit
  obtain ⟨-, -, -, said, -, hupdates⟩ := exists_listing_of_found hcold hfile htext hok
  have hat := hupdates.scripts "jump"
  rw [if_pos hlink, SymbolTable.scriptOf?, SymbolTable.scriptOf?, hstart, Option.filter_some,
    if_pos (beq_self_eq_true _), Option.map_some, Option.filter_eq_some_iff] at hat
  have hearlier : ({} : Session).Reached fun _ => False := .start ⟨rfl, rfl, rfl⟩
  have hbefore : session.receiveAll [] = session := rfl
  obtain ⟨-, hsays⟩ := documentation_iff hearlier hcold.fresh hbefore rfl
    (kept_of_no_snapshot hcold.snapshot) (hfiles ▸ hfile) htext hok
    (hasOpen_of_fresh hcold.fresh _) hat.1 (said.applyTo_place _).2
  refine ⟨_, hat.1, hsays ?_ ?_ hlink⟩
  · rw [hfiles, hdiscovered, List.forall_mem_singleton]
    exact fun _ => rfl
  · rw [IndexRun.skips, hcold.table_eq.1, Bool.false_and]

/-- The project while its manual has a function with the name of the script. -/
def namesakeDisk : Disk :=
  scriptDisk "jump" "\x7b\"functions\":[\x7b\"name\":\"jump\",\"parameters\":[]\x7d]\x7d" []

/-- The session that cannot register the script. -/
def namesakeSession : Session := (startedOn namesakeDisk).indexWorkspace.2

/-- The project with another manual and the snapshot of this session. -/
def renewedDisk : Disk :=
  scriptDisk "jump" plainManual [("index-cache", .directory [("index.json",
    .file (some namesakeSession.server.index.table.snapshot.render))])]

theorem renewed_project : FindsJump renewedDisk "jump" :=
  .of_disk (by decide +kernel) (by decide +kernel) (by decide +kernel) (by decide +kernel)
    ownManifest_reads (by decide +kernel) (by decide +kernel)

theorem reached_namesake :
    namesakeSession.Reached fun r => r = (jumpFile "jump").reading jumpText := by
  have hfound : FindsJump namesakeDisk "jump" :=
    .of_disk (by decide +kernel) (by decide +kernel) (by decide +kernel) (by decide +kernel)
      ownManifest_reads (by decide +kernel) (by decide +kernel)
  have hsnapshot := hfound.no_snapshot (by decide +kernel)
  refine .index (.start (fresh_startedOn _)) (.start (fresh_startedOn {}))
    (kept_of_no_snapshot hsnapshot) (FilesAmong.of_discovered ?_)
  rw [hfound.discovered, List.forall_mem_singleton, hfound.text]
  rintro _ ⟨⟩
  rfl

theorem kept_renewed : (startedOn renewedDisk).indexWorkspace.2.KeepsFrom namesakeSession := by
  intro config snapshot hconfig _
  rw [renewed_project.config, Option.some.injEq] at hconfig
  rw [← hconfig, renewed_project.sameDisk]
  rfl

/-- What the snapshot has: the hash of the file, and no script. -/
def namesakeSnapshot : Snapshot where
  version := Snapshot.currentVersion
  hasher := ContentHash.hasherName
  scripts := []
  objects := []
  files := [{
    uri := (jumpFile "jump").uri
    contentHash := some (ContentHash.ofText jumpText) }]

theorem read_namesake :
    Snapshot.read namesakeSession.server.index.table.snapshot.render = .ok namesakeSnapshot := by
  have hsnapshot : namesakeSession.server.index.table.snapshot = namesakeSnapshot := by
    decide +kernel
  have hfits : namesakeSnapshot.Fits := by
    refine ⟨by decide, List.forall_mem_nil _, ?_⟩
    rw [namesakeSnapshot, List.forall_mem_singleton]
    simp [Contribution.Fits]
  rw [hsnapshot, Snapshot.read, Snapshot.decode_render.mpr ⟨hfits, rfl⟩]
  rfl

/-- The table with which the file of the script is read. -/
def renewedTable : SymbolTable :=
  let kept := (SymbolTable.ofSnapshot namesakeSnapshot).toOption
  let manual := (Storage.loadManual renewedDisk (ProjectConfig.base "/p").manual).1
  (((kept.getD {}).seedBuiltins manual).prune [jumpFile "jump"]).registerAll [jumpFile "jump"]

theorem renewed_start :
    (startedOn renewedDisk).firstRun.2 = [jumpFile "jump"] ∧
      (startedOn renewedDisk).firstRun.1.restored = true ∧
      (startedOn renewedDisk).firstRun.1.session.server.index.table = renewedTable := by
  have hkept : (startedOn renewedDisk).indexWorkspace.2.restoredTable? (.base "/p") =
      (SymbolTable.ofSnapshot namesakeSnapshot).toOption := by
    have htext : renewedDisk.read? (Storage.snapshotPath (ProjectConfig.base "/p").indexing.cacheDir)
        = some namesakeSession.server.index.table.snapshot.render := rfl
    rw [restoredTable?, renewed_project.sameDisk, Storage.loadSnapshot?, htext, Option.bind_some,
      read_namesake]
    rfl
  obtain ⟨hfiles, hrestored, htable⟩ := renewed_project.start
  rw [hkept] at hrestored htable
  exact ⟨hfiles, hrestored, htable⟩

theorem renewedTable_reads :
    renewedTable.hashes.get? (jumpFile "jump").uri = some (ContentHash.ofText jumpText) ∧
      renewedTable.scriptOf? (jumpFile "jump").uri "jump" =
        some { name := "jump", uri := (jumpFile "jump").uri } := by
  decide +kernel

/-- A script that could not be registered in one session, because its name was that of a built-in
function, has no signature in the next one: its file is skipped. -/
theorem script_silent_after_namesake :
    let session := startedOn renewedDisk
    let after := session.indexWorkspace.2
    let file := jumpFile "jump"
    (∃ made, namesakeSession.Reached made) ∧ session.Fresh ∧ after.KeepsFrom namesakeSession ∧
    file ∈ session.firstRun.2 ∧ after.disk.read? file.path = some jumpText ∧
    (parse jumpText).ok = true ∧ after.server.hasOpen file.url = false ∧
    ∃ script, after.server.index.table.scripts.get? "jump" = some script ∧
      script.uri = file.uri ∧ ¬ script.Says jumpText := by
  obtain ⟨hok, hdoc⟩ := jumpText_reads
  have hfresh := fresh_startedOn renewedDisk
  have hkept := kept_renewed
  have htext := renewed_project.text
  have hdisk := (startedOn renewedDisk).project_indexWorkspace.1
  obtain ⟨hfiles, hrestored, htable⟩ := renewed_start
  obtain ⟨hhash, hstart⟩ := renewedTable_reads
  rw [← htable] at hhash hstart
  generalize startedOn renewedDisk = session at *
  have hfile : jumpFile "jump" ∈ session.firstRun.2 := by
    rw [hfiles]
    exact List.mem_singleton_self _
  have hlinked : session.firstRun.1.session.server.index.table.Linked := by
    refine linked_firstRun ?_ reached_namesake.linked hkept
    rw [hfresh.index]
    exact .empty
  have hclosed : session.server.hasOpen (jumpFile "jump").url = false := by
    rw [Server.hasOpen, Server.document?, hfresh.documents]
    rfl
  -- The file is skipped, and nobody waits for a turn.
  have hskips : session.firstRun.1.skips (jumpFile "jump") jumpText = true := by
    rw [IndexRun.skips, hrestored, hhash, beq_self_eq_true, Bool.true_and]
  have hsilent : ¬ session.firstRun.1.Tells (jumpFile "jump").uri jumpText session.firstRun.2 := by
    rw [hfiles]
    rintro (hnow | hlater)
    · exact Bool.false_ne_true (hnow.2.2.2.symm.trans hskips)
    · exact hlater
  obtain ⟨document, -, hscripts⟩ := scriptOf?_indexWorkspace hfresh.steady hlinked
    (by rw [hfresh.waiting]; exact List.nodup_nil) hfile (hdisk ▸ htext) hok hclosed
  obtain ⟨read, -, hnot, hlast⟩ := hscripts "jump"
  rw [hfresh.waiting, if_neg fun hturn => List.not_mem_nil hturn.1,
    hnot fun hheard => hsilent hheard.2, hstart] at hlast
  obtain ⟨hscript, -⟩ := Option.filter_eq_some_iff.mp hlast
  refine ⟨⟨_, reached_namesake⟩, hfresh, hkept, hfile, htext, hok, hasOpen_of_fresh hfresh _,
    _, hscript, rfl, fun hsays => ?_⟩
  have hnone := hsays.1
  rw [eq_comm, Option.map_eq_none_iff] at hnone
  rw [hnone] at hdoc
  cases hdoc

end Session

end Gml
