import Gml.Proofs.Server.Runs

/-!
# Documents that wait

Until the workspace has been read, events only give documents their texts and let them wait,
each once, in the order in which they were opened first. While the files are read, the open
documents are left alone. At the end each of them has its turn, with the text that it has then.
-/
namespace Gml

/-! ### Events before the workspace is read -/

namespace Session

/-- The document that an event opens. -/
def Event.opened? : Event → Option Uri
  | .didOpen url _ _ => some url.render
  | _ => none

variable {session : Session} {opened : List Uri} {url : Url}

/-- What there is before the workspace is read: nothing but documents with texts that nobody
has analysed, each of which waits. -/
structure Waits (opened : List Uri) (session : Session) : Prop where
  index : session.server.index = {}
  queue : ∃ urls, session.server.waiting = some urls ∧ urls.map Url.render = opened.eraseDups
  known : ∀ uri, (session.server.documents.get? uri).isSome = true ↔ uri ∈ opened
  dirty : ∀ uri document, session.server.documents.get? uri = some document → document.dirty = true

theorem Fresh.waits (h : session.Fresh) : session.Waits [] where
  index := h.index
  queue := ⟨[], h.waiting, rfl⟩
  known := by
    rw [h.documents]
    exact fun uri => ⟨nofun, nofun⟩
  dirty := by
    rw [h.documents]
    intro uri document hdocument
    cases hdocument

/-- Whoever does not wait yet comes last. -/
theorem map_enqueue {urls : List Url} (h : urls.map Url.render = opened.eraseDups) (url : Url) :
    (enqueue urls url).map Url.render = (opened ++ [url.render]).eraseDups := by
  have hany : urls.any (·.render == url.render) = true ↔ url.render ∈ opened := by
    rw [← List.mem_eraseDups, ← h, List.mem_map, List.any_eq_true]
    simp only [beq_iff_eq]
  rw [List.eraseDups_append, enqueue, List.removeAll]
  by_cases hmem : url.render ∈ opened
  · rw [if_pos (hany.mpr hmem), h]
    simp [hmem]
  · rw [if_neg (hany.not.mpr hmem), List.map_append, h]
    simp [hmem, List.eraseDups_cons]

namespace Waits

theorem putDocument (h : session.Waits opened) {document : Document}
    (hdirty : document.dirty = true) (hknown : document.url.render ∈ opened) :
    ({ session with server := session.server.putDocument document } : Session).Waits opened where
  index := h.index
  queue := h.queue
  known uri := by
    rw [Server.putDocument, Table.get?_set]
    split
    next heq =>
        subst heq
        exact ⟨fun _ => hknown, fun _ => rfl⟩
    · exact h.known uri
  dirty uri other hother := by
    rw [Server.putDocument, Table.get?_set] at hother
    split at hother
    · cases hother
      exact hdirty
    · exact h.dirty uri other hother

/-- Who waits already is not let wait again. -/
theorem whenReady (h : session.Waits opened) (hknown : url.render ∈ opened)
    (next : Session → Session) : (session.whenReady url next).Waits opened := by
  obtain ⟨urls, hwaiting, hurls⟩ := h.queue
  have hqueue := map_enqueue hurls url
  rw [List.eraseDups_append, List.removeAll] at hqueue
  rw [whenReady_of_waiting hwaiting]
  refine ⟨h.index, ⟨_, rfl, hqueue.trans ?_⟩, h.known, h.dirty⟩
  simp [hknown]

theorem didOpen (h : session.Waits opened) (hsteady : session.server.Steady) (url : Url)
    (version : Int) (text : String) :
    (session.didOpen url version text).Waits (opened ++ [url.render]) := by
  obtain ⟨urls, hwaiting, hurls⟩ := h.queue
  have hkey := opening_key hsteady.keyed url version text
  rw [Session.didOpen, openDocument_eq, whenReady_of_waiting]
  swap
  · exact hwaiting
  refine ⟨h.index, ⟨_, rfl, map_enqueue hurls url⟩, fun uri => ?_, fun uri document hdocument => ?_⟩
  · dsimp only [Server.putDocument]
    rw [Table.get?_set, hkey, List.mem_append, List.mem_singleton]
    split
    next heq => exact ⟨fun _ => .inr heq, fun _ => rfl⟩
    next hne => rw [h.known uri, or_iff_left hne]
  · dsimp only [Server.putDocument] at hdocument
    rw [Table.get?_set] at hdocument
    split at hdocument
    · cases hdocument
      rfl
    · exact h.dirty uri document hdocument

theorem mem_opened (h : session.Waits opened) {document : Document}
    (hdocument : session.server.document? url = some document) : url.render ∈ opened := by
  have hsome : (session.server.documents.get? url.render).isSome = true := by
    rw [← Server.document?, hdocument, Option.isSome_some]
  exact (h.known url.render).mp hsome

theorem update (h : session.Waits opened) (hsteady : session.server.Steady) {document : Document}
    (hdocument : session.server.document? url = some document) (version : Int) (text : String)
    (next : Session → Session) :
    ({ session with server := session.server.updateDocument url version text }.whenReady url
      next).Waits opened := by
  have hkey := hsteady.key_eq hdocument
  have hknown := h.mem_opened hdocument
  rw [Server.updateDocument, hdocument]
  refine (h.putDocument rfl ?_).whenReady hknown next
  rw [hkey]
  exact hknown

theorem didChange (h : session.Waits opened) (hsteady : session.server.Steady) (url : Url)
    (version : Int) (changes : List TextChange) :
    (session.didChange url version changes).Waits opened := by
  unfold Session.didChange
  split
  next document hdocument =>
      split
      · exact h
      next text _ => exact h.update hsteady hdocument version text _
  · exact h

theorem didSave (h : session.Waits opened) (url : Url) (saved : Option String) :
    (session.didSave url saved).Waits opened := by
  unfold Session.didSave
  split
  · exact h
  next document hdocument =>
      dsimp only
      split
      · exact h
      · exact h.whenReady (h.mem_opened hdocument) _

theorem didClose (h : session.Waits opened) (hsteady : session.server.Steady) (url : Url) :
    (session.didClose url).Waits opened := by
  unfold Session.didClose
  split
  · exact h
  next document hdocument =>
      have hkey := hsteady.key_eq hdocument
      have hdirty := h.dirty _ _ hdocument
      let closed : Document := { document with isOpen := false }
      have hclose : session.server.closeDocument url = session.server.putDocument closed := by
        rw [Server.closeDocument, hdocument]
      have hput : ({ session with server := session.server.putDocument closed } : Session).Waits
          opened := h.putDocument hdirty (hkey ▸ h.mem_opened hdocument)
      have hclosed : ({ session with server := session.server.closeDocument url }.send
          (.diagnostics url [] none)).Waits opened := by
        rw [hclose]
        exact ⟨hput.index, hput.queue, hput.known, hput.dirty⟩
      have hsteady' : (session.server.closeDocument url).Steady := by
        rw [hclose]
        exact hsteady.putDocument closed
      have hdocument' : (session.server.closeDocument url).document? url = some closed := by
        rw [hclose]
        exact session.server.document?_putDocument hkey
      dsimp only
      split
      · exact hclosed
      next text _ =>
          split
          · exact hclosed
          · exact hclosed.update hsteady' hdocument' 0 text _

/-- What an event does before the workspace is read. -/
theorem receive (h : session.Waits opened) (hsteady : session.server.Steady) (event : Event) :
    (session.receive event).Waits (opened ++ event.opened?.toList) := by
  cases event with
  | didOpen url version text => exact h.didOpen hsteady url version text
  | didChange url version changes =>
      simpa [Event.opened?, Session.receive] using h.didChange hsteady url version changes
  | didSave url saved => simpa [Event.opened?, Session.receive] using h.didSave url saved
  | didClose url => simpa [Event.opened?, Session.receive] using h.didClose hsteady url
  | configure settings =>
      have hsame : (session.receive (.configure settings)).Waits opened :=
        ⟨h.index, h.queue, h.known, h.dirty⟩
      simpa [Event.opened?] using hsame
  | disk disk =>
      have hsame : (session.receive (.disk disk)).Waits opened :=
        ⟨h.index, h.queue, h.known, h.dirty⟩
      simpa [Event.opened?] using hsame

theorem receiveAll (h : session.Waits opened) (hsteady : session.server.Steady)
    (events : List Event) :
    (session.receiveAll events).Waits (opened ++ events.filterMap Event.opened?) := by
  rw [Session.receiveAll]
  induction events generalizing session opened with
  | nil =>
      rw [List.filterMap_nil, List.append_nil]
      exact h
  | cons event rest ih =>
      have hrest := ih (h.receive hsteady event) (steady_receive hsteady event)
      rw [List.append_assoc] at hrest
      cases hopened : event.opened? with
      | none =>
          rw [hopened] at hrest
          rw [List.filterMap_cons_none hopened]
          exact hrest
      | some uri =>
          rw [hopened] at hrest
          rw [List.filterMap_cons_some hopened]
          exact hrest

end Waits

end Session

/-! ### Open documents while the files are read -/

namespace Server

theorem hasOpen_of_eq {server server' : Server} {url url' : Url}
    (h : server'.documents.get? url'.render = server.documents.get? url.render) :
    server'.hasOpen url' = server.hasOpen url := by
  rw [hasOpen, hasOpen, document?, document?, h]

theorem hasOpen_of_some {server : Server} {url : Url} {document : Document}
    (h : server.document? url = some document) : server.hasOpen url = document.isOpen := by
  rw [hasOpen, h, Option.map_some, Option.getD_some]

end Server

namespace IndexRun

variable {run : IndexRun} {url : Url}

/-- Whatever the file, nothing happens to an open document. -/
theorem leavesAt_step_of_open (hsteady : run.session.server.Steady)
    (hopen : run.session.server.hasOpen url = true) (file : SourceFile) :
    Server.LeavesAt url.render run.session.server (run.step file).session.server := by
  by_cases heq : url.render = file.uri
  · have hsame : run.session.server.hasOpen file.url = run.session.server.hasOpen url :=
      Server.hasOpen_of_eq (congrArg run.session.server.documents.get? heq.symm)
    rw [server_step_of_open (hsame.trans hopen)]
    exact .refl _ _
  · exact leavesAt_step hsteady heq

theorem leavesAt_steps_of_open (hsteady : run.session.server.Steady)
    (hopen : run.session.server.hasOpen url = true) (files : List SourceFile) :
    Server.LeavesAt url.render run.session.server
      (files.foldl step run).session.server := by
  induction files generalizing run with
  | nil => exact .refl _ _
  | cons file rest ih =>
      have hfirst := leavesAt_step_of_open hsteady hopen file
      exact hfirst.trans (ih (steady_step hsteady file)
        ((Server.hasOpen_of_eq hfirst.document).trans hopen))

/-- No file is opened or closed by being read. -/
theorem hasOpen_step (hsteady : run.session.server.Steady) (file : SourceFile) (url : Url) :
    (run.step file).session.server.hasOpen url = run.session.server.hasOpen url := by
  by_cases heq : url.render = file.uri
  · rcases run.server_step_cases file with hsame | ⟨text, -, hclosed, hread⟩
    · rw [hsame]
    · have hknown : (run.session.server.putDocument (file.document text)).document? url =
          some (file.document text) := run.session.server.document?_putDocument heq.symm
      have hread' : ∃ document, (run.step file).session.server.document? url = some document ∧
          document.isOpen = false := by
        rw [hread]
        split
        · exact ⟨_, hknown, rfl⟩
        · have hfile : (run.session.server.putDocument (file.document text)).document? file.url =
              some (file.document text) := run.session.server.document?_putDocument rfl
          obtain ⟨nextSequence, accepted, hanalyse⟩ :=
            (hsteady.putDocument (file.document text)).analyse_eq hfile text .bootstrap
          rw [hanalyse]
          exact ⟨_, Server.document?_putDocument _ heq.symm, rfl⟩
      obtain ⟨document, hdocument, hisOpen⟩ := hread'
      have hsame : run.session.server.hasOpen file.url = run.session.server.hasOpen url :=
        Server.hasOpen_of_eq (congrArg run.session.server.documents.get? heq.symm)
      rw [Server.hasOpen_of_some hdocument, hisOpen, ← hsame, hclosed]
  · exact Server.hasOpen_of_eq (leavesAt_step hsteady heq).document

theorem hasOpen_steps (hsteady : run.session.server.Steady) (files : List SourceFile) (url : Url) :
    (files.foldl step run).session.server.hasOpen url = run.session.server.hasOpen url := by
  induction files generalizing run with
  | nil => rfl
  | cons file rest ih => exact (ih (steady_step hsteady file)).trans (hasOpen_step hsteady file url)

end IndexRun

/-! ### The whole reading -/

namespace Session

variable {session : Session} {url : Url} {document : Document}

theorem hasOpen_replayAll (hsteady : session.server.Steady) (urls : List Url) (url : Url) :
    (session.replayAll urls).server.hasOpen url = session.server.hasOpen url := by
  rw [replayAll]
  induction urls generalizing session with
  | nil => rfl
  | cons first rest ih =>
      refine (ih (steady_replay hsteady first)).trans ?_
      by_cases heq : url.render = first.render
      · have hsame : ∀ server : Server, server.hasOpen url = server.hasOpen first := fun server =>
          Server.hasOpen_of_eq (congrArg server.documents.get? heq)
        rw [hsame, hsame]
        cases hdocument : session.server.document? first with
        | none => rw [replay_of_none hdocument]
        | some document =>
            rw [Server.hasOpen_of_some (settled_replay hsteady hdocument).1,
              Server.hasOpen_of_some hdocument]
            rfl
      · exact Server.hasOpen_of_eq (leavesAt_replay hsteady heq).document

/-- What the documents that waited find when it is their turn. -/
theorem ready_eq (session : Session) (hsteady : session.server.Steady) :
    ∃ ready : Session, ready.server.Steady ∧
      session.indexWorkspace.2 = ready.replayAll (session.server.waiting.getD []) ∧
      ready.server.index.table = session.filesRead.server.index.table ∧
      ∀ uri, Server.LeavesAt uri session.filesRead.server ready.server := by
  obtain ⟨readiness, sent, hindex⟩ := session.indexWorkspace_eq
  have hread : session.filesRead.server.Steady := by
    unfold filesRead
    exact (evolves_steps (fun _ => trivial) _ : Server.Evolves (fun _ _ => True) _ _).steady
      (steady_firstRun hsteady)
  refine ⟨_, ?_, hindex, rfl, fun uri => .of_eq rfl rfl⟩
  exact ⟨hread.keyed, hread.timely⟩

theorem indexWorkspace_ready (session : Session) :
    session.indexWorkspace.2.server.waiting = none := by
  obtain ⟨readiness, sent, hindex⟩ := session.indexWorkspace_eq
  rw [hindex, (SameProject.of_replayAll _ _).waiting]

theorem hasOpen_indexWorkspace (hsteady : session.server.Steady) (url : Url) :
    session.indexWorkspace.2.server.hasOpen url = session.server.hasOpen url := by
  obtain ⟨ready, hready, heq, -, hleaves⟩ := session.ready_eq hsteady
  rw [heq, hasOpen_replayAll hready, Server.hasOpen_of_eq (hleaves url.render).document]
  unfold filesRead
  rw [IndexRun.hasOpen_steps (steady_firstRun hsteady)]
  exact Server.hasOpen_of_eq (by rw [session.firstRun_eq.1])

/-- An open document that waits for the workspace keeps its content, which is analysed when
the workspace has been read. -/
theorem settled_indexWorkspace (hsteady : session.server.Steady)
    (hdocument : session.server.document? url = some document) (hopen : document.isOpen = true)
    (hwaits : url.render ∈ (session.server.waiting.getD []).map Url.render) :
    session.indexWorkspace.2.server.document? url = some document.settled ∧
      ((parse document.content).ok = true →
        session.indexWorkspace.2.server.index.table.Holds document.reading) := by
  obtain ⟨ready, hready, heq, -, hleaves⟩ := session.ready_eq hsteady
  have hfirst : session.firstRun.1.session.server.document? url = some document := by
    rw [Server.document?, session.firstRun_eq.1]
    exact hdocument
  have hread : session.filesRead.server.document? url = some document := by
    unfold filesRead
    exact (IndexRun.leavesAt_steps_of_open (steady_firstRun hsteady)
      ((Server.hasOpen_of_some hfirst).trans hopen) _).document.trans hfirst
  rw [heq]
  exact settled_replayAll hready ((hleaves url.render).document.trans hread) hwaits

/-- Whatever an editor does before the workspace is read, each document waits once, in the order
in which the documents were opened first. When the workspace has been read nobody waits any
more, and every open document has the text that the editor gave it last, with the parse of this
text; the table has what is read in the text if it has no errors. -/
theorem documents_ready (hfresh : session.Fresh) (events : List Event) :
    let before := session.receiveAll events
    let after := before.indexWorkspace.2
    (∃ queue, before.server.waiting = some queue ∧
      queue.map Url.render = (events.filterMap Event.opened?).eraseDups ∧
      ∀ url, (before.server.document? url).isSome = true ↔ url.render ∈ queue.map Url.render) ∧
    after.server.waiting = none ∧
    (∀ url, after.server.hasOpen url = before.server.hasOpen url) ∧
    (∀ url document, before.server.document? url = some document → document.isOpen = true →
      after.server.document? url = some document.settled) ∧
    ∀ url document, after.server.document? url = some document → document.isOpen = true →
      document.dirty = false ∧ document.parsed = some (.ofText document.content) ∧
      ((parse document.content).ok = true → after.server.index.table.contribution? url.render =
        document.reading.contribution.stored) := by
  intro before after
  have hsteady : before.server.Steady := steady_receiveAll hfresh.steady events
  have hwaits : before.Waits (events.filterMap Event.opened?) :=
    hfresh.waits.receiveAll hfresh.steady events
  obtain ⟨queue, hwaiting, hqueue⟩ := hwaits.queue
  have hknown : ∀ url, (before.server.document? url).isSome = true ↔
      url.render ∈ queue.map Url.render := by
    intro url
    rw [hqueue, List.mem_eraseDups]
    exact hwaits.known url.render
  have hsettled : ∀ url document, before.server.document? url = some document →
      document.isOpen = true → after.server.document? url = some document.settled ∧
        ((parse document.content).ok = true →
          after.server.index.table.Holds document.reading) := by
    intro url document hdocument hopen
    refine settled_indexWorkspace hsteady hdocument hopen ?_
    rw [hwaiting, Option.getD_some, ← hknown, hdocument, Option.isSome_some]
  have hopenSame := fun url => hasOpen_indexWorkspace hsteady url
  refine ⟨⟨queue, hwaiting, hqueue, hknown⟩, indexWorkspace_ready before, hopenSame,
    fun url document hdocument hopen => (hsettled url document hdocument hopen).1, ?_⟩
  · intro url document hdocument hopen
    have hedited : before.server.hasOpen url = true := by
      rw [← hopenSame url, Server.hasOpen_of_some hdocument, hopen]
    cases hbefore : before.server.document? url with
    | none =>
        rw [Server.hasOpen, hbefore] at hedited
        cases hedited
    | some edited =>
        rw [Server.hasOpen_of_some hbefore] at hedited
        obtain ⟨hsame, hholds⟩ := hsettled url edited hbefore hedited
        rw [hdocument, Option.some.injEq] at hsame
        subst hsame
        refine ⟨rfl, rfl, fun hok => ?_⟩
        have hkey := hsteady.key_eq hbefore
        rw [← hkey]
        exact (hholds hok).1

def editedUrl : Url := { scheme := "file", authority := some {}, path := "/a.gml" }

/-- A document is opened and changed in two stretches before there is an index; the second is a
stretch of what the first has made. -/
def earlyEdits : List Event :=
  [.didOpen editedUrl 1 "hp = 3;",
    .didChange editedUrl 2 [⟨some ⟨⟨0, 0⟩, ⟨0, 2⟩⟩, "mana"⟩, ⟨some ⟨⟨0, 7⟩, ⟨0, 8⟩⟩, "5"⟩]]

theorem documents_ready_after_edits :
    ∃ document, (({} : Session).receiveAll earlyEdits).indexWorkspace.2.server.document? editedUrl =
        some document ∧ document.content = "mana = 5;" ∧ document.dirty = false ∧
      document.parsed = some (.ofText "mana = 5;") := by
  have hbefore : ((({} : Session).receiveAll earlyEdits).server.document? editedUrl).map
      (fun document => (document.content, document.isOpen)) = some ("mana = 5;", true) := by
    decide +kernel
  obtain ⟨document, hdocument, hedited⟩ := Option.map_eq_some_iff.mp hbefore
  obtain ⟨hcontent, hopen⟩ := Prod.mk.inj hedited
  have hfresh : ({} : Session).Fresh := ⟨rfl, rfl, rfl⟩
  obtain ⟨-, -, -, hsettled, -⟩ := documents_ready hfresh earlyEdits
  refine ⟨document.settled, hsettled _ _ hdocument hopen, hcontent, rfl, ?_⟩
  rw [Document.settled, hcontent]

end Session

end Gml
