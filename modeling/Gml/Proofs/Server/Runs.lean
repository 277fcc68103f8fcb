import Gml.Proofs.Server.Documents

/-!
# What a server does in a run

Events of the editor come, the disk changes and the workspace is read. All that this does to
the documents and the table are a few steps: a document gets a text, it is closed, registered
or analysed. Whatever these steps keep is kept along every run.
-/
namespace Gml

/-! ### Steps -/

namespace Server

/-- What a server becomes in steps. Only some texts are analysed in the place of a document,
and what else changes has no part in documents, tickets and table, nor does it let documents
wait again when nobody waits any more. -/
inductive Evolves (fits : Document → String → Prop) (server : Server) : Server → Prop
  | refl : Evolves fits server server
  | change {next : Server} (h : Evolves fits server next) (document : Document)
      (hdirty : document.dirty = true) : Evolves fits server (next.putDocument document)
  | close {next : Server} (h : Evolves fits server next) (url : Url) :
      Evolves fits server (next.closeDocument url)
  | register {next : Server} (h : Evolves fits server next) (url : Url) :
      Evolves fits server (next.register url)
  | analyse {next : Server} (h : Evolves fits server next) (url : Url) (text : String)
      (mode : LintMode)
      (hfits : ∀ document, next.document? url = some document → fits document text) :
      Evolves fits server (next.analyse url text mode).2
  | other {next next' : Server} (h : Evolves fits server next)
      (hdocuments : next'.documents = next.documents)
      (hindex : ∃ readiness, next'.index = { next.index with readiness })
      (hwaiting : next.waiting = none → next'.waiting = none) : Evolves fits server next'

namespace Evolves

variable {fits : Document → String → Prop} {server next last : Server}

theorem trans (h : Evolves fits server next) (h' : Evolves fits next last) :
    Evolves fits server last := by
  induction h' with
  | refl => exact h
  | change _ document hdirty ih => exact ih.change document hdirty
  | close _ url ih => exact ih.close url
  | register _ url ih => exact ih.register url
  | analyse _ url text mode hfits ih => exact ih.analyse url text mode hfits
  | other _ hdocuments hindex hwaiting ih => exact ih.other hdocuments hindex hwaiting

theorem update (h : Evolves fits server next) (url : Url) (version : Int) (content : String) :
    Evolves fits server (next.updateDocument url version content) := by
  rw [updateDocument]
  split
  · exact h.change _ rfl
  · exact h

theorem keyed (h : Evolves fits server next)
    (hkeyed : server.documents.Keyed (·.url.render)) : next.documents.Keyed (·.url.render) := by
  induction h with
  | refl => exact hkeyed
  | change _ document _ ih => exact ih.set rfl
  | close _ url ih =>
      rw [closeDocument]
      split
      · exact ih.set rfl
      · exact ih
  | register _ url ih =>
      rw [documents_register]
      exact ih
  | @analyse next _ url text mode _ ih =>
      cases hdocument : next.document? url with
      | none =>
          rw [analyse_of_none hdocument]
          exact ih
      | some document =>
          obtain ⟨documents, hanalyse, rfl | ⟨parsed, dirty, rfl⟩⟩ :=
            analyse_of_some hdocument text mode
          · rw [hanalyse]
            exact ih
          · rw [hanalyse]
            exact ih.set rfl
  | other _ hdocuments _ _ ih =>
      rw [hdocuments]
      exact ih

theorem steady (h : Evolves fits server next) (hsteady : server.Steady) : next.Steady := by
  refine ⟨h.keyed hsteady.keyed, ?_⟩
  induction h with
  | refl => exact hsteady.timely
  | change _ document _ ih => exact ih
  | close _ url ih =>
      rw [closeDocument]
      split
      · exact ih
      · exact ih
  | @register next _ url ih =>
      rcases next.register_eq url with heq | ⟨kind, heq⟩
      · rw [heq]
        exact ih
      · rw [heq]
        exact ih
  | analyse _ url text mode _ ih => exact timely_analyse ih
  | other _ _ hindex _ ih =>
      obtain ⟨readiness, hindex⟩ := hindex
      rw [hindex]
      exact ih

/-- Only registrations and installs change the table. -/
theorem keeps {P : SymbolTable → Prop} (h : Evolves fits server next)
    (hregister : ∀ t uri kind, P t → P (t.registerIfPossible uri kind))
    (hinstall : ∀ t uri found, P t → P (SymbolIndex.install t uri found).2)
    (hstart : P server.index.table) : P next.index.table := by
  induction h with
  | refl => exact hstart
  | change _ document _ ih => exact ih
  | close _ url ih =>
      rw [closeDocument]
      split
      · exact ih
      · exact ih
  | @register next _ url ih =>
      rcases next.register_eq url with heq | ⟨kind, heq⟩
      · rw [heq]
        exact ih
      · rw [heq]
        exact hregister _ _ kind ih
  | @analyse next _ url text mode _ ih =>
      rcases next.table_analyse url text mode with heq | ⟨found, heq⟩
      · rw [heq]
        exact ih
      · rw [heq]
        exact hinstall _ _ found ih
  | other _ _ hindex _ ih =>
      obtain ⟨readiness, hindex⟩ := hindex
      rw [hindex]
      exact ih

theorem linked (h : Evolves fits server next) (hlinked : server.index.table.Linked) :
    next.index.table.Linked :=
  h.keeps (fun _ uri kind ht => ht.registerIfPossible uri kind)
    (fun _ uri found ht => ht.install uri found) hlinked

/-- Once the workspace has been read, no document waits any more. -/
theorem ready (h : Evolves fits server next) (hready : server.waiting = none) :
    next.waiting = none := by
  induction h with
  | refl => exact hready
  | change _ document _ ih => exact ih
  | close _ url ih =>
      rw [closeDocument]
      split
      · exact ih
      · exact ih
  | @register next _ url ih =>
      rcases next.register_eq url with heq | ⟨kind, heq⟩
      · rw [heq]
        exact ih
      · rw [heq]
        exact ih
  | @analyse next _ url text mode _ ih =>
      obtain ⟨index, documents, hanalyse⟩ := next.exists_analyse url text mode
      rw [hanalyse]
      exact ih
  | other _ _ _ hwaiting ih => exact hwaiting ih

end Evolves

end Server

/-! ### Events -/

namespace Session

/-- What comes from outside: the editor's calls and changes of the disk. -/
inductive Event where
  | didOpen (url : Url) (version : Int) (text : String)
  | didChange (url : Url) (version : Int) (changes : List TextChange)
  | didSave (url : Url) (text : Option String)
  | didClose (url : Url)
  | configure (settings : ClientSettings)
  | disk (disk : Disk)

def receive (session : Session) : Event → Session
  | .didOpen url version text => session.didOpen url version text
  | .didChange url version changes => session.didChange url version changes
  | .didSave url text => session.didSave url text
  | .didClose url => session.didClose url
  | .configure settings => { session with server := session.server.configure settings }
  | .disk disk => { session with disk }

def receiveAll (session : Session) (events : List Event) : Session := events.foldl receive session

/-- A save is reported with a text for which an analysis in the place of its document fits. -/
def SavesFit (fits : Document → String → Prop) (session : Session) : Event → Prop
  | .didSave url saved => ∀ document, session.server.document? url = some document →
      fits document (saved.getD document.content)
  | _ => True

section

open Server (Evolves)

variable {session : Session} {fits : Document → String → Prop} {url : Url} {text : String}

theorem evolves_publish (session : Session) (url : Url) (version : Option Int) (text : String)
    (h : ∀ document, session.server.document? url = some document → fits document text) :
    Evolves fits session.server (session.publish url version text).server := by
  obtain ⟨sent, hpublish⟩ := session.publish_eq url version text
  rw [hpublish]
  exact Evolves.refl.analyse url text .full h

/-- The documents that wait when one more comes. -/
def enqueue (urls : List Url) (url : Url) : List Url :=
  if urls.any (·.render == url.render) then urls else urls ++ [url]

theorem whenReady_of_waiting {urls : List Url} (h : session.server.waiting = some urls) (url : Url)
    (next : Session → Session) : session.whenReady url next =
      { session with server := { session.server with waiting := some (enqueue urls url) } } := by
  rw [whenReady, Server.defer, h, enqueue]
  dsimp only
  split
  · rw [← h]
  · rfl

theorem whenReady_of_ready (h : session.server.waiting = none) (url : Url)
    (next : Session → Session) : session.whenReady url next = next session := by
  rw [whenReady, Server.defer, h]

theorem evolves_whenReady {server : Server} {next : Session → Session}
    (h : Evolves fits server session.server) (hnext : Evolves fits server (next session).server) :
    Evolves fits server (session.whenReady url next).server := by
  cases hwaiting : session.server.waiting with
  | none =>
      rw [whenReady_of_ready hwaiting]
      exact hnext
  | some urls =>
      rw [whenReady_of_waiting hwaiting]
      refine h.other rfl ⟨_, rfl⟩ fun hready => ?_
      rw [hwaiting] at hready
      cases hready

/-- The document that an editor opens. -/
def opening (session : Session) (url : Url) (version : Int) (text : String) : Document :=
  let document := (session.server.document? url).getD
    { url, version, content := text, kind := url.documentKind, isOpen := true }
  { document with version, content := text, isOpen := true, dirty := true }

theorem openDocument_eq (session : Session) (url : Url) (version : Int) (text : String) :
    session.server.openDocument url version text =
      session.server.putDocument (session.opening url version text) := rfl

theorem opening_key (hkeyed : session.server.documents.Keyed (·.url.render)) (url : Url)
    (version : Int) (text : String) :
    (session.opening url version text).url.render = url.render := by
  rw [opening]
  cases hdocument : session.server.document? url with
  | none => rfl
  | some document =>
      have hkey := hkeyed url.render document hdocument
      exact hkey

theorem evolves_didOpen (hkeyed : session.server.documents.Keyed (·.url.render))
    (hcontent : ∀ document : Document, fits document document.content) (url : Url) (version : Int)
    (text : String) : Evolves fits session.server (session.didOpen url version text).server := by
  have hput : Evolves fits session.server
      (session.server.putDocument (session.opening url version text)) := Evolves.refl.change _ rfl
  rw [didOpen, openDocument_eq]
  refine evolves_whenReady hput ((hput.register url).trans (evolves_publish
    { session with server := (session.server.putDocument
        (session.opening url version text)).register url } url (some version) text ?_))
  intro document hdocument
  dsimp only at hdocument
  rw [Server.document?_register, Server.document?_putDocument _ (opening_key hkeyed _ _ _),
    Option.some.injEq] at hdocument
  rw [← hdocument]
  exact hcontent _

/-- A known document gets another text, which is then analysed. -/
theorem evolves_update (session : Session) (hkeyed : session.server.documents.Keyed (·.url.render))
    (hcontent : ∀ document : Document, fits document document.content) (url : Url) (version : Int)
    (text : String) {next : Session → Session}
    (hnext : ∀ session : Session, (∀ document, session.server.document? url = some document →
      fits document text) → Evolves fits session.server (next session).server) :
    Evolves fits session.server
      ({ session with server := session.server.updateDocument url version text }.whenReady url
        next).server := by
  have hupdated : Evolves fits session.server (session.server.updateDocument url version text) :=
    Evolves.refl.update url version text
  refine evolves_whenReady hupdated (hupdated.trans (hnext
    { session with server := session.server.updateDocument url version text } ?_))
  intro document hdocument
  dsimp only at hdocument
  rw [Server.updateDocument] at hdocument
  split at hdocument
  next known hknown =>
      have hkey := hkeyed url.render known hknown
      have hkey' : ({ known with version, content := text, dirty := true } : Document).url.render =
          url.render := hkey
      rw [session.server.document?_putDocument hkey', Option.some.injEq] at hdocument
      rw [← hdocument]
      exact hcontent _
  next hunknown =>
      rw [hunknown] at hdocument
      cases hdocument

theorem evolves_didChange (hkeyed : session.server.documents.Keyed (·.url.render))
    (hcontent : ∀ document : Document, fits document document.content) (url : Url) (version : Int)
    (changes : List TextChange) :
    Evolves fits session.server (session.didChange url version changes).server := by
  unfold didChange
  split
  · split
    · exact .refl
    next text _ =>
        exact evolves_update session hkeyed hcontent url version text fun session h =>
          evolves_publish session url (some version) text h
  · exact .refl

theorem evolves_didSave {saved : Option String}
    (h : ∀ document, session.server.document? url = some document →
      fits document (saved.getD document.content)) :
    Evolves fits session.server (session.didSave url saved).server := by
  unfold didSave
  split
  · exact .refl
  next document hdocument =>
      dsimp only
      split
      · exact .refl
      · refine evolves_whenReady .refl (evolves_publish session url _ _ fun other hother => ?_)
        rw [hdocument, Option.some.injEq] at hother
        rw [← hother]
        exact h document hdocument

theorem evolves_didClose (hkeyed : session.server.documents.Keyed (·.url.render))
    (hcontent : ∀ document : Document, fits document document.content) (url : Url) :
    Evolves fits session.server (session.didClose url).server := by
  have hclosed : Evolves fits session.server (session.server.closeDocument url) :=
    Evolves.refl.close url
  unfold didClose
  split
  · exact .refl
  · dsimp only
    split
    · exact hclosed
    next text _ =>
        split
        · exact hclosed
        · refine hclosed.trans (evolves_update ({ session with
            server := session.server.closeDocument url }.send (.diagnostics url [] none))
            (hclosed.keyed hkeyed) hcontent url 0 text fun session h => ?_)
          exact Evolves.refl.analyse url text .full h

/-- Every event is a few steps, and but for saved texts only contents are analysed. -/
theorem evolves_receive (hkeyed : session.server.documents.Keyed (·.url.render))
    (hcontent : ∀ document : Document, fits document document.content) (event : Event)
    (hsaved : session.SavesFit fits event) :
    Evolves fits session.server (session.receive event).server := by
  cases event with
  | didOpen url version text => exact evolves_didOpen hkeyed hcontent url version text
  | didChange url version changes => exact evolves_didChange hkeyed hcontent url version changes
  | didSave url saved => exact evolves_didSave hsaved
  | didClose url => exact evolves_didClose hkeyed hcontent url
  | configure settings => exact Evolves.refl.other rfl ⟨_, rfl⟩ id
  | disk disk => exact .refl

/-! ### Reading the workspace -/

theorem evolves_step {run : IndexRun}
    (hcontent : ∀ document : Document, fits document document.content) (file : SourceFile) :
    Evolves fits run.session.server (run.step file).session.server := by
  rcases run.server_step_cases file with heq | ⟨text, -, -, heq⟩
  · rw [heq]
    exact .refl
  · have hput : Evolves fits run.session.server
        (run.session.server.putDocument (file.document text)) := Evolves.refl.change _ rfl
    rw [heq]
    split
    · exact hput
    · refine hput.analyse file.url text .bootstrap fun document hdocument => ?_
      have hkey : (file.document text).url.render = file.url.render := rfl
      rw [run.session.server.document?_putDocument hkey, Option.some.injEq] at hdocument
      rw [← hdocument]
      exact hcontent (file.document text)

theorem evolves_steps {run : IndexRun}
    (hcontent : ∀ document : Document, fits document document.content) (files : List SourceFile) :
    Evolves fits run.session.server (files.foldl IndexRun.step run).session.server := by
  induction files generalizing run with
  | nil => exact .refl
  | cons file rest ih => exact (evolves_step hcontent file).trans ih

theorem evolves_replay (hcontent : ∀ document : Document, fits document document.content)
    (session : Session) (url : Url) : Evolves fits session.server (session.replay url).server := by
  cases hdocument : session.server.document? url with
  | none =>
      rw [replay_of_none hdocument]
      exact .refl
  | some document =>
      rw [server_replay hdocument]
      refine (Evolves.refl.register url).analyse url document.content .full fun other hother => ?_
      rw [Server.document?_register, hdocument, Option.some.injEq] at hother
      rw [← hother]
      exact hcontent document

theorem evolves_replayAll (hcontent : ∀ document : Document, fits document document.content)
    (session : Session) (urls : List Url) :
    Evolves fits session.server (session.replayAll urls).server := by
  rw [replayAll]
  induction urls generalizing session with
  | nil => exact .refl
  | cons url rest ih => exact (evolves_replay hcontent session url).trans (ih _)

/-- The reading of a workspace before the first file, and the files that are to be read. -/
@[irreducible] def firstRun (session : Session) : IndexRun × List SourceFile :=
  match session.server.root? with
  | some root => session.indexing.prepareIndex root
  | none =>
      let table := session.indexing.server.index.table.seedBuiltins Manual.bundled
      ({ session := { session.indexing with server := session.indexing.server.setTable table }
         progress := ⟨false, 0, 0⟩, restored := false }, [])

theorem firstRun_of_root {root : FilePath} (h : session.server.root? = some root) :
    session.firstRun = session.indexing.prepareIndex root := by
  rw [firstRun, h]

/-- Before the first file the documents are as they were, and no ticket has been given out. -/
theorem firstRun_eq (session : Session) :
    session.firstRun.1.session.server.documents = session.server.documents ∧
      (∃ table readiness, session.firstRun.1.session.server.index =
        { session.server.index with table, readiness }) ∧
      session.firstRun.1.session.server.waiting = session.server.waiting := by
  obtain ⟨readiness, hadvance⟩ := exists_advance session.server.index .indexing
  have hindex : session.indexing.server.index = { session.server.index with readiness } := by
    unfold indexing
    exact hadvance
  cases hroot : session.server.root? with
  | none =>
      rw [firstRun, hroot]
      dsimp only [Server.setTable]
      rw [hindex]
      exact ⟨rfl, ⟨_, readiness, rfl⟩, rfl⟩
  | some root =>
      rw [firstRun_of_root hroot, (session.indexing.prepareIndex_eq root).1]
      dsimp only [Server.setTable]
      rw [server_prepared]
      dsimp only [Server.setConfig]
      rw [hindex]
      exact ⟨rfl, ⟨_, readiness, rfl⟩, rfl⟩

/-- The session when all files are read. -/
@[irreducible] def filesRead (session : Session) : Session :=
  (session.firstRun.2.foldl IndexRun.step session.firstRun.1).session

/-- When all files are read, the index is ready, and the documents that waited have their
turn. -/
theorem indexWorkspace_eq (session : Session) :
    ∃ readiness sent, session.indexWorkspace.2 = ({ session.filesRead with
        server := { session.filesRead.server with
          index := { session.filesRead.server.index with readiness }, waiting := none }
        sent } : Session).replayAll (session.server.waiting.getD []) := by
  have hwaiting : session.filesRead.server.waiting = session.server.waiting := by
    unfold filesRead
    rw [(SameProject.of_steps _ _).waiting, session.firstRun_eq.2.2]
  cases hroot : session.server.root? with
  | none =>
      have hread : session.filesRead = { session.indexing with
          server := session.indexing.server.setTable
            (session.indexing.server.index.table.seedBuiltins Manual.bundled) } := by
        unfold filesRead
        rw [firstRun, hroot]
        rfl
      rw [indexWorkspace_of_none hroot]
      unfold indexNothing Server.finishIndexing
      dsimp only
      rw [hread] at hwaiting ⊢
      obtain ⟨readiness, hadvance⟩ := exists_advance (session.indexing.server.setTable
        (session.indexing.server.index.table.seedBuiltins Manual.bundled)).index .ready
      rw [hadvance, hwaiting]
      exact ⟨readiness, session.indexing.sent, rfl⟩
  | some root =>
      have hread : session.indexing.afterFiles root = session.filesRead := by
        unfold filesRead afterFiles
        rw [firstRun_of_root hroot]
      obtain ⟨readiness, sent, hindex⟩ := session.indexing.indexRoot_eq root
      rw [hread, hwaiting] at hindex
      rw [indexWorkspace_of_root hroot]
      exact ⟨readiness, sent, hindex⟩

/-- The project is the one that is found before the first file is read. -/
theorem project_indexWorkspace (session : Session) :
    session.indexWorkspace.2.disk = session.firstRun.1.session.disk ∧
      session.indexWorkspace.2.server.folders = session.firstRun.1.session.server.folders ∧
      session.indexWorkspace.2.server.config = session.firstRun.1.session.server.config := by
  have hread : session.firstRun.1.session.SameProject session.filesRead := by
    unfold filesRead
    exact .of_steps _ _
  obtain ⟨readiness, sent, hindex⟩ := session.indexWorkspace_eq
  have hreplayed := SameProject.of_replayAll { session.filesRead with
      server := { session.filesRead.server with
        index := { session.filesRead.server.index with readiness }, waiting := none }
      sent } (session.server.waiting.getD [])
  rw [hindex]
  exact ⟨hreplayed.disk.trans hread.disk, hreplayed.folders.trans hread.folders,
    hreplayed.config.trans hread.config⟩

theorem steady_firstRun (h : session.server.Steady) : session.firstRun.1.session.server.Steady := by
  obtain ⟨hdocuments, ⟨table, readiness, hindex⟩, -⟩ := session.firstRun_eq
  refine ⟨?_, ?_⟩
  · rw [hdocuments]
    exact h.keyed
  · rw [hindex]
    exact h.timely

/-- After the start the reading of a workspace is a few steps, and only contents are
analysed. -/
theorem evolves_indexWorkspace (hcontent : ∀ document : Document, fits document document.content)
    (session : Session) :
    Evolves fits session.firstRun.1.session.server session.indexWorkspace.2.server := by
  have hread : Evolves fits session.firstRun.1.session.server session.filesRead.server := by
    unfold filesRead
    exact evolves_steps hcontent _
  obtain ⟨readiness, sent, hindex⟩ := session.indexWorkspace_eq
  rw [hindex]
  refine Evolves.trans ?_ (evolves_replayAll hcontent _ _)
  exact hread.other rfl ⟨readiness, rfl⟩ fun _ => rfl

/-- If every text fits, so does a saved one. -/
theorem savesFit_any (session : Session) (event : Event) :
    session.SavesFit (fun _ _ => True) event := by
  unfold SavesFit
  split
  · exact fun _ _ => trivial
  · trivial

theorem steady_receive (h : session.server.Steady) (event : Event) :
    (session.receive event).server.Steady :=
  (evolves_receive h.keyed (fun _ => trivial) event (session.savesFit_any event)).steady h

theorem steady_indexWorkspace (h : session.server.Steady) :
    session.indexWorkspace.2.server.Steady := by
  have hevolves : Evolves (fun _ _ => True) session.firstRun.1.session.server
      session.indexWorkspace.2.server := evolves_indexWorkspace (fun _ => trivial) session
  exact hevolves.steady (steady_firstRun h)

theorem Fresh.steady (h : session.Fresh) : session.server.Steady := by
  refine ⟨?_, ?_⟩
  · rw [h.documents]
    exact .empty
  · rw [h.index]
    exact fun _ => Nat.zero_lt_one

theorem steady_receiveAll (h : session.server.Steady) (events : List Event) :
    (session.receiveAll events).server.Steady := by
  rw [receiveAll]
  induction events generalizing session with
  | nil => exact h
  | cons event rest ih => exact ih (steady_receive h event)

end

end Session

end Gml
