import Gml.Proofs.Server.Waiting
import Gml.Server.Feature

/-!
# The gate of the index

The server takes calls in any order: events of the editor, questions, and requests to read the
workspace. A reading goes on in stages, and other calls come between them. The index says how
far the reading has come, and a queue of documents stands beside it. The gate is both of them:
it only opens, the queue is there exactly as long as the index is not ready, and until then
events leave the index alone and no question is answered.
-/
namespace Gml

/-! ### Questions -/

/-- What an editor asks. -/
inductive Question where
  | hover (url : Url) (position : Position)
  | definitions (url : Url) (position : Position)
  | references (url : Url) (position : Position) (withDefinitions : Bool)
  | completions (url : Url) (position : Position)
  | signature (url : Url) (position : Position)

/-- The answer to a question as the editor gets it. -/
def Server.answer? (server : Server) : Question → Option Json
  | .hover url position => (server.hover? url position).map Hover.toJson
  | .definitions url position => (server.definitions? url position).map definitionsJson
  | .references url position withDefinitions =>
      (server.references? url position withDefinitions).map
        fun locations => .arr (locations.map Location.toEditorJson)
  | .completions url position =>
      (server.completions? url position).map fun items => .arr (items.map CompletionItem.toJson)
  | .signature url position => (server.signatureHelp? url position).map SignatureHelp.toJson

/-- What a table says to a question about the documents of a server. -/
def Server.reply? (server : Server) (table : SymbolTable) : Question → Option Json
  | .hover url position => do
      let document ← server.document? url
      let (name, span) ← document.nameAt? position
      let text ← table.hoverText name server.sentences
      let place := Text.positionAt document.content.toList
      return Hover.toJson ⟨text, place span.start, place span.stop⟩
  | .definitions url position => do
      let document ← server.document? url
      let (name, _) ← document.nameAt? position
      let own := table.localDefinitions url.render name
      let found := if own.isEmpty then table.definitions name else own
      let locations := found.filterMap Location.normal?
      if locations.isEmpty then none else return definitionsJson locations
  | .references url position withDefinitions => do
      let document ← server.document? url
      let (name, _) ← document.nameAt? position
      let defined := table.definitions name
      let found := (table.references name).filter fun use =>
        withDefinitions || !defined.contains use
      return .arr ((found.filterMap Location.normal?).map Location.toEditorJson)
  | .completions url position => do
      let document ← server.document? url
      let offset ← document.offsetAt? position
      let start := Text.wordBefore document.content.toList offset
      let names := (localNames table url.render start).eraseDups
      let own := names.map fun name => ⟨name, .variable, some "local variable", none⟩
      let shared := (table.completions start).filter fun entry => !names.contains entry.label
      return .arr ((own ++ shared.map completionItem).map CompletionItem.toJson)
  | .signature url position => do
      let document ← server.document? url
      let offset ← document.offsetAt? position
      let (name, argument) ← document.currentTree.enclosingCall? offset
      let signature ← table.signature? name
      return SignatureHelp.toJson ⟨signature, argument⟩

namespace SymbolIndex

variable {index : SymbolIndex} {α : Type}

theorem query_of_not_ready (h : index.readiness ≠ .ready) (ask : SymbolTable → α) :
    index.query ask = none := by
  rw [query, isReady, beq_false_of_ne h, if_neg Bool.false_ne_true]

theorem query_of_ready (h : index.readiness = .ready) (ask : SymbolTable → α) :
    index.query ask = some (ask index.table) := by
  rw [query, isReady, h, if_pos (beq_self_eq_true _)]

/-! ### Moving on -/

theorem readiness_advance_ready (index : SymbolIndex) :
    (index.advance .ready).2.readiness = .ready := by
  unfold advance
  cases hreadiness : index.readiness with
  | notStarted | indexing => rfl
  | ready => exact hreadiness

/-- A new reading does not close what is open. -/
theorem ready_advance_indexing_iff (index : SymbolIndex) :
    (index.advance .indexing).2.readiness = .ready ↔ index.readiness = .ready := by
  unfold advance
  cases hreadiness : index.readiness with
  | notStarted => exact ⟨nofun, nofun⟩
  | indexing | ready => simp [hreadiness, Readiness.rank]

theorem rank_le_advance (index : SymbolIndex) (target : Readiness) :
    index.readiness.rank ≤ (index.advance target).2.readiness.rank := by
  unfold advance
  split
  next hlt => exact hlt.le
  · exact le_rfl

theorem readiness_commit (index : SymbolIndex) (ticket : Ticket) (found : Commit) :
    (index.commit ticket found).2.readiness = index.readiness := by
  have haccept : (index.accept ticket).2.readiness = index.readiness := by
    unfold accept
    split
    · rfl
    · rfl
  rw [(commit_eq index ticket found).2]
  split
  · exact haccept
  · rfl

end SymbolIndex

namespace Server

variable {server server' server'' : Server}

/-- Every question goes through the index. -/
theorem answer?_of_not_ready (h : server.index.readiness ≠ .ready) (question : Question) :
    server.answer? question = none := by
  cases question with
  | hover | definitions | references | completions | signature =>
      simp [answer?, hover?, definitions?, references?, completions?, signatureHelp?,
        SymbolIndex.query_of_not_ready h]

theorem answer?_of_ready (h : server.index.readiness = .ready) (question : Question) :
    server.answer? question = server.reply? server.index.table question := by
  cases question with
  | hover url position | signature url position | completions url position =>
      simp [answer?, hover?, signatureHelp?, completions?, reply?, SymbolIndex.query_of_ready h,
        Function.comp_def, Option.map_bind]
  | definitions url position =>
      simp only [answer?, definitions?, reply?, SymbolIndex.query_of_ready h, Option.map_bind,
        Option.bind_eq_bind, Option.bind_some, Function.comp_def]
      refine Option.bind_congr fun document _ => Option.bind_congr fun found _ => ?_
      cases server.index.table.localDefinitions url.render found.1 with
      | nil =>
          rw [List.isEmpty_nil, if_pos rfl]
          dsimp only
          cases (server.index.table.definitions found.1).filterMap Location.normal? <;> rfl
      | cons here rest =>
          rw [List.isEmpty_cons, if_neg Bool.false_ne_true]
          dsimp only
          cases (here :: rest).filterMap Location.normal? <;> rfl
  | references url position withDefinitions =>
      simp only [answer?, references?, reply?, SymbolIndex.query_of_ready h, Option.map_bind,
        Option.bind_eq_bind, Option.bind_some, Function.comp_def]
      refine Option.bind_congr fun document _ => Option.bind_congr fun found _ => ?_
      cases withDefinitions <;> simp

/-! ### What moves the gate -/

/-- The gate stands where it stood. -/
structure SameGate (server server' : Server) : Prop where
  readiness : server'.index.readiness = server.index.readiness
  queue : server'.waiting.isSome = server.waiting.isSome

namespace SameGate

theorem refl (server : Server) : SameGate server server := ⟨rfl, rfl⟩

theorem trans (h : SameGate server server') (h' : SameGate server' server'') :
    SameGate server server'' :=
  ⟨h'.readiness.trans h.readiness, h'.queue.trans h.queue⟩

theorem of_register (server : Server) (url : Url) : SameGate server (server.register url) := by
  rcases server.register_eq url with heq | ⟨kind, heq⟩
  · rw [heq]
    exact refl server
  · rw [heq]
    exact ⟨rfl, rfl⟩

theorem of_analyse (server : Server) (url : Url) (text : String) (mode : LintMode) :
    SameGate server (server.analyse url text mode).2 := by
  cases hdocument : server.document? url with
  | none =>
      rw [analyse_of_none hdocument]
      exact refl server
  | some document =>
      obtain ⟨documents, hanalyse, -⟩ := analyse_of_some hdocument text mode
      rw [hanalyse]
      exact ⟨SymbolIndex.readiness_commit _ _ _, rfl⟩

end SameGate

/-- The queue is there exactly as long as the index is not ready. -/
def Gated (server : Server) : Prop :=
  server.waiting.isSome = true ↔ server.index.readiness ≠ .ready

/-- The gate stands where it stood or is further open. -/
structure Onward (server server' : Server) : Prop where
  rank : server.index.readiness.rank ≤ server'.index.readiness.rank
  gated : server.Gated → server'.Gated

namespace Onward

theorem refl (server : Server) : Onward server server := ⟨le_rfl, id⟩

theorem trans (h : Onward server server') (h' : Onward server' server'') :
    Onward server server'' :=
  ⟨h.rank.trans h'.rank, h'.gated ∘ h.gated⟩

theorem of_sameGate (h : SameGate server server') : Onward server server' where
  rank := h.readiness ▸ le_rfl
  gated hgated := by
    rw [Gated, h.readiness, h.queue]
    exact hgated

theorem of_advance_indexing (server : Server) :
    Onward server { server with index := (server.index.advance .indexing).2 } where
  rank := server.index.rank_le_advance .indexing
  gated hgated := hgated.trans server.index.ready_advance_indexing_iff.symm.not

/-- The queue goes when the index becomes ready. -/
theorem of_finishIndexing (server : Server) : Onward server server.finishIndexing.2 where
  rank := server.index.rank_le_advance .ready
  gated _ := ⟨nofun, fun h => absurd server.index.readiness_advance_ready h⟩

end Onward

/-- The gate stands where it stood, and behind a shut one the index is as it was. -/
structure HeldBack (server server' : Server) : Prop extends SameGate server server' where
  index : server.waiting.isSome = true → server'.index = server.index

namespace HeldBack

theorem refl (server : Server) : HeldBack server server := ⟨.refl server, fun _ => rfl⟩

/-- Only documents change. -/
theorem of_documents (hindex : server'.index = server.index)
    (hwaiting : server'.waiting = server.waiting) : HeldBack server server' where
  readiness := by rw [hindex]
  queue := by rw [hwaiting]
  index _ := hindex

theorem trans (h : HeldBack server server') (h' : HeldBack server' server'') :
    HeldBack server server'' where
  toSameGate := h.toSameGate.trans h'.toSameGate
  index hshut := (h'.index (h.queue.trans hshut)).trans (h.index hshut)

theorem of_updateDocument (server : Server) (url : Url) (version : Int) (content : String) :
    HeldBack server (server.updateDocument url version content) := by
  rw [updateDocument]
  split
  · exact of_documents rfl rfl
  · exact refl server

theorem of_closeDocument (server : Server) (url : Url) :
    HeldBack server (server.closeDocument url) := by
  rw [closeDocument]
  split
  · exact of_documents rfl rfl
  · exact refl server

end HeldBack

end Server

/-! ### Events -/

namespace Session

open Server (SameGate HeldBack Onward)

theorem sameGate_publish (session : Session) (url : Url) (version : Option Int) (text : String) :
    SameGate session.server (session.publish url version text).server := by
  obtain ⟨sent, hpublish⟩ := session.publish_eq url version text
  rw [hpublish]
  exact .of_analyse session.server url text .full

/-- Whatever comes once the gate is open waits in front of a shut one. -/
theorem heldBack_whenReady (session : Session) {next : Session → Session}
    (hnext : SameGate session.server (next session).server) (url : Url) :
    HeldBack session.server (session.whenReady url next).server := by
  cases hwaiting : session.server.waiting with
  | none =>
      rw [whenReady_of_ready hwaiting]
      refine ⟨hnext, fun hshut => ?_⟩
      rw [hwaiting] at hshut
      cases hshut
  | some urls =>
      rw [whenReady_of_waiting hwaiting]
      refine ⟨⟨rfl, ?_⟩, fun _ => rfl⟩
      rw [hwaiting]
      rfl

theorem heldBack_didOpen (session : Session) (url : Url) (version : Int) (text : String) :
    HeldBack session.server (session.didOpen url version text).server := by
  have hopen : HeldBack session.server (session.server.openDocument url version text) :=
    .of_documents rfl rfl
  rw [didOpen]
  refine hopen.trans (heldBack_whenReady
    { session with server := session.server.openDocument url version text } ?_ url)
  exact (SameGate.of_register _ url).trans (sameGate_publish { session with
    server := (session.server.openDocument url version text).register url } url (some version) text)

theorem heldBack_update (session : Session) (url : Url) (version : Int) (text : String)
    {next : Session → Session}
    (hnext : ∀ session : Session, SameGate session.server (next session).server) :
    HeldBack session.server
      ({ session with server := session.server.updateDocument url version text }.whenReady url
        next).server :=
  (HeldBack.of_updateDocument session.server url version text).trans (heldBack_whenReady
    { session with server := session.server.updateDocument url version text } (hnext _) url)

theorem heldBack_didChange (session : Session) (url : Url) (version : Int)
    (changes : List TextChange) :
    HeldBack session.server (session.didChange url version changes).server := by
  unfold didChange
  split
  · split
    · exact .refl _
    next text _ =>
        exact heldBack_update session url version text fun session =>
          sameGate_publish session url (some version) text
  · exact .refl _

theorem heldBack_didSave (session : Session) (url : Url) (saved : Option String) :
    HeldBack session.server (session.didSave url saved).server := by
  unfold didSave
  split
  · exact .refl _
  next document _ =>
      dsimp only
      split
      · exact .refl _
      · exact heldBack_whenReady session (sameGate_publish session url _ _) url

theorem heldBack_didClose (session : Session) (url : Url) :
    HeldBack session.server (session.didClose url).server := by
  have hclosed := HeldBack.of_closeDocument session.server url
  unfold didClose
  split
  · exact .refl _
  · dsimp only
    split
    · exact hclosed
    next text _ =>
        split
        · exact hclosed
        · exact hclosed.trans (heldBack_update ({ session with
            server := session.server.closeDocument url }.send (.diagnostics url [] none)) url 0
            text fun session => .of_analyse session.server url text .full)

theorem heldBack_receive (session : Session) (event : Event) :
    HeldBack session.server (session.receive event).server := by
  cases event with
  | didOpen url version text => exact heldBack_didOpen session url version text
  | didChange url version changes => exact heldBack_didChange session url version changes
  | didSave url saved => exact heldBack_didSave session url saved
  | didClose url => exact heldBack_didClose session url
  | configure settings => exact .of_documents rfl rfl
  | disk disk => exact .refl _

/-! ### A reading in stages -/

theorem sameGate_prepareIndex (session : Session) (root : FilePath) :
    SameGate session.server (session.prepareIndex root).1.session.server := by
  rw [(session.prepareIndex_eq root).1]
  dsimp only
  rw [server_prepared]
  exact ⟨rfl, rfl⟩

theorem sameGate_step (run : IndexRun) (file : SourceFile) :
    SameGate run.session.server (run.step file).session.server := by
  have hput : ∀ text, SameGate run.session.server
      (run.session.server.putDocument (file.document text)) := fun _ => ⟨rfl, rfl⟩
  rcases run.server_step_cases file with heq | ⟨text, -, -, heq⟩
  · rw [heq]
    exact .refl _
  · rw [heq]
    split
    · exact hput text
    · exact (hput text).trans (.of_analyse _ file.url text .bootstrap)

theorem sameGate_replay (session : Session) (url : Url) :
    SameGate session.server (session.replay url).server := by
  cases hdocument : session.server.document? url with
  | none =>
      rw [replay_of_none hdocument]
      exact .refl _
  | some document =>
      rw [server_replay hdocument]
      exact (SameGate.of_register session.server url).trans
        (.of_analyse _ url document.content .full)

end Session

/-- All files are read: the documents that wait are handed out, and the editor is told. -/
def IndexRun.finish (run : IndexRun) : List Url × Session :=
  let (waiting, server) := run.session.server.finishIndexing
  let message := run.summary.message
  (waiting, ({ run.session with server }.send (.log message)).endProgress run.progress message)

/-- How far the server is: it rests, it has announced a reading, it reads files, or the
documents that waited have their turn. -/
inductive Stage where
  | resting (session : Session)
  | announced (session : Session)
  | reading (run : IndexRun) (files : List SourceFile)
  | replaying (session : Session) (urls : List Url)

/-- What the server is called for. To resume is to begin a reading of the workspace or to go on
with the one that has been begun. -/
inductive Call where
  | event (event : Session.Event)
  | ask (question : Question)
  | resume

namespace Stage

open Server (SameGate HeldBack Onward)

def session : Stage → Session
  | resting session | announced session | replaying session _ => session
  | reading run _ => run.session

/-- An event comes, however far the reading is. -/
def receive (event : Session.Event) : Stage → Stage
  | resting session => resting (session.receive event)
  | announced session => announced (session.receive event)
  | reading run files => reading { run with session := run.session.receive event } files
  | replaying session urls => replaying (session.receive event) urls

def resume : Stage → Stage
  | resting session => announced session.indexing
  | announced session =>
      match session.server.root? with
      | some root => reading (session.prepareIndex root).1 (session.prepareIndex root).2
      | none =>
          let table := session.server.index.table.seedBuiltins Manual.bundled
          let (waiting, server) := (session.server.setTable table).finishIndexing
          replaying { session with server } waiting
  | reading run (file :: rest) => reading (run.step file) rest
  | reading run [] => replaying run.finish.2 run.finish.1
  | replaying session (url :: rest) => replaying (session.replay url) rest
  | replaying session [] => resting session

/-- A question changes nothing. -/
def step (stage : Stage) : Call → Stage
  | .event event => stage.receive event
  | .ask _ => stage
  | .resume => stage.resume

def run (stage : Stage) (calls : List Call) : Stage := calls.foldl step stage

theorem session_receive (event : Session.Event) (stage : Stage) :
    (stage.receive event).session = stage.session.receive event := by
  cases stage with
  | resting | announced | reading | replaying => rfl

theorem onward_resume (stage : Stage) : Onward stage.session.server stage.resume.session.server := by
  cases stage with
  | resting session => exact .of_advance_indexing session.server
  | announced session =>
      dsimp only [resume]
      split
      next root _ =>
          dsimp only [Stage.session]
          exact .of_sameGate (Session.sameGate_prepareIndex session root)
      · have hseeded : SameGate session.server (session.server.setTable
            (session.server.index.table.seedBuiltins Manual.bundled)) := ⟨rfl, rfl⟩
        exact (Onward.of_sameGate hseeded).trans (.of_finishIndexing _)
  | reading run files =>
      cases files with
      | cons file rest => exact .of_sameGate (Session.sameGate_step run file)
      | nil =>
          dsimp only [resume, IndexRun.finish, Stage.session]
          rw [Session.endProgress_eq]
          exact .of_finishIndexing run.session.server
  | replaying session urls =>
      cases urls with
      | cons url rest => exact .of_sameGate (Session.sameGate_replay session url)
      | nil => exact .refl _

theorem onward_step (stage : Stage) (call : Call) :
    Onward stage.session.server (stage.step call).session.server := by
  cases call with
  | event event =>
      rw [step, session_receive]
      exact .of_sameGate (Session.heldBack_receive stage.session event).toSameGate
  | ask _ => exact .refl _
  | resume => exact stage.onward_resume

theorem onward_run (stage : Stage) (calls : List Call) :
    Onward stage.session.server (stage.run calls).session.server := by
  rw [run]
  induction calls generalizing stage with
  | nil => exact .refl _
  | cons call rest ih => exact (stage.onward_step call).trans (ih _)

/-! ### The whole reading -/

/-- What comes of a stage when the server is only called to go on. -/
def Resumes (stage stage' : Stage) : Prop := ∃ n, resume^[n] stage = stage'

theorem Resumes.trans {stage stage' stage'' : Stage} (h : stage.Resumes stage')
    (h' : stage'.Resumes stage'') : stage.Resumes stage'' := by
  obtain ⟨n, rfl⟩ := h
  obtain ⟨m, rfl⟩ := h'
  exact ⟨m + n, Function.iterate_add_apply resume m n stage⟩

theorem resumes_reading (run : IndexRun) (files : List SourceFile) :
    (reading run files).Resumes (reading (files.foldl IndexRun.step run) []) := by
  induction files generalizing run with
  | nil => exact ⟨0, rfl⟩
  | cons file rest ih => exact .trans ⟨1, rfl⟩ (ih (run.step file))

theorem resumes_replaying (session : Session) (urls : List Url) :
    (replaying session urls).Resumes (resting (session.replayAll urls)) := by
  induction urls generalizing session with
  | nil => exact ⟨1, rfl⟩
  | cons url rest ih => exact .trans ⟨1, rfl⟩ (ih (session.replay url))

/-- Without other calls in between, the stages are one reading of the workspace. -/
theorem resumes_indexWorkspace (session : Session) :
    (resting session).Resumes (resting session.indexWorkspace.2) := by
  have hannounced : (resting session).Resumes (announced session.indexing).resume := ⟨2, rfl⟩
  refine hannounced.trans ?_
  cases hroot : session.server.root? with
  | none =>
      have hroot' : session.indexing.server.root? = none := hroot
      rw [Session.indexWorkspace_of_none hroot, resume, hroot']
      unfold Session.indexNothing
      dsimp only
      generalize (session.indexing.server.setTable
        (session.indexing.server.index.table.seedBuiltins Manual.bundled)).finishIndexing = ready
      exact resumes_replaying _ _
  | some root =>
      have hroot' : session.indexing.server.root? = some root := hroot
      rw [Session.indexWorkspace_of_root hroot, resume, hroot']
      refine (resumes_reading _ _).trans (.trans ⟨1, rfl⟩ ?_)
      unfold Session.indexRoot
      dsimp only
      generalize List.foldl IndexRun.step (session.indexing.prepareIndex root).1
        (session.indexing.prepareIndex root).2 = run
      exact resumes_replaying run.finish.2 run.finish.1

/-! ### Every run -/

theorem gated_start {session : Session} (h : session.Fresh) : session.server.Gated := by
  rw [Server.Gated, h.waiting, h.index]
  exact ⟨fun _ => nofun, fun _ => rfl⟩

/-- However the calls come, the index never becomes less ready, and the queue is there exactly
as long as it is not ready. Until then no event changes the table and no question has an
answer; afterwards the table itself is asked, and every answer is what it says. -/
theorem gate_opens_once {session : Session} (h : session.Fresh) (calls : List Call) :
    let stage := (resting session).run calls
    let index := stage.session.server.index
    (∀ later, index.readiness.rank ≤ (stage.run later).session.server.index.readiness.rank) ∧
    (stage.session.server.waiting.isSome = true ↔ index.readiness ≠ .ready) ∧
    (index.readiness ≠ .ready →
      (∀ event, (stage.step (.event event)).session.server.index.table = index.table) ∧
      (∀ question, stage.session.server.answer? question = none) ∧
      ∀ {α : Type} (ask : SymbolTable → α), index.query ask = none) ∧
    (index.readiness = .ready →
      (∀ question, stage.session.server.answer? question =
        stage.session.server.reply? index.table question) ∧
      ∀ {α : Type} (ask : SymbolTable → α), index.query ask = some (ask index.table)) := by
  intro stage index
  have hgated : stage.session.server.Gated :=
    (onward_run (resting session) calls).gated (gated_start h)
  refine ⟨fun later => (stage.onward_run later).rank, hgated, fun hshut => ⟨fun event => ?_,
    Server.answer?_of_not_ready hshut, SymbolIndex.query_of_not_ready hshut⟩,
    fun hready => ⟨Server.answer?_of_ready hready, SymbolIndex.query_of_ready hready⟩⟩
  rw [step, session_receive, (Session.heldBack_receive stage.session event).index
    (hgated.mpr hshut)]

/-- A document is opened while the workspace is being read. -/
def openedEarly : List Call := [.resume, .event (.didOpen Session.editedUrl 1 "hp = 3;")]

theorem gate_shut_after_early_opening :
    let stage := (resting {}).run openedEarly
    stage.session.server.waiting.isSome = true ∧
      ∀ question, stage.session.server.answer? question = none := by
  intro stage
  have hindexing : stage.session.server.index.readiness ≠ .ready := by decide +kernel
  have hfresh : ({} : Session).Fresh := ⟨rfl, rfl, rfl⟩
  obtain ⟨-, hgated, hshut, -⟩ := gate_opens_once hfresh openedEarly
  exact ⟨hgated.mpr hindexing, (hshut hindexing).2.1⟩

end Stage

end Gml
