import Gml.Proofs.Server.Sessions
import Gml.Proofs.SymbolTable.Scripts

/-!
# What becomes of the documents

An analysis leaves its document with the parse of the text that was analysed, and the table
with what was found in this text. It says nothing about other documents. So while the
workspace is read, only the reading of a file itself and the turn of a document that waited
matter to what is known at one address.
-/
namespace Gml

namespace LintDocument

theorem parsed_readDoc (d : LintDocument) : d.readDoc.2.parsed = d.parsed := by
  unfold readDoc
  split
  · rfl
  · rfl

theorem parsed_reportConflicts (d : LintDocument) (conflicts : List MacroConflict) :
    (d.reportConflicts conflicts).parsed = d.parsed := by
  unfold reportConflicts
  split
  · rfl
  · rfl

/-- A round leaves the parse of its text, with errors or without. -/
theorem parsed_runCycle (d : LintDocument) (index : SymbolIndex) (ticket : Ticket)
    (passes : Passes) (mode : LintMode) :
    (d.runCycle index ticket passes mode).2.1.parsed = some (.ofText d.text) := by
  cases h : (parse d.text).ok with
  | false => rw [runCycle_of_errors h, withParse]
  | true =>
      have hmatch : d.matchText = (true, d.withParse) := by
        rw [← h]
        rfl
      have hcalls : (if passes.calls then d.withParse.checkCalls index.table mode
          else d.withParse).parsed = some (.ofText d.text) := by
        obtain ⟨pending, hchecked⟩ := checkCalls_eq d.withParse index.table mode
        rw [hchecked]
        split <;> rfl
      rw [runCycle, hmatch]
      dsimp only
      generalize (if passes.calls then d.withParse.checkCalls index.table mode
        else d.withParse) = checked at hcalls
      have hdocs : (if passes.docs then checked.readDoc else (.unchanged, checked)).2.parsed =
          some (.ofText d.text) := by
        split
        · rw [parsed_readDoc, hcalls]
        · exact hcalls
      rw [popPending, parsed_reportConflicts, hdocs]

end LintDocument

namespace Document

/-- A document after an analysis of a text in its place. -/
def read (document : Document) (text : String) : Document :=
  { document with
    parsed := some (.ofText text), dirty := document.dirty && document.content != text }

/-- A document whose content has been analysed. -/
def settled (document : Document) : Document :=
  { document with parsed := some (.ofText document.content), dirty := false }

theorem read_content (document : Document) : document.read document.content = document.settled := by
  rw [read, settled, bne_self_eq_false, Bool.and_false]

end Document

namespace Server

variable {server : Server} {document : Document} {url : Url} {text : String} {mode : LintMode}

/-- Every document is known by its address, and no accepted ticket is later than those given
out, so that no analysis is overtaken. -/
structure Steady (server : Server) : Prop where
  keyed : server.documents.Keyed (·.url.render)
  timely : server.index.Timely

theorem Steady.key_eq (h : server.Steady) (hdocument : server.document? url = some document) :
    document.url.render = url.render :=
  h.keyed url.render document hdocument

/-- All that an analysis does when nothing overtakes it. -/
theorem Steady.analyse_eq (h : server.Steady) (hdocument : server.document? url = some document)
    (text : String) (mode : LintMode) :
    ∃ nextSequence accepted, (server.analyse url text mode).2 =
      { server.putDocument (document.read text) with
        index := { server.index with
          table := (SymbolIndex.install server.index.table url.render
            ((server.roundOf document url text).found {})).2
          nextSequence, accepted } } := by
  have haccept : ((server.index.issue url.render).2.accept
      (server.index.issue url.render).1).1 = true := by
    rw [SymbolIndex.accept_eq]
    exact decide_eq_true (h.timely url.render)
  have hround := (server.roundOf document url text).runCycle_eq (server.index.issue url.render).2
    (server.index.issue url.render).1 {} mode
  have hparsed := (server.roundOf document url text).parsed_runCycle
    (server.index.issue url.render).2 (server.index.issue url.render).1 {} mode
  have hcommit := SymbolIndex.commit_eq (server.index.issue url.render).2
    (server.index.issue url.render).1 ((server.roundOf document url text).found {})
  rw [hcommit.2, if_pos haccept, ← Option.not_isSome, hcommit.1, haccept] at hround
  rw [analyse, hdocument]
  dsimp only
  rw [← roundOf]
  generalize (server.roundOf document url text).runCycle (server.index.issue url.render).2
    (server.index.issue url.render).1 {} mode = round at hround hparsed
  obtain ⟨outcome, analysed, index⟩ := round
  obtain ⟨hindex, hstale⟩ := hround
  dsimp only at hindex hstale hparsed ⊢
  have hknown : ({ server with index } : Server).document? url = some document := hdocument
  rw [hstale, Bool.not_true, if_neg Bool.false_ne_true, recordParse_of_some hknown, hparsed, hindex]
  unfold SymbolIndex.accept SymbolIndex.issue
  dsimp only
  split
  · exact ⟨_, _, rfl⟩
  · exact ⟨_, _, rfl⟩

theorem Steady.putDocument (h : server.Steady) (document : Document) :
    (server.putDocument document).Steady :=
  ⟨h.keyed.set rfl, h.timely⟩

theorem steady_analyse (h : server.Steady) (url : Url) (text : String) (mode : LintMode) :
    (server.analyse url text mode).2.Steady := by
  refine ⟨?_, timely_analyse h.timely⟩
  cases hdocument : server.document? url with
  | none =>
      rw [analyse_of_none hdocument]
      exact h.keyed
  | some document =>
      obtain ⟨nextSequence, accepted, hanalyse⟩ := h.analyse_eq hdocument text mode
      rw [hanalyse]
      exact (h.putDocument (document.read text)).keyed

/-- An analysis installs what it found, or it leaves the table alone. -/
theorem table_analyse (server : Server) (url : Url) (text : String) (mode : LintMode) :
    (server.analyse url text mode).2.index.table = server.index.table ∨
      ∃ found, (server.analyse url text mode).2.index.table =
        (SymbolIndex.install server.index.table url.render found).2 := by
  cases hdocument : server.document? url with
  | none => exact .inl (by rw [analyse_of_none hdocument])
  | some document =>
      obtain ⟨documents, hanalyse, -⟩ := analyse_of_some hdocument text mode
      rw [hanalyse]
      rcases (server.index.issue url.render).2.table_commit (server.index.issue url.render).1
        ((server.roundOf document url text).found {}) with hsame | hinstall
      · exact .inl hsame
      · exact .inr ⟨_, hinstall⟩

theorem register_eq (server : Server) (url : Url) :
    server.register url = server ∨ ∃ kind, server.register url =
      server.setTable (server.index.table.registerIfPossible url.render kind) := by
  rw [register]
  split
  · exact .inr ⟨_, rfl⟩
  · exact .inl rfl

theorem steady_register (h : server.Steady) (url : Url) : (server.register url).Steady := by
  rcases server.register_eq url with heq | ⟨kind, heq⟩
  · rw [heq]
    exact h
  · rw [heq]
    exact ⟨h.keyed, h.timely⟩

theorem document?_register (server : Server) (url other : Url) :
    (server.register url).document? other = server.document? other := by
  rw [document?, documents_register, document?]

/-! ### What is known at one address -/

/-- Nothing changes of what is known at an address: neither its document nor what the table
keeps of it, nor, if links are in order, its script. -/
structure LeavesAt (uri : Uri) (server server' : Server) : Prop where
  document : server'.documents.get? uri = server.documents.get? uri
  agrees : server.index.table.Agrees server'.index.table uri
  scripts : server.index.table.Linked →
    server'.index.table.Linked ∧
      SymbolTable.Updates uri .unchanged server.index.table server'.index.table

namespace LeavesAt

variable {uri : Uri} {server' server'' : Server}

theorem of_eq (hdocument : server'.documents.get? uri = server.documents.get? uri)
    (htable : server'.index.table = server.index.table) : LeavesAt uri server server' := by
  refine ⟨hdocument, ?_, ?_⟩
  · rw [htable]
    exact ⟨rfl, rfl⟩
  · rw [htable]
    exact fun h => ⟨h, .refl uri _⟩

theorem refl (uri : Uri) (server : Server) : LeavesAt uri server server := of_eq rfl rfl

theorem trans (h : LeavesAt uri server server') (h' : LeavesAt uri server' server'') :
    LeavesAt uri server server'' where
  document := h'.document.trans h.document
  agrees := ⟨h'.agrees.1.trans h.agrees.1, h'.agrees.2.trans h.agrees.2⟩
  scripts hlinked :=
    have hscripts := h.scripts hlinked
    have hscripts' := h'.scripts hscripts.1
    ⟨hscripts'.1, hscripts.2.trans hscripts'.2⟩

theorem of_putDocument (h : uri ≠ document.url.render) :
    LeavesAt uri server (server.putDocument document) := by
  refine of_eq ?_ rfl
  rw [putDocument, Table.get?_set, if_neg h]

theorem of_register (server : Server) (h : uri ≠ url.render) :
    LeavesAt uri server (server.register url) := by
  rcases server.register_eq url with heq | ⟨kind, heq⟩
  · rw [heq]
    exact refl uri server
  · rw [heq]
    exact ⟨rfl, SymbolTable.agrees_registerIfPossible _ _ _ _, fun hlinked =>
      ⟨hlinked.registerIfPossible _ _, SymbolTable.updates_registerIfPossible _ h _⟩⟩

theorem of_analyse (hsteady : server.Steady) (h : uri ≠ url.render) (text : String)
    (mode : LintMode) : LeavesAt uri server (server.analyse url text mode).2 := by
  cases hdocument : server.document? url with
  | none =>
      rw [analyse_of_none hdocument]
      exact refl uri server
  | some document =>
      have hkey := hsteady.key_eq hdocument
      have hother : uri ≠ (document.read text).url.render := fun heq => h (heq.trans hkey)
      have hput : LeavesAt uri server (server.putDocument (document.read text)) :=
        of_putDocument hother
      obtain ⟨nextSequence, accepted, hanalyse⟩ := hsteady.analyse_eq hdocument text mode
      rw [hanalyse]
      exact ⟨hput.document, SymbolTable.agrees_install _ h _, fun hlinked =>
        ⟨hlinked.install _ _, SymbolTable.updates_install_other hlinked h _⟩⟩

end LeavesAt

/-- Whether the editor has a document open. -/
def hasOpen (server : Server) (url : Url) : Bool :=
  ((server.document? url).map (·.isOpen)).getD false

end Server

/-! ### Files -/

namespace IndexRun

variable {run : IndexRun} {file : SourceFile} {text : String}

/-- Whether a text is the one that the restored table comes from. -/
def skips (run : IndexRun) (file : SourceFile) (text : String) : Bool :=
  run.restored
    && run.session.server.index.table.hashes.get? file.uri == some (ContentHash.ofText text)

theorem server_step (run : IndexRun) (file : SourceFile) :
    (run.step file).session.server = (run.indexFile file).session.server := by
  unfold step Session.reportProgress
  dsimp only
  split
  · rfl
  · rfl

theorem server_step_of_unreadable (h : run.session.disk.read? file.path = none) :
    (run.step file).session.server = run.session.server := by
  rw [server_step]
  unfold indexFile
  rw [h]

theorem server_step_of_open (h : run.session.server.hasOpen file.url = true) :
    (run.step file).session.server = run.session.server := by
  rw [server_step]
  unfold indexFile
  split
  · rfl
  next text _ =>
      have hnone : run.session.server.indexDocument? file.url file.kind text = none := by
        rw [Server.hasOpen] at h
        rw [Server.indexDocument?, if_pos h]
      dsimp only
      rw [hnone]

/-- A file that is closed and can be read gets its document, and it is analysed unless the
restored table comes from this very text. -/
theorem server_step_of_closed (h : run.session.server.hasOpen file.url = false)
    (hread : run.session.disk.read? file.path = some text) :
    (run.step file).session.server =
      if run.skips file text then run.session.server.putDocument (file.document text)
      else ((run.session.server.putDocument (file.document text)).analyse file.url text
        .bootstrap).2 := by
  have hsome : run.session.server.indexDocument? file.url file.kind text =
      some (run.session.server.putDocument (file.document text)) := by
    rw [Server.hasOpen] at h
    rw [Server.indexDocument?, h, if_neg Bool.false_ne_true]
    rfl
  rw [server_step]
  unfold indexFile
  rw [hread]
  dsimp only
  rw [hsome, ← skips]
  dsimp only
  split
  · rfl
  · rw [Session.analyse]
    dsimp only
    split
    · split
      · rfl
      · rfl
    · rfl

/-- The server after a file, whatever becomes of it. -/
theorem server_step_cases (run : IndexRun) (file : SourceFile) :
    (run.step file).session.server = run.session.server ∨
      ∃ text, run.session.disk.read? file.path = some text ∧
        run.session.server.hasOpen file.url = false ∧
        (run.step file).session.server =
          if run.skips file text then run.session.server.putDocument (file.document text)
          else ((run.session.server.putDocument (file.document text)).analyse file.url text
            .bootstrap).2 := by
  cases hread : run.session.disk.read? file.path with
  | none => exact .inl (server_step_of_unreadable hread)
  | some text =>
      cases hopen : run.session.server.hasOpen file.url with
      | true => exact .inl (server_step_of_open hopen)
      | false => exact .inr ⟨text, rfl, rfl, server_step_of_closed hopen hread⟩

theorem steady_step (h : run.session.server.Steady) (file : SourceFile) :
    (run.step file).session.server.Steady := by
  rcases run.server_step_cases file with heq | ⟨text, -, -, heq⟩
  · rw [heq]
    exact h
  · have hput := h.putDocument (file.document text)
    rw [heq]
    split
    · exact hput
    · exact Server.steady_analyse hput _ _ _

theorem leavesAt_step (hsteady : run.session.server.Steady) {uri : Uri} (h : uri ≠ file.uri) :
    Server.LeavesAt uri run.session.server (run.step file).session.server := by
  rcases run.server_step_cases file with heq | ⟨text, -, -, heq⟩
  · rw [heq]
    exact .refl uri _
  · have hput : Server.LeavesAt uri run.session.server
        (run.session.server.putDocument (file.document text)) := .of_putDocument h
    rw [heq]
    split
    · exact hput
    · exact hput.trans (.of_analyse (hsteady.putDocument _) h _ _)

end IndexRun

/-! ### Documents that waited -/

namespace Session

variable {session : Session} {document : Document} {url : Url}

theorem server_replay (h : session.server.document? url = some document) :
    (session.replay url).server =
      ((session.server.register url).analyse url document.content .full).2 := by
  unfold replay
  rw [h]
  dsimp only
  split
  · obtain ⟨sent, hpublish⟩ := publish_eq { session with server := session.server.register url } url
      (some document.version) document.content
    rw [hpublish]
  · rfl

theorem replay_of_none (h : session.server.document? url = none) :
    session.replay url = session := by
  unfold replay
  rw [h]

theorem steady_replay (h : session.server.Steady) (url : Url) :
    (session.replay url).server.Steady := by
  cases hdocument : session.server.document? url with
  | none =>
      rw [replay_of_none hdocument]
      exact h
  | some document =>
      rw [server_replay hdocument]
      exact Server.steady_analyse (Server.steady_register h url) _ _ _

theorem leavesAt_replay (hsteady : session.server.Steady) {uri : Uri} (h : uri ≠ url.render) :
    Server.LeavesAt uri session.server (session.replay url).server := by
  cases hdocument : session.server.document? url with
  | none =>
      rw [replay_of_none hdocument]
      exact .refl uri _
  | some document =>
      rw [server_replay hdocument]
      exact (Server.LeavesAt.of_register _ h).trans
        (.of_analyse (Server.steady_register hsteady url) h _ _)

theorem leavesAt_replayAll (hsteady : session.server.Steady) {uri : Uri} {urls : List Url}
    (h : uri ∉ urls.map Url.render) :
    Server.LeavesAt uri session.server (session.replayAll urls).server := by
  rw [replayAll]
  induction urls generalizing session with
  | nil => exact .refl uri _
  | cons url rest ih =>
      rw [List.map_cons, List.mem_cons, not_or] at h
      exact (leavesAt_replay hsteady h.1).trans (ih (steady_replay hsteady url) h.2)

/-- When a document that waited has had its turn, its content has been analysed. -/
theorem settled_replay (hsteady : session.server.Steady)
    (hdocument : session.server.document? url = some document) :
    (session.replay url).server.document? url = some document.settled ∧
      ((parse document.content).ok = true →
        (session.replay url).server.index.table.Holds document.reading) := by
  have hkey := hsteady.key_eq hdocument
  have hregistered : (session.server.register url).document? url = some document := by
    rw [Server.document?_register, hdocument]
  have hsteady' := Server.steady_register hsteady url
  rw [server_replay hdocument]
  refine ⟨?_, fun hok => ?_⟩
  · obtain ⟨nextSequence, accepted, hanalyse⟩ :=
      hsteady'.analyse_eq hregistered document.content .full
    rw [hanalyse, document.read_content]
    exact Server.document?_putDocument _ hkey
  · rw [Document.reading, hkey]
    exact Server.holds_analyse hsteady'.timely hregistered hok

/-- Each document that waited is settled in the end, even if it waited more than once. -/
theorem settled_replayAll (hsteady : session.server.Steady)
    (hdocument : session.server.document? url = some document) {urls : List Url}
    (hwaits : url.render ∈ urls.map Url.render) :
    (session.replayAll urls).server.document? url = some document.settled ∧
      ((parse document.content).ok = true →
        (session.replayAll urls).server.index.table.Holds document.reading) := by
  induction urls generalizing session document with
  | nil => cases hwaits
  | cons first rest ih =>
      have hsteady' := steady_replay hsteady first
      by_cases hfirst : url.render = first.render
      · have hsame : session.server.document? first = some document := by
          rw [Server.document?, ← hfirst]
          exact hdocument
        obtain ⟨hsettled, hholds⟩ := settled_replay hsteady hsame
        rw [Server.document?, ← hfirst] at hsettled
        by_cases hagain : url.render ∈ rest.map Url.render
        · have hlast := ih hsteady' hsettled hagain
          exact hlast
        · have hleaves := leavesAt_replayAll hsteady' hagain
          refine ⟨hleaves.document.trans hsettled, fun hok => (hholds hok).of_agrees ?_⟩
          have hkey := hsteady.key_eq hdocument
          rw [Document.reading, hkey]
          exact hleaves.agrees
      · have hrest : url.render ∈ rest.map Url.render :=
          (List.mem_cons.mp hwaits).resolve_left hfirst
        have hleaves : Server.LeavesAt url.render session.server (session.replay first).server :=
          leavesAt_replay hsteady hfirst
        exact ih hsteady' (hleaves.document.trans hdocument) hrest

end Session

end Gml
