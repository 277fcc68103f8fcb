import Gml.Project.Storage
import Gml.Server.Message

/-!
# A session

The server together with the disk it reads and with the messages it has sent. Every
event of the editor is a step from one session to the next.
-/
namespace Gml

structure Session where
  server : Server := {}
  disk : Disk := {}
  /-- Whether the editor grants a progress bar when asked for one. -/
  grantsProgress : Bool := true
  /-- The messages to the editor, in order. -/
  sent : List Message := []

structure LintReport where
  found : List EditorDiagnostic
  /-- A later analysis of the document was faster. -/
  stale : Bool

/-- Analyses a text in the place of a known document. -/
def Server.analyse (server : Server) (url : Url) (text : String) (mode : LintMode) :
    Option LintReport × Server :=
  match server.document? url with
  | none => (none, server)
  | some document =>
      let (ticket, index) := server.index.issue url.render
      let draft : LintDocument :=
        { uri := url.render, kind := document.kind, settings := server.lint, text }
      let (outcome, analysed, index) := draft.runCycle index ticket {} mode
      let server := { server with index }
      let found := match analysed.parsed with
        | some parsed => outcome.diagnostics.map (·.forEditor parsed.lines)
        | none => []
      (some ⟨found, outcome.stale⟩,
        if outcome.stale then server else server.recordParse url text analysed.parsed)

namespace Session

def send (session : Session) (message : Message) : Session :=
  { session with sent := session.sent ++ [message] }

def analyse (session : Session) (url : Url) (text : String) (mode : LintMode) :
    Option LintReport × Session :=
  let (report, server) := session.server.analyse url text mode
  (report, { session with server })

@[simp] theorem server_analyse (session : Session) (url : Url) (text : String)
    (mode : LintMode) :
    (session.analyse url text mode).2.server = (session.server.analyse url text mode).2 := rfl

/-- Analyses a text and sends what was found, unless that is out of date. -/
def publish (session : Session) (url : Url) (version : Option Int) (text : String) : Session :=
  match session.analyse url text .full with
  | (some report, session) =>
      if report.stale then session else session.send (.diagnostics url report.found version)
  | (none, session) => session

/-- Lets a document wait for the index, or goes on with it at once. -/
def whenReady (session : Session) (url : Url) (next : Session → Session) : Session :=
  match session.server.defer url with
  | (true, server) => { session with server }
  | (false, server) => next { session with server }

/-- The index is kept for the next session, if the project wants that and it is ready. -/
def shutdown (session : Session) : Session :=
  match session.server.config with
  | none => session
  | some config =>
      if config.indexing.cacheEnabled && session.server.index.isReady then
        let snapshot := session.server.index.table.snapshot
        { session with
          disk := Storage.saveSnapshot session.disk config.indexing.cacheDir snapshot }
      else session

end Session

end Gml
