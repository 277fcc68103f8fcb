import Gml.Server.Registration

/-!
# Reading the workspace

The manual is loaded and, if the project keeps one, the table of the last session; the
files are found and registered in their order; each of them is analysed in that order,
except those that have not changed since; then the index is ready, and the documents
that changed meanwhile are analysed.
-/
namespace Gml

structure IndexSummary where
  indexed : Nat := 0
  /-- Files that are as they were in the last session. -/
  restored : Nat := 0
  skipped : Nat := 0
  /-- There were more files than the project allows. -/
  truncated : Bool := false
  deriving DecidableEq, Repr

def IndexSummary.message (summary : IndexSummary) : String :=
  s!"Indexed {summary.indexed} GML files (restored={summary.restored}, skipped={summary.skipped})"
    ++ if summary.truncated then " (max_files limit reached)" else ""

structure ProgressBar where
  shown : Bool
  total : Nat
  percent : Nat := 0
  deriving DecidableEq, Repr

structure IndexRun where
  session : Session
  summary : IndexSummary := {}
  progress : ProgressBar
  done : Nat := 0
  /-- Whether the table comes from an earlier session. -/
  restored : Bool

namespace Session

/-! ### Progress -/

/-- Asks for a progress bar and shows it if the editor grants one. -/
def startProgress (session : Session) (title : String) (total : Nat) : ProgressBar × Session :=
  if !session.server.showsProgress then (⟨false, total, 0⟩, session)
  else
    let session := session.send .progressRequest
    if session.grantsProgress then
      (⟨true, total, 0⟩, session.send (.progress (.started title total)))
    else (⟨false, total, 0⟩, session)

/-- Moves the progress bar, if that is a whole percent or the end. -/
def reportProgress (session : Session) (bar : ProgressBar) (done : Nat) : ProgressBar × Session :=
  let percent := done * 100 / bar.total
  if !bar.shown || bar.total == 0 || (percent ≤ bar.percent && done < bar.total) then (bar, session)
  else ({ bar with percent }, session.send (.progress (.reached done bar.total percent)))

def endProgress (session : Session) (bar : ProgressBar) (message : String) : Session :=
  if bar.shown then session.send (.progress (.ended message)) else session

/-! ### Documents that waited -/

/-- Analyses a document that waited for the index. -/
def replay (session : Session) (url : Url) : Session :=
  match session.server.document? url with
  | none => session
  | some document =>
      let session := { session with server := session.server.register url }
      if document.isOpen then session.publish url (some document.version) document.content
      else (session.analyse url document.content .full).2

/-- The index is ready, and the documents that waited for it have their turn. -/
def replayAll (session : Session) (urls : List Url) : Session := urls.foldl replay session

end Session

namespace IndexRun

/-- Reads a file. One that the editor has open comes later, with the editor's text. -/
def indexFile (run : IndexRun) (file : SourceFile) : IndexRun :=
  let summary := run.summary
  match run.session.disk.read? file.path with
  | none => { run with summary := { summary with skipped := summary.skipped + 1 } }
  | some text =>
      let server := run.session.server
      let unchanged := run.restored
        && server.index.table.hashes.get? file.uri == some (ContentHash.ofText text)
      match server.indexDocument? file.url file.kind text with
      | none => run
      | some server =>
          let session := { run.session with server }
          if unchanged then
            { run with session, summary := { summary with restored := summary.restored + 1 } }
          else
            let (report, session) := session.analyse file.url text .bootstrap
            let session := match report with
              | some report =>
                  if report.stale || report.found.isEmpty then session
                  else session.send (.diagnostics file.url report.found none)
              | none => session
            { run with session, summary := { summary with indexed := summary.indexed + 1 } }

/-- Reads the next file and moves the progress bar. -/
def step (run : IndexRun) (file : SourceFile) : IndexRun :=
  let run := run.indexFile file
  let (progress, session) := run.session.reportProgress run.progress (run.done + 1)
  { run with session, progress, done := run.done + 1 }

end IndexRun

namespace Session

/-- The table of the last session, if the project keeps one. -/
def restoredTable? (session : Session) (config : ProjectConfig) : Option SymbolTable :=
  if config.indexing.cacheEnabled then
    (Storage.loadSnapshot? session.disk config.indexing.cacheDir).bind fun snapshot =>
      (SymbolTable.ofSnapshot snapshot).toOption
  else none

/-- The files to read, and whether there were more. -/
def filesToIndex (session : Session) (root : String) (config : ProjectConfig) :
    List SourceFile × Bool :=
  let files := Discovery.files session.disk root
  match config.indexing.maxFiles with
  | some most => (files.take most, decide (most < files.length))
  | none => (files, false)

/-- Everything before the first file: settings, manual, table and registration. -/
def prepareIndex (session : Session) (root : FilePath) : IndexRun × List SourceFile :=
  let config := Storage.loadConfig session.disk root.onDisk
  let server := session.server.setConfig config
  let (manual, disk) := Storage.loadManual session.disk config.manual
  let session := { session with server, disk }
  let kept := session.restoredTable? config
  let table := (kept.getD {}).seedBuiltins manual
  let (files, truncated) := session.filesToIndex root.onDisk config
  let table := if kept.isSome then table.prune files else table
  let session := { session with server := session.server.setTable (table.registerAll files) }
  let title := match root.fileName? with
    | some name => "Indexing " ++ name
    | none => "Indexing workspace"
  let (progress, session) := session.startProgress title files.length
  ({ session, summary := { truncated }, progress, restored := kept.isSome }, files)

def indexRoot (session : Session) (root : FilePath) : IndexSummary × Session :=
  let (start, files) := session.prepareIndex root
  let run := files.foldl IndexRun.step start
  let (waiting, server) := run.session.server.finishIndexing
  let message := run.summary.message
  let session := ({ run.session with server }.send (.log message)).endProgress run.progress message
  (run.summary, session.replayAll waiting)

/-- Without a directory there are only the built-in functions. -/
def indexNothing (session : Session) : Session :=
  let server := session.server.setTable (session.server.index.table.seedBuiltins Manual.bundled)
  let (waiting, server) := server.finishIndexing
  { session with server }.replayAll waiting

def indexWorkspace (session : Session) : IndexSummary × Session :=
  let session := { session with
    server := { session.server with index := (session.server.index.advance .indexing).2 } }
  match session.server.root? with
  | some root => session.indexRoot root
  | none => ({}, session.indexNothing)

end Session

end Gml
