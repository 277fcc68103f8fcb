import Gml.Json.Basic
import Gml.Server.State

/-!
# Messages to the editor

What the server sends on its own: findings about a document, a line for the log, and how
far the indexing is.
-/
namespace Gml

/-- A finding as an editor shows it. -/
structure EditorDiagnostic where
  range : TextRange
  severity : Severity
  code : String
  source : String
  message : String
  deriving DecidableEq, Repr

inductive ProgressStage where
  | started (title : String) (total : Nat)
  | reached (done total percent : Nat)
  | ended (message : String)
  deriving DecidableEq, Repr

inductive Message where
  /-- The findings about a document, with the version they are about. -/
  | diagnostics (url : Url) (found : List EditorDiagnostic) (version : Option Int)
  | log (text : String)
  | progressRequest
  | progress (stage : ProgressStage)
  deriving DecidableEq, Repr

def Diagnostic.forEditor (lines : LineIndex) (d : Diagnostic) : EditorDiagnostic :=
  { range := lines.range d.span.start d.span.stop
    severity := d.severity
    code := d.code.code
    source := d.source.label
    message := d.message }

/-! ### JSON -/

def Position.toEditorJson (position : Position) : Json :=
  .object [("line", .natural position.line), ("character", .natural position.column)]

def TextRange.toEditorJson (range : TextRange) : Json :=
  .object [("start", range.start.toEditorJson), ("end", range.stop.toEditorJson)]

def EditorDiagnostic.toJson (d : EditorDiagnostic) : Json :=
  .object [("range", d.range.toEditorJson), ("severity", .natural d.severity.number),
    ("code", .text d.code), ("source", .text d.source), ("message", .text d.message)]

def progressToken : String := "gml-lsp-index"

def filesDone (done total : Nat) : String := s!"{done}/{total} files"

namespace ProgressStage

def toJson : ProgressStage → Json
  | .started title total =>
      .object [("kind", .text "begin"), ("title", .text title), ("cancellable", .bool false),
        ("message", .text (filesDone 0 total)), ("percentage", .natural 0)]
  | .reached done total percent =>
      .object [("kind", .text "report"), ("cancellable", .bool false),
        ("message", .text (filesDone done total)), ("percentage", .natural percent)]
  | .ended message => .object [("kind", .text "end"), ("message", .text message)]

end ProgressStage

namespace Message

def method : Message → String
  | .diagnostics .. => "textDocument/publishDiagnostics"
  | .log _ => "window/logMessage"
  | .progressRequest => "window/workDoneProgress/create"
  | .progress _ => "$/progress"

def isRequest : Message → Bool
  | .progressRequest => true
  | _ => false

def parameters : Message → Json
  | .diagnostics url found version =>
      .object ([("uri", .text url.render), ("diagnostics", .arr (found.map EditorDiagnostic.toJson))]
        ++ Json.member? "version" .int version)
  | .log text => .object [("type", .natural 3), ("message", .text text)]
  | .progressRequest => .object [("token", .text progressToken)]
  | .progress stage => .object [("token", .text progressToken), ("value", stage.toJson)]

end Message

end Gml
