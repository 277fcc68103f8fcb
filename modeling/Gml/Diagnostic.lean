import Gml.Text.Bytes

/-!
# Diagnostics

Findings about a document. Each comes from one of the analyses, whose order is the
order in which findings are shown, and each kind of finding has its severity.
-/
namespace Gml

inductive Severity where
  | error
  | warning
  | info
  | hint
  deriving DecidableEq, Repr

namespace Severity

def word : Severity → String
  | .error => "error"
  | .warning => "warning"
  | .info => "info"
  | .hint => "hint"

def label : Severity → String
  | .error => "Error"
  | .warning => "Warning"
  | .info => "Info"
  | .hint => "Hint"

/-- The number that stands for a severity in messages to an editor. -/
def number : Severity → Nat
  | .error => 1
  | .warning => 2
  | .info => 3
  | .hint => 4

end Severity

inductive DiagnosticCode where
  | unparsable
  | unresolvedFunction
  | wrongArgumentCount
  | malformedDocTag
  | macroCollision
  deriving DecidableEq, Repr

namespace DiagnosticCode

def code : DiagnosticCode → String
  | .unparsable => "E001"
  | .unresolvedFunction => "W101"
  | .wrongArgumentCount => "W102"
  | .malformedDocTag => "W103"
  | .macroCollision => "E104"

def label : DiagnosticCode → String
  | .unparsable => "SyntaxError"
  | .unresolvedFunction => "UnresolvedFunction"
  | .wrongArgumentCount => "WrongArgumentCount"
  | .malformedDocTag => "MalformedDocTag"
  | .macroCollision => "MacroCollision"

def severity : DiagnosticCode → Severity
  | .unparsable | .macroCollision => .error
  | .unresolvedFunction | .wrongArgumentCount | .malformedDocTag => .warning

end DiagnosticCode

inductive DiagnosticSource where
  | parsing
  | calls
  | names
  | docs
  deriving DecidableEq, Repr

namespace DiagnosticSource

def rank : DiagnosticSource → Nat
  | .parsing => 0
  | .calls => 1
  | .names => 2
  | .docs => 3

/-- The word that an editor shows next to a message. -/
def label : DiagnosticSource → String
  | .parsing => "gml-syntax"
  | .calls => "gml-function"
  | .names => "gml-variable"
  | .docs => "gml-jsdoc"

end DiagnosticSource

structure Diagnostic where
  code : DiagnosticCode
  source : DiagnosticSource
  span : Span
  message : String
  deriving DecidableEq, Repr

namespace Diagnostic

def severity (d : Diagnostic) : Severity := d.code.severity

def isError (d : Diagnostic) : Bool := d.severity == .error

def render (d : Diagnostic) : String :=
  s!"{d.severity.word}[{d.code.code}]: {d.message} (at {d.span.start}..{d.span.stop})"

/-- Findings in the order of the analyses; those of one analysis keep their order. -/
def sortBySource (ds : List Diagnostic) : List Diagnostic :=
  ds.mergeSort fun a b => decide (a.source.rank ≤ b.source.rank)

end Diagnostic

end Gml
