import Gml.ContentHash
import Gml.Lint.Calls
import Gml.Parse
import Gml.ScriptDoc
import Gml.SymbolIndex

/-!
# A document under analysis

A document with its text, the last parse and the findings that wait to be collected.
Everything but the parsing needs a parse without errors and does nothing without one.
The documentation comments before the first token that means something belong to the
script.
-/
namespace Gml

namespace Docs

/-- The documentation comments at the top, without their slashes. -/
def leadingLines (tree : Tree) : List (List Char × Span) :=
  ((tree.leaves.takeWhile (·.kind.isTrivia)).filter (·.kind == .docComment)).map fun token =>
    (token.text.toList.drop 3, token.span)

/-- The documentation, if there is a comment for it, and the findings about it. -/
def read (tree : Tree) : Option ScriptDoc × List Diagnostic :=
  match leadingLines tree with
  | [] => (none, [])
  | lines =>
      let (doc, faults) := ScriptDoc.parse lines
      (some doc, faults.map fun (span, fault) => ⟨.malformedDocTag, .docs, span, fault.message⟩)

end Docs

/-- A parse with the line table of its text. -/
structure ParsedText where
  parse : Parse
  lines : LineIndex

namespace ParsedText

def ofText (text : String) : ParsedText := ⟨Gml.parse text, .ofText text⟩

def succeeded (parsed : ParsedText) : Bool := parsed.parse.ok

end ParsedText

structure LintDocument where
  uri : Uri
  kind : DocumentKind
  text : String := ""
  settings : LintSettings := {}
  parsed : Option ParsedText := none
  pending : List Diagnostic := []

namespace LintDocument

/-- Replaces the text; the parse of the old one goes. -/
def setText (d : LintDocument) (text : String) : LintDocument := { d with text, parsed := none }

/-- Parses the text, and says whether that went without errors. -/
def matchText (d : LintDocument) : Bool × LintDocument :=
  let parsed := ParsedText.ofText d.text
  (parsed.succeeded, { d with parsed := some parsed })

/-- The findings about the parse: a text with errors is reported at the first one. -/
def parseDiagnostics (d : LintDocument) : List Diagnostic :=
  match d.parsed.bind (·.parse.firstError?) with
  | some error => [⟨.unparsable, .parsing, error.span, error.message⟩]
  | none => []

/-- The last parse, if it has no errors. -/
def cleanParse? (d : LintDocument) : Option ParsedText := d.parsed.filter (·.succeeded)

def view (d : LintDocument) (parsed : ParsedText) : DocumentView :=
  ⟨d.uri, d.kind, parsed.parse.tree, parsed.lines⟩

def checkCalls (d : LintDocument) (t : SymbolTable) (mode : LintMode) : LintDocument :=
  match d.cleanParse? with
  | none => d
  | some parsed =>
      { d with pending :=
          d.pending ++ Calls.diagnostics t mode d.settings parsed.parse.tree }

def contribution? (d : LintDocument) : Option Contribution :=
  d.cleanParse?.map fun parsed => Names.contribution (d.view parsed)

def readDoc (d : LintDocument) : DocUpdate × LintDocument :=
  match d.kind.isScript, d.cleanParse? with
  | true, some parsed =>
      let (doc, found) := Docs.read parsed.parse.tree
      (match doc with
        | some doc => .set doc
        | none => .clear,
        { d with pending := d.pending ++ found })
  | _, _ => (.unchanged, d)

/-- The finding about a macro that stays hidden. -/
def conflictDiagnostic (d : LintDocument) (lines : LineIndex) (conflict : MacroConflict) :
    Diagnostic :=
  let name := conflict.record.name
  let location := conflict.record.location
  let span := match lines.offset? location.start, lines.offset? location.stop with
    | some start, some stop => ⟨start, stop⟩
    | _, _ => .empty 0
  let message := match conflict.owner with
    | some owner =>
        if owner = d.uri then s!"macro '{name}' is already defined in this file"
        else s!"macro '{name}' is already defined in {owner}"
    | none => s!"macro '{name}' collides with a resource name"
  ⟨.macroCollision, .names, span, message⟩

def reportConflicts (d : LintDocument) (conflicts : List MacroConflict) : LintDocument :=
  match d.cleanParse? with
  | none => d
  | some parsed =>
      { d with pending := d.pending ++ conflicts.map (d.conflictDiagnostic parsed.lines) }

def popPending (d : LintDocument) : List Diagnostic × LintDocument :=
  (d.pending, { d with pending := [] })

end LintDocument

structure Passes where
  calls : Bool := true
  names : Bool := true
  docs : Bool := true
  deriving DecidableEq, Repr

structure LintOutcome where
  diagnostics : List Diagnostic
  matched : Bool
  /-- A later round of the same document was faster; the findings are about an old
  text. -/
  stale : Bool

/-- Parses a document and, if that succeeds, runs the analyses and installs what they
found in one step. A text with errors leaves the table as it is and only makes earlier
tickets stale. -/
def LintDocument.runCycle (d : LintDocument) (index : SymbolIndex) (ticket : Ticket)
    (passes : Passes) (mode : LintMode) : LintOutcome × LintDocument × SymbolIndex :=
  match d.matchText with
  | (false, d) =>
      let (fresh, index) := index.accept ticket
      (⟨d.parseDiagnostics, false, !fresh⟩, d, index)
  | (true, d) =>
      let d := if passes.calls then d.checkCalls index.table mode else d
      let contribution := if passes.names then d.contribution? else none
      let (doc, d) := if passes.docs then d.readDoc else (.unchanged, d)
      let contentHash := contribution.map fun _ => ContentHash.ofText d.text
      let (conflicts, index) := index.commit ticket { contribution, doc, contentHash }
      let d := d.reportConflicts (conflicts.getD [])
      let (pending, d) := d.popPending
      (⟨Diagnostic.sortBySource pending, true, conflicts.isNone⟩, d, index)

end Gml
