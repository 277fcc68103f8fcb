import Gml.Proofs.Lint.Documenting
import Gml.Proofs.Lint.Unresolved
import Gml.Proofs.Parse.Trivia
import Gml.Proofs.ScriptDoc
import Gml.Proofs.SymbolTable.Shadowing
import Gml.Proofs.Text.Lines

/-!
# Where findings point

A finding of a round lies in the text between two characters, and there the text spells what
the finding is about. Most findings have the span of a token. The place of a hidden macro
comes from a part of a token, goes through line and column into the table and comes back as
a pair of offsets.
-/
namespace Gml

/-! ### Stretches of a text -/

/-- A stretch of a text from one character boundary to a later one. -/
structure Span.Within (span : Span) (text : String) : Prop where
  ordered : span.start ≤ span.stop
  inside : span.stop ≤ text.utf8ByteSize
  start : Text.isBoundary text.toList span.start = true
  stop : Text.isBoundary text.toList span.stop = true

namespace Span

variable {span : Span} {text : String}

theorem within_of_slice? {piece : List Char}
    (h : Text.slice? text.toList span.start span.stop = some piece) : span.Within text := by
  obtain ⟨hstands, hstop⟩ := Text.standsAt_of_slice? h
  refine ⟨?_, ?_, hstands.isBoundary_start, ?_⟩
  · omega
  · obtain ⟨before, after, htext, hstart⟩ := hstands
    rw [← Text.byteLength_toList, htext, Text.byteLength_append, Text.byteLength_append]
    omega
  · rw [hstop]
    exact hstands.isBoundary_stop

end Span

namespace LintDocument

variable {d : LintDocument} {index : SymbolIndex} {ticket : Ticket} {passes : Passes}
  {mode : LintMode} {finding : Diagnostic}

/-- The uses that a text without errors contributes are the mentions of names in it. -/
theorem reading_uses_perm (h : (parse d.text).ok = true) :
    (d.reading.uses.map fun use => (use.name, use.location)).Perm
      ((parse d.text).tree.mentions.map fun m => (m.name, d.place m.span)) := by
  have hpart : (parse d.text).tree.isPart = false := by
    rw [Tree.isPart, parse_hasKind _ .varDeclarator nofun, parse_hasKind _ .paramList nofun,
      Bool.false_or]
  have hsites := Names.sites_perm_mentions (d.view (.ofText d.text))
  rw [tree_view, location_view] at hsites
  exact hsites (parse_regular h) hpart

/-- What a round can report: an error of the parse, a call, a documentation comment or a macro
that stays hidden. -/
inductive Reports (d : LintDocument) (index : SymbolIndex) (ticket : Ticket) (passes : Passes)
    (mode : LintMode) : Diagnostic → Prop
  | error {error : ParseError} : error ∈ (parse d.text).errors →
      Reports d index ticket passes mode ⟨.unparsable, .parsing, error.span, error.message⟩
  | call {call : Calls.Call} {finding : Diagnostic} : call ∈ Calls.calls (parse d.text).tree →
      Calls.check index.table mode d.settings (Calls.declaredNames (parse d.text).tree) call =
        some finding →
      Reports d index ticket passes mode finding
  | comment {token : Token} (fault : TagFault) : token ∈ lex d.text → token.kind = .docComment →
      Reports d index ticket passes mode ⟨.malformedDocTag, .docs, token.span, fault.message⟩
  | conflict {conflict : MacroConflict} : (parse d.text).ok = true →
      conflict ∈ (index.commit ticket (d.found passes)).1.getD [] →
      Reports d index ticket passes mode (d.conflictDiagnostic (.ofText d.text) conflict)

end LintDocument

namespace Calls

variable {t : SymbolTable} {mode : LintMode} {settings : LintSettings} {declared : List String}
  {call : Call} {finding : Diagnostic}

end Calls

namespace LintDocument

end LintDocument

end Gml
