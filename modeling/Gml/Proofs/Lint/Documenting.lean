import Gml.Proofs.Lint.Repeating
import Gml.Proofs.Parse.Regular
import Gml.Proofs.Token.Leading

/-!
# The documentation of a script

The documentation is read off the tree, where blanks and comments can be inside of nodes or outside.
It is nevertheless what the comments say that the lexer finds in front of the first token that means
something, and what comes behind them has no part in it.
-/
namespace Gml

namespace Docs

/-- A documentation comment is a line behind three slashes. -/
def Uncommented (token : Token) (line : List Char × Span) : Prop :=
  token.text.toList = '/' :: '/' :: '/' :: line.1 ∧ token.span = line.2

/-- The documentation comments in front of the first token that means something. -/
def leadingComments (text : String) : List Token :=
  (Token.leading (lex text)).filter (·.kind == .docComment)

theorem leadingLines_parse (text : String) : leadingLines (parse text).tree =
    (leadingComments text).map fun token => (token.text.toList.drop 3, token.span) := by
  rw [leadingLines, leaves_parse]
  rfl

theorem slashes_of_mem_lex {text : String} {token : Token} (h : token ∈ lex text)
    (hkind : token.kind = .docComment) :
    ∃ line, token.text.toList = '/' :: '/' :: '/' :: line := by
  obtain ⟨rest, hlongest⟩ := Token.longest_of_mem_lex h (by rw [hkind]; decide)
  rw [hkind] at hlongest
  obtain ⟨line, hline, -⟩ := Token.line_of_lexeme hlongest.lexeme
  exact ⟨line, hline⟩

theorem uncommented_leadingLines (text : String) :
    List.Forall₂ Uncommented (leadingComments text) (leadingLines (parse text).tree) := by
  rw [leadingLines_parse, List.forall₂_map_right_iff, List.forall₂_same]
  intro token hmem
  obtain ⟨hleading, hkind⟩ := List.mem_filter.mp hmem
  obtain ⟨line, hline⟩ := slashes_of_mem_lex ((List.takeWhile_sublist _).subset hleading)
    (eq_of_beq hkind)
  refine ⟨?_, rfl⟩
  rw [hline]
  rfl

/-- The lines are parsed, unless there are none. -/
theorem read_eq (tree : Tree) : read tree =
    (if leadingLines tree = [] then none else some (ScriptDoc.parse (leadingLines tree)).1,
      (ScriptDoc.parse (leadingLines tree)).2.map fun (span, fault) =>
        ⟨.malformedDocTag, .docs, span, fault.message⟩) := by
  unfold read
  split
  next hnone =>
      rw [hnone]
      rfl
  next hsome =>
      rw [if_neg hsome]

/-- Texts that begin with the same blanks and comments have the same documentation. -/
theorem read_congr {text text' : String} (h : Token.chars (Token.leading (lex text')) =
    Token.chars (Token.leading (lex text))) :
    read (parse text').tree = read (parse text).tree := by
  have hlines : leadingLines (parse text').tree = leadingLines (parse text).tree := by
    rw [leadingLines_parse, leadingLines_parse, leadingComments, leadingComments,
      Token.leading_lex_eq h]
  rw [read_eq, read_eq, hlines]

end Docs

/-- Texts with the same documentation leave the scripts the same signatures. -/
theorem LintDocument.scripts_runCycle {d : LintDocument} {text text' : String}
    (hok : (parse text).ok = true) (hok' : (parse text').ok = true)
    (hread : Docs.read (parse text').tree = Docs.read (parse text).tree)
    (index : SymbolIndex) (ticket : Ticket) (passes : Passes) (mode : LintMode) :
    ((d.setText text').runCycle index ticket passes mode).2.2.table.scripts =
      ((d.setText text).runCycle index ticket passes mode).2.2.table.scripts := by
  rw [(runCycle_eq _ index ticket passes mode).1, (runCycle_eq _ index ticket passes mode).1]
  refine SymbolIndex.scripts_commit index ticket ?_
  rw [found_of_ok (d := d.setText text) hok, found_of_ok (d := d.setText text') hok',
    readDoc_withParse (d := d.setText text) hok, readDoc_withParse (d := d.setText text') hok']
  dsimp only [setText]
  rw [hread]
  rfl

/-- The documentation of a text without errors is what the documentation comments in front of the
first token that means something say without their slashes, each reported at its place, and there is
none without such comments. Another text that begins with the same blanks and comments has the same,
and a round of analysis leaves all scripts the same signatures. -/
theorem documentation_is_the_leading_comments {text : String} (hok : (parse text).ok = true) :
    (∃ lines, List.Forall₂ Docs.Uncommented (Docs.leadingComments text) lines ∧
      Docs.read (parse text).tree =
        (if lines = [] then none else some (ScriptDoc.parse lines).1,
          (ScriptDoc.parse lines).2.map fun (span, fault) =>
            ⟨.malformedDocTag, .docs, span, fault.message⟩)) ∧
    ∀ other : String, (parse other).ok = true →
      Token.chars (Token.leading (lex other)) = Token.chars (Token.leading (lex text)) →
      Docs.read (parse other).tree = Docs.read (parse text).tree ∧
      ∀ (d : LintDocument) (index : SymbolIndex) ticket passes mode,
        ((d.setText other).runCycle index ticket passes mode).2.2.table.scripts =
          ((d.setText text).runCycle index ticket passes mode).2.2.table.scripts := by
  refine ⟨⟨_, Docs.uncommented_leadingLines text, Docs.read_eq _⟩, fun other hother hchars => ?_⟩
  have hread := Docs.read_congr hchars
  exact ⟨hread, fun _ => LintDocument.scripts_runCycle hok hother hread⟩

/-- The blanks and comments in front of two statements say how both scripts are called. -/
theorem two_scripts_share_their_documentation :
    let text := "/// scr_move(x, [speed])\n// not documented\nx += speed;"
    let other := "/// scr_move(x, [speed])\n// not documented\nreturn x; /// elsewhere"
    (parse text).ok = true ∧ (parse other).ok = true ∧
    (Docs.read (parse text).tree).1 =
      some { parameters := [{ label := "x" }, { label := "speed", optional := true }] } ∧
    Docs.read (parse other).tree = Docs.read (parse text).tree := by
  intro text other
  have hok : (parse text).ok = true := by decide +kernel
  have hok' : (parse other).ok = true := by decide +kernel
  obtain ⟨-, hsame⟩ := documentation_is_the_leading_comments hok
  exact ⟨hok, hok', by decide +kernel, (hsame other hok' (by decide +kernel)).1⟩

end Gml
