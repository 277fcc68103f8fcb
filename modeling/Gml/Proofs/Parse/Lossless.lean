import Gml.Parse
import Gml.Proofs.Parser.Rules
import Gml.Proofs.Token.Tiling
import Gml.Proofs.Tree.Weaving

/-!
# Parsing loses nothing

The grammar takes every token that means something, and the builder puts the others
back where they stood. So whatever the text is, the leaves of its tree are its tokens,
and the places that the tree gives to its elements are those of the tokens.
-/
namespace Gml

namespace Parser

theorem current_eq_eof_of_rest {p : Parser} (h : p.rest = []) : p.current = .eof := by
  simp [current, h]

theorem rest_eq_nil_of_atEnd {p : Parser} (hend : p.atEnd = true)
    (hrest : ∀ token ∈ p.rest, token.kind ≠ .eof) : p.rest = [] := by
  cases h : p.rest with
  | nil => rfl
  | cons token rest =>
      have hkind : token.kind = .eof := by simpa [atEnd, isAt, current, h] using hend
      exact absurd hkind (hrest token (by simp [h]))

/-- The statements of a file take all of its tokens. -/
theorem statements_rest (p : Parser) (depth : Nat) (hp : ∀ token ∈ p.rest, token.kind ≠ .eof) :
    (p.repeatWhile (!·.atEnd) (Grammar.ofDepth (depth + 1)).topLevelStatement).rest = [] := by
  have hstatement : ∀ q : Parser, (!q.atEnd) = true →
      ((Grammar.ofDepth (depth + 1)).topLevelStatement q).rest.length < q.rest.length := by
    intro q hq
    have hcurrent : q.current ≠ .eof := by simpa [atEnd, isAt] using hq
    exact (Grammar.topLevelStatement_takes depth q hcurrent).2
      fun hrest => hcurrent (current_eq_eof_of_rest hrest)
  have hend := more_iterate_eq_false hstatement p.rounds p (Nat.lt_succ_self _)
  obtain ⟨trees, hreads⟩ := repeatWhile_advances (!·.atEnd)
    (Grammar.topLevelStatement_advances (Grammar.ofDepth_sound (depth + 1))) p
  refine rest_eq_nil_of_atEnd (by simpa [repeatWhile] using hend) fun token htoken => hp token ?_
  rw [hreads.taken]
  exact List.mem_append_right _ htoken

/-- The state in front of the first statement of a file. -/
def opened (tokens : List Token) (textEnd : Nat) : Parser :=
  (ofTokens tokens textEnd).emit (.start .sourceFile none)

/-- The state behind the last statement of a file. -/
def read (p : Parser) : Parser :=
  p.repeatWhile (!·.atEnd) (Grammar.ofDepth p.rounds).topLevelStatement

theorem sourceFile_eq (tokens : List Token) (textEnd : Nat) :
    (ofTokens tokens textEnd).sourceFile = (opened tokens textEnd).read.emit .finish := rfl

theorem read_advances (p : Parser) : p.Advances p.read :=
  repeatWhile_advances _ (Grammar.topLevelStatement_advances (Grammar.ofDepth_sound p.rounds)) p

theorem rest_read (tokens : List Token) (textEnd : Nat)
    (h : ∀ token ∈ tokens, token.kind ≠ .eof) : (opened tokens textEnd).read.rest = [] :=
  statements_rest _ _ fun token htoken => h token (List.mem_of_mem_filter htoken)

/-- What is read of a file up to its end are all tokens that mean something. -/
theorem Reads.leavesAll_eq {tokens : List Token} {textEnd : Nat} {trees : List Tree} {q : Parser}
    (h : (opened tokens textEnd).Reads trees q) (hrest : q.rest = []) : Tree.leavesAll trees = Tree.meaningful tokens := by
  have htaken := h.taken
  rw [hrest, List.append_nil] at htaken
  exact htaken.symm

/-- The tree of a file is built from the trees that were read in it, whatever tokens they are
built over. -/
theorem Reads.build_eq_weaveRoot {tokens : List Token} {textEnd : Nat} {trees : List Tree}
    {q : Parser} (h : (opened tokens textEnd).Reads trees q) {others : List Token} :
    Tree.build (q.emit .finish).events others = Tree.weaveRoot .sourceFile trees others := by
  obtain ⟨events, hspells, hevents⟩ := h.written
  have hfile : (q.emit .finish).events =
      (.start .sourceFile none :: (events ++ [.finish])).toArray := by
    apply Array.toList_inj.mp
    simp only [emit, Array.toList_push]
    rw [hevents]
    rfl
  rw [hfile]
  exact Tree.build_eq_weaveRoot .sourceFile hspells others

end Parser

/-! ### Places in the tree -/

namespace Token

theorem Tiles.split {before after : List Token} {start stop : Nat}
    (h : Tiles start (before ++ after) stop) :
    ∃ middle, Tiles start before middle ∧ Tiles middle after stop := by
  induction before generalizing start with
  | nil => exact ⟨start, .nil start, h⟩
  | cons token before ih =>
      cases h with
      | cons h =>
          obtain ⟨middle, hbefore, hafter⟩ := ih h
          exact ⟨middle, .cons hbefore, hafter⟩

/-- What a listing shows of a token: its kind, its bytes and its text. -/
def lexeme (token : Token) : ElementKind × Span × String :=
  (.token token.kind, token.span, token.text)

end Token

namespace Tree

/-- What a listing shows of a token, if the element is one. -/
def Entry.lexeme? (entry : Entry) : Option (ElementKind × Span × String) :=
  entry.text.map fun text => (entry.kind, entry.span, text)

/-- Counting the bytes of the leaves gives back the places of tokens that tile a text. -/
theorem entriesFromAll_of_tiles (trees : List Tree) (depth : Nat) {start stop : Nat}
    (h : Token.Tiles start (leavesAll trees) stop) :
    (entriesFromAll depth start trees).2 = stop ∧
      (entriesFromAll depth start trees).1.filterMap Entry.lexeme? =
        (leavesAll trees).map Token.lexeme ∧
      ∀ entry ∈ (entriesFromAll depth start trees).1, depth ≤ entry.depth := by
  match trees with
  | [] =>
      cases h
      exact ⟨rfl, rfl, by simp [entriesFromAll]⟩
  | .leaf token :: trees =>
      cases h with
      | cons h =>
          obtain ⟨hstop, hlexemes, hdepth⟩ := entriesFromAll_of_tiles trees depth h
          have hoffset : token.start + token.text.utf8ByteSize = token.stop := rfl
          simp only [entriesFromAll, entriesFrom, hoffset]
          refine ⟨hstop, ?_, ?_⟩
          · simp only [List.cons_append, List.nil_append, List.filterMap_cons, Entry.lexeme?,
              Option.map_some, leavesAll, leaves, List.map_cons]
            exact congrArg _ hlexemes
          · intro entry hentry
            rcases List.mem_cons.mp hentry with rfl | hentry
            · exact Nat.le_refl depth
            · exact hdepth entry hentry
  | .node kind children :: trees =>
      obtain ⟨middle, hchildren, htrees⟩ := h.split
      obtain ⟨hstop, hlexemes, hdepth⟩ := entriesFromAll_of_tiles children (depth + 1) hchildren
      obtain ⟨hstop', hlexemes', hdepth'⟩ := entriesFromAll_of_tiles trees depth htrees
      simp only [entriesFromAll, entriesFrom, hstop]
      refine ⟨hstop', ?_, ?_⟩
      · simp only [List.cons_append, List.filterMap_cons, List.filterMap_append, Entry.lexeme?,
          Option.map_none, leavesAll, leaves, List.map_append]
        exact congr (congrArg _ hlexemes) hlexemes'
      · intro entry hentry
        rcases List.mem_append.mp hentry with hentry | hentry
        · rcases List.mem_cons.mp hentry with rfl | hentry
          · exact Nat.le_refl depth
          · exact Nat.le_of_succ_le (hdepth entry hentry)
        · exact hdepth' entry hentry

end Tree

theorem parse_tree_eq (text : String) :
    (parse text).tree = Tree.build
      ((Parser.opened (lex text) text.utf8ByteSize).read.emit .finish).events (lex text) := by
  simp only [parse, Parser.sourceFile_eq]

theorem parse_errors_eq (text : String) :
    (parse text).errors = (Parser.opened (lex text) text.utf8ByteSize).read.errors.toList := by
  simp only [parse, Parser.sourceFile_eq, Parser.emit]

/-- The tree of a text is its tokens, woven into what the grammar read. -/
theorem parse_tree_eq_weaveRoot (text : String) :
    ∃ trees, (parse text).tree = Tree.weaveRoot .sourceFile trees (lex text) ∧
      Tree.leavesAll trees = Tree.meaningful (lex text) := by
  obtain ⟨trees, hreads⟩ := (Parser.opened (lex text) text.utf8ByteSize).read_advances
  refine ⟨trees, ?_, hreads.leavesAll_eq (Parser.rest_read _ _ (lex_ne_eof text))⟩
  rw [parse_tree_eq]
  exact hreads.build_eq_weaveRoot

end Gml
