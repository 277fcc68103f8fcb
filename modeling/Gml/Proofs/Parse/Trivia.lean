import Gml.Proofs.Parse.Shape
import Gml.Proofs.Parser.Relocating
import Mathlib.Data.List.Forall2

/-!
# Blanks and comments do not change the parse

What the grammar reads of a text are the kinds and the texts of the tokens that mean something.
Two texts that are alike in these are read by the same steps. So their trees differ in blanks
and comments only, and their errors point at the same tokens.
-/
namespace Gml

/-- What is left of a token when its place is forgotten. -/
def Token.content (token : Token) : TokenKind × String := (token.kind, token.text)

namespace Tree

/-! ### Trees without places -/

mutual

/-- A tree in which every token starts at zero. -/
def placeless : Tree → Tree
  | .leaf token => .leaf { token with start := 0 }
  | .node kind children => .node kind (placelessAll children)

def placelessAll : List Tree → List Tree
  | [] => []
  | tree :: trees => placeless tree :: placelessAll trees

end

theorem placelessAll_append (trees others : List Tree) :
    placelessAll (trees ++ others) = placelessAll trees ++ placelessAll others := by
  induction trees with
  | nil => rfl
  | cons tree trees ih => rw [List.cons_append, placelessAll, placelessAll, ih, List.cons_append]

/-- Of tokens that are placed under a kind only the texts are left. -/
theorem placelessAll_map_leaf (kind : TokenKind) (tokens : List Token) :
    placelessAll (bareAll (tokens.map fun token => .leaf { token with kind })) =
      if kind.isTrivia then [] else (tokens.map Token.text).map fun text => .leaf ⟨kind, 0, text⟩ := by
  induction tokens with
  | nil => rw [List.map_nil, bareAll, placelessAll, List.map_nil, List.map_nil, ite_self]
  | cons token rest ih =>
      rw [List.map_cons, bareAll, isTrivia]
      split
      next htrivia => rw [ih, if_pos htrivia]
      next hmeans =>
          rw [placelessAll, ih, if_neg hmeans]
          rfl

/-- The same kinds and texts, whatever stands between and around them. -/
def SameContents (tokens tokens' : List Token) : Prop :=
  (meaningful tokens).map Token.content = (meaningful tokens').map Token.content

namespace SameContents

variable {tokens tokens' : List Token}

theorem afterTrivia (h : SameContents tokens tokens') :
    SameContents (Tree.afterTrivia tokens) (Tree.afterTrivia tokens') := by
  rw [SameContents, meaningful_afterTrivia, meaningful_afterTrivia]
  exact h

theorem afterTrivia_eq_nil (h : meaningful tokens = []) : Tree.afterTrivia tokens = [] := by
  unfold meaningful Tree.afterTrivia at *
  rw [List.dropWhile_eq_nil_iff]
  simpa using h

/-- The next tokens that mean something have the same text, and what follows is alike. -/
theorem next (h : SameContents tokens tokens') :
    ((Tree.afterTrivia tokens).take 1).map Token.text =
        ((Tree.afterTrivia tokens').take 1).map Token.text ∧
      SameContents ((Tree.afterTrivia tokens).drop 1) ((Tree.afterTrivia tokens').drop 1) := by
  unfold SameContents at h
  cases hnext : meaningful tokens with
  | nil =>
      rw [hnext, List.map_nil, eq_comm, List.map_eq_nil_iff] at h
      rw [afterTrivia_eq_nil hnext, afterTrivia_eq_nil h]
      exact ⟨rfl, rfl⟩
  | cons token more =>
      rw [hnext, List.map_cons, eq_comm, List.map_eq_cons_iff] at h
      obtain ⟨token', more', hnext', hcontent, hmore⟩ := h
      obtain ⟨rest, hafter, hrest⟩ := afterTrivia_eq_cons hnext
      obtain ⟨rest', hafter', hrest'⟩ := afterTrivia_eq_cons hnext'
      have htext : token'.text = token.text := congrArg Prod.snd hcontent
      rw [hafter, hafter']
      refine ⟨?_, ?_⟩
      · simp [htext]
      · rw [SameContents, List.drop_one, List.tail_cons, List.drop_one, List.tail_cons, hrest,
          hrest', hmore]

end SameContents

/-- What is woven into trees besides blanks and comments comes from the contents alone. -/
theorem placelessAll_weaveAll (trees : List Tree) {tokens tokens' : List Token}
    (h : SameContents tokens tokens') :
    placelessAll (bareAll (weaveAll trees tokens).1) =
        placelessAll (bareAll (weaveAll trees tokens').1) ∧
      SameContents (weaveAll trees tokens).2 (weaveAll trees tokens').2 := by
  match trees with
  | [] => exact ⟨rfl, h⟩
  | .leaf token :: trees =>
      obtain ⟨htexts, hrest⟩ := h.next
      have ih := placelessAll_weaveAll trees hrest
      refine ⟨?_, ih.2⟩
      simp only [weaveAll, weave, bareAll_append, bareAll_leadingTrivia, List.nil_append,
        placelessAll_append, placelessAll_map_leaf, htexts, ih.1]
  | .node kind children :: trees =>
      have hinside := placelessAll_weaveAll children h.afterTrivia
      have ih := placelessAll_weaveAll trees hinside.2
      refine ⟨?_, ih.2⟩
      simp only [weaveAll, weave, bareAll_append, bareAll_leadingTrivia, List.nil_append, bareAll,
        isTrivia, Bool.false_eq_true, if_false, bare, placelessAll_append, placelessAll, placeless,
        hinside.1, ih.1]

theorem placeless_weaveRoot (kind : NodeKind) (trees : List Tree) {tokens tokens' : List Token}
    (h : SameContents tokens tokens') :
    (weaveRoot kind trees tokens).bare.placeless =
      (weaveRoot kind trees tokens').bare.placeless := by
  simp only [weaveRoot, bare, placeless, bareAll_append, bareAll_leadingTrivia, List.append_nil,
    (placelessAll_weaveAll trees h).1]

end Tree

/-! ### Numbered tokens -/

namespace Parser

/-- Tokens with the given contents, each at its number in the list. -/
def numberedTokens (contents : List (TokenKind × String)) : List Token :=
  contents.mapIdx fun number content => ⟨content.1, number, content.2⟩

/-- The parser in front of numbered tokens. -/
def numbered (contents : List (TokenKind × String)) : Parser :=
  { rest := numberedTokens contents, textEnd := contents.length }

/-- From numbers to the places of some tokens. -/
def placeAmong (tokens : List Token) (textEnd : Nat) (span : Span) : Nat :=
  tokens[span.start]?.elim textEnd Token.start

theorem relocate_numberedToken {tokens : List Token} {number : Nat} {token : Token}
    (h : tokens[number]? = some token) (textEnd : Nat) :
    (⟨token.content.1, number, token.content.2⟩ : Token).relocate (placeAmong tokens textEnd) =
      token := by
  simp [Token.relocate, Token.content, placeAmong, Token.span, h]

theorem placeAmong_end (tokens : List Token) (textEnd : Nat) :
    placeAmong tokens textEnd (.empty (tokens.map Token.content).length) = textEnd := by
  simp [placeAmong, Span.empty]

/-- Numbered tokens can be moved to where the tokens stand. -/
theorem relocate_numbered (tokens : List Token) (textEnd : Nat) :
    (numbered (tokens.map Token.content)).relocate (placeAmong tokens textEnd) =
      { rest := tokens, textEnd } := by
  have hrest : (numberedTokens (tokens.map Token.content)).map
      (Token.relocate (placeAmong tokens textEnd)) = tokens := by
    apply List.ext_getElem?
    intro number
    rw [numberedTokens, List.getElem?_map, List.getElem?_mapIdx, List.getElem?_map]
    cases htoken : tokens[number]? with
    | none => rfl
    | some token => exact congrArg some (relocate_numberedToken htoken textEnd)
  rw [numbered, relocate]
  dsimp only
  rw [hrest, placeAmong_end, Array.map_empty]

/-- Every error of a file points at one of its tokens or at the end. -/
theorem span_of_mem_errors {p : Parser} (hp : p.errors = #[]) {error : ParseError}
    (herror : error ∈ p.sourceFile.errors.toList) :
    error.span ∈ Span.empty p.textEnd :: p.rest.map Token.span := by
  -- To move only what stands elsewhere leaves the tokens alone, and so it leaves every error alone.
  let place (span : Span) : Nat :=
    if span ∈ Span.empty p.textEnd :: p.rest.map Token.span then span.start else span.start + 1
  have hend : place (.empty p.textEnd) = p.textEnd := if_pos List.mem_cons_self
  have htoken : ∀ token ∈ p.rest, token.relocate place = token := by
    intro token hmem
    have hplace : place token.span = token.start :=
      if_pos (List.mem_cons_of_mem _ (List.mem_map_of_mem hmem))
    rw [Token.relocate, hplace]
  have hsame : p.relocate place = p := by
    rw [relocate, hend, List.map_congr_left htoken, List.map_id', hp, Array.map_empty, ← hp]
  have hfile : p.sourceFile.errors.toList.map (ParseError.relocate place) =
      p.sourceFile.errors.toList.map id := by
    have hmoved := sourceFile_relocate place p
    rw [hsame] at hmoved
    rw [List.map_id, ← Array.toList_map]
    exact congrArg (fun q : Parser => q.errors.toList) hmoved.symm
  have hfixed : place error.span = error.span.start := by
    have herror' := List.map_inj_left.mp hfile error herror
    exact congrArg (fun error : ParseError => error.span.start) herror'
  by_contra hnot
  have hother : place error.span = error.span.start + 1 := if_neg hnot
  omega

end Parser

/-! ### Two texts -/

/-- Two errors point at corresponding tokens of two texts, or both at the end. -/
inductive PointAlike (text text' : String) (error error' : ParseError) : Prop
  | token {number : Nat} {token token' : Token}
      (htoken : (Tree.meaningful (lex text))[number]? = some token)
      (htoken' : (Tree.meaningful (lex text'))[number]? = some token')
      (hspan : error.span = token.span) (hspan' : error'.span = token'.span)
  | atEnd (hspan : error.span = .empty text.utf8ByteSize)
      (hspan' : error'.span = .empty text'.utf8ByteSize)

/-- How the numbered tokens of a text are moved to where the tokens of the text stand. -/
def placeIn (text : String) : Span → Nat :=
  Parser.placeAmong (Tree.meaningful (lex text)) text.utf8ByteSize

variable {text text' : String}

/-- What numbered errors point at comes to the same in both texts. -/
theorem pointAlike_relocate (h : Tree.SameContents (lex text) (lex text')) {error : ParseError}
    (herror : error.span ∈ Span.empty ((Tree.meaningful (lex text)).map Token.content).length ::
      (Parser.numberedTokens ((Tree.meaningful (lex text)).map Token.content)).map Token.span) :
    PointAlike text text' (error.relocate (placeIn text)) (error.relocate (placeIn text')) := by
  rcases List.mem_cons.mp herror with hend | htoken
  · refine .atEnd ?_ ?_
    · rw [ParseError.relocate, hend, Span.relocate_empty, placeIn, Parser.placeAmong_end]
    · rw [ParseError.relocate, hend, h, Span.relocate_empty, placeIn, Parser.placeAmong_end]
  · obtain ⟨numbered, hnumbered, hspan⟩ := List.mem_map.mp htoken
    obtain ⟨number, hnumber⟩ := List.mem_iff_getElem?.mp hnumbered
    rw [Parser.numberedTokens, List.getElem?_mapIdx, Option.map_eq_some_iff] at hnumber
    obtain ⟨content, hcontent, rfl⟩ := hnumber
    have hcontent' := hcontent
    rw [h] at hcontent'
    rw [List.getElem?_map, Option.map_eq_some_iff] at hcontent hcontent'
    obtain ⟨token, htoken, rfl⟩ := hcontent
    obtain ⟨token', htoken', hsame⟩ := hcontent'
    refine .token htoken htoken' ?_ ?_
    · rw [ParseError.relocate, ← hspan, ← Token.span_relocate, placeIn,
        Parser.relocate_numberedToken htoken]
    · rw [ParseError.relocate, ← hspan, ← hsame, ← Token.span_relocate, placeIn,
        Parser.relocate_numberedToken htoken']

/-- A text is read by its numbered contents; the errors are moved afterwards. -/
theorem sourceFile_eq_relocate (text : String) :
    (Parser.ofTokens (lex text) text.utf8ByteSize).sourceFile =
      (Parser.numbered ((Tree.meaningful (lex text)).map Token.content)).sourceFile.relocate
        (placeIn text) := by
  rw [← Parser.sourceFile_relocate, placeIn, Parser.relocate_numbered]
  rfl

theorem parse_errors_eq_map (text : String) :
    (parse text).errors =
      (Parser.numbered ((Tree.meaningful (lex text)).map Token.content)).sourceFile.errors.toList.map
        (ParseError.relocate (placeIn text)) := by
  rw [parse]
  dsimp only
  rw [sourceFile_eq_relocate, Parser.relocate, Array.toList_map]

/-- The same events are woven into both texts. -/
theorem placeless_parse_tree (h : Tree.SameContents (lex text) (lex text')) :
    (parse text).tree.bare.placeless = (parse text').tree.bare.placeless := by
  obtain ⟨trees, hreads⟩ := (Parser.opened (lex text) text.utf8ByteSize).read_advances
  have htree : (parse text).tree = Tree.weaveRoot .sourceFile trees (lex text) := by
    rw [parse_tree_eq]
    exact hreads.build_eq_weaveRoot
  have hevents : (Parser.ofTokens (lex text') text'.utf8ByteSize).sourceFile.events =
      (Parser.ofTokens (lex text) text.utf8ByteSize).sourceFile.events := by
    rw [sourceFile_eq_relocate, sourceFile_eq_relocate, h]
    rfl
  have htree' : (parse text').tree = Tree.weaveRoot .sourceFile trees (lex text') := by
    rw [parse]
    dsimp only
    rw [hevents, Parser.sourceFile_eq]
    exact hreads.build_eq_weaveRoot
  rw [htree, htree', Tree.placeless_weaveRoot .sourceFile trees h]

/-- Whatever blanks and comments stand in a text, it is parsed into the same tree but for them,
with the same messages, and each error points at the same token or at the end. -/
theorem parse_ignores_trivia (h : (Tree.meaningful (lex text)).map Token.content =
      (Tree.meaningful (lex text')).map Token.content) :
    (parse text).tree.bare.placeless = (parse text').tree.bare.placeless ∧
    (parse text).errors.map ParseError.message = (parse text').errors.map ParseError.message ∧
    List.Forall₂ (PointAlike text text') (parse text).errors (parse text').errors := by
  refine ⟨placeless_parse_tree h, ?_, ?_⟩
  · rw [parse_errors_eq_map, parse_errors_eq_map, h, List.map_map, List.map_map]
    rfl
  · rw [parse_errors_eq_map text, parse_errors_eq_map text', ← h, List.forall₂_map_left_iff,
      List.forall₂_map_right_iff, List.forall₂_same]
    intro error herror
    exact pointAlike_relocate h (Parser.span_of_mem_errors rfl herror)

def unclosedCall : String := "f(1"

def unclosedCallWithComments : String := "f /* a call */ (1 // not closed\n"

theorem unclosed_call_ignores_comments :
    (Tree.meaningful (lex unclosedCall)).map Token.content =
        (Tree.meaningful (lex unclosedCallWithComments)).map Token.content ∧
      (parse unclosedCall).errors.map ParseError.message =
        (parse unclosedCallWithComments).errors.map ParseError.message ∧
      (parse unclosedCall).errors ≠ [] := by
  have hcontents : (Tree.meaningful (lex unclosedCall)).map Token.content =
      (Tree.meaningful (lex unclosedCallWithComments)).map Token.content := by
    decide +kernel
  refine ⟨hcontents, (parse_ignores_trivia hcontents).2.1, ?_⟩
  decide +kernel

end Gml
