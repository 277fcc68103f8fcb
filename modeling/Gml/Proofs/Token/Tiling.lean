import Gml.Token.Lexer
import Mathlib.Data.List.Basic

/-!
# Tokens tile their text

Every step of the lexer takes a piece off the front of what is left, so the tokens
stand behind each other without a gap and their texts joined are the text. No
token has the kind that stands for the end of the input.
-/
namespace Gml

namespace Token

/-- Tokens that follow each other without a gap from one byte offset to another. -/
inductive Tiles : Nat → List Token → Nat → Prop
  | nil (offset : Nat) : Tiles offset [] offset
  | cons {token : Token} {tokens : List Token} {stop : Nat} :
      Tiles token.stop tokens stop → Tiles token.start (token :: tokens) stop

/-- The characters of a list of tokens. -/
def chars (tokens : List Token) : List Char := tokens.flatMap (·.text.toList)

theorem scan_chars (steps offset : Nat) (cs : List Char) (h : cs.length ≤ steps) :
    chars (scan steps offset cs) = cs := by
  induction steps generalizing offset cs with
  | zero =>
      have hcs : cs = [] := List.length_eq_zero_iff.mp (by omega)
      subst hcs
      rfl
  | succ steps ih =>
      cases cs with
      | nil => rfl
      | cons c cs =>
          have hdrop : (cs.drop (munch c cs).2).length ≤ steps := by
            simp only [List.length_drop, List.length_cons] at h ⊢
            omega
          have hrest := ih (offset + (String.ofList (c :: cs.take (munch c cs).2)).utf8ByteSize)
            (cs.drop (munch c cs).2) hdrop
          simp only [chars] at hrest
          simp only [scan, chars, List.flatMap_cons, String.toList_ofList, List.cons_append, hrest,
            List.take_append_drop]

theorem scan_tiles (steps offset : Nat) (cs : List Char) (h : cs.length ≤ steps) :
    Tiles offset (scan steps offset cs) (offset + Text.byteLength cs) := by
  induction steps generalizing offset cs with
  | zero =>
      have hcs : cs = [] := List.length_eq_zero_iff.mp (by omega)
      subst hcs
      exact .nil offset
  | succ steps ih =>
      cases cs with
      | nil => exact .nil offset
      | cons c cs =>
          let token : Token := ⟨(munch c cs).1, offset, String.ofList (c :: cs.take (munch c cs).2)⟩
          have hdrop : (cs.drop (munch c cs).2).length ≤ steps := by
            simp only [List.length_drop, List.length_cons] at h ⊢
            omega
          have hsize : token.text.utf8ByteSize + Text.byteLength (cs.drop (munch c cs).2) =
              Text.byteLength (c :: cs) := by
            rw [Text.utf8ByteSize_ofList, ← Text.byteLength_append, List.cons_append,
              List.take_append_drop]
          have hrest := ih (offset + token.text.utf8ByteSize) _ hdrop
          rw [Nat.add_assoc, hsize] at hrest
          have hcons : Tiles token.start (token :: _) _ := .cons hrest
          exact hcons

/-! ### The end of the input is no token -/

theorem wordKind_ne_eof (word : String) : wordKind word ≠ .eof := by
  unfold wordKind
  cases h : TokenKind.keywords.lookup word with
  | none => simp
  | some kind =>
      have hmem : (word, kind) ∈ TokenKind.keywords := by
        obtain ⟨before, after, hsplit, -⟩ := List.lookup_eq_some_iff.mp h
        simp [hsplit]
      have hall : ∀ entry ∈ TokenKind.keywords, entry.2 ≠ .eof := by decide
      exact hall _ hmem

theorem number_ne_eof (c : Char) (cs : List Char) : (number c cs).1 ≠ .eof := by
  unfold number
  dsimp only
  repeat' split
  all_goals simp

theorem directive_ne_eof (cs : List Char) : (directive cs).1 ≠ .eof := by
  unfold directive
  split
  next word kind h =>
      have hall : ∀ entry ∈ directives, entry.2 ≠ .eof := by decide
      exact hall _ (List.mem_of_find?_eq_some h)
  next => simp

theorem operator_ne_eof (c : Char) (cs : List Char) : (operator c cs).1 ≠ .eof := by
  unfold operator
  split
  next word kind h =>
      have hall : ∀ entry ∈ operators, entry.2 ≠ .eof := by decide
      exact hall _ (List.mem_of_find?_eq_some h)
  next => simp

theorem slash_ne_eof (cs : List Char) : (slash cs).1 ≠ .eof := by
  unfold slash
  repeat' split
  all_goals first | exact operator_ne_eof _ _ | simp

theorem munch_ne_eof (c : Char) (cs : List Char) : (munch c cs).1 ≠ .eof := by
  unfold munch
  dsimp only
  repeat' split
  all_goals first
    | exact wordKind_ne_eof _
    | exact number_ne_eof _ _
    | exact slash_ne_eof _
    | exact directive_ne_eof _
    | exact operator_ne_eof _ _
    | (unfold literal; split <;> simp)
    | simp

theorem scan_ne_eof (steps offset : Nat) (cs : List Char) :
    ∀ token ∈ scan steps offset cs, token.kind ≠ .eof := by
  induction steps generalizing offset cs with
  | zero => simp [scan]
  | succ steps ih =>
      cases cs with
      | nil => simp [scan]
      | cons c cs =>
          intro token hmem
          rcases List.mem_cons.mp hmem with rfl | hmem
          · exact munch_ne_eof c cs
          · exact ih _ _ token hmem

end Token

theorem lex_tiles (text : String) : Token.Tiles 0 (lex text) text.utf8ByteSize := by
  have h := Token.scan_tiles text.length 0 text.toList (Nat.le_of_eq String.length_toList)
  rwa [Nat.zero_add, ← Text.utf8ByteSize_ofList, String.ofList_toList] at h

/-- The texts of the tokens joined are the text. -/
theorem join_lex (text : String) : String.join ((lex text).map Token.text) = text := by
  apply String.toList_inj.mp
  rw [String.toList_join, List.flatMap_map]
  exact Token.scan_chars text.length 0 text.toList (Nat.le_of_eq String.length_toList)

theorem lex_ne_eof (text : String) : ∀ token ∈ lex text, token.kind ≠ .eof :=
  Token.scan_ne_eof text.length 0 text.toList

end Gml
