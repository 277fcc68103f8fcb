import Gml.Proofs.Token.Longest

/-!
# Blanks and comments at the front

Where a token ends depends on what comes behind it, and a longer text could have a longer lexeme.
Still the blanks and comments in front of the first token that means something depend on their own
characters alone: what comes behind them did not make any of them longer.
-/
namespace Gml

namespace Token

/-- The blanks and comments in front of the first token that means something. -/
def leading (tokens : List Token) : List Token := tokens.takeWhile (·.kind.isTrivia)

/-- Tokens off the front of a text, one behind the other and each the longest lexeme there. -/
inductive Takes : Nat → List Char → List Token → Prop
  | stop {offset : Nat} {cs : List Char} : Takes offset cs []
  | step {kind : TokenKind} {offset : Nat} {text : String} {rest : List Char}
      {tokens : List Token} : Longest kind text.toList (text.toList ++ rest) →
      Takes (offset + text.utf8ByteSize) rest tokens →
      Takes offset (text.toList ++ rest) (⟨kind, offset, text⟩ :: tokens)

variable {kind : TokenKind} {offset : Nat} {cs cs' : List Char} {tokens tokens' : List Token}

theorem text_prefix_chars (token : Token) (tokens : List Token) :
    token.text.toList <+: chars (token :: tokens) :=
  List.prefix_append _ _

theorem takes_leading_scan (steps offset : Nat) (cs : List Char) :
    Takes offset cs (leading (scan steps offset cs)) := by
  induction steps generalizing offset cs with
  | zero => exact .stop
  | succ steps ih =>
      cases cs with
      | nil => exact .stop
      | cons c cs =>
          rw [scan, leading, List.takeWhile_cons]
          split
          next htrivia =>
              have hne : (munch c cs).1 ≠ .error := by
                intro herror
                rw [herror] at htrivia
                cases htrivia
              have hsplit : c :: cs =
                  (String.ofList (c :: cs.take (munch c cs).2)).toList ++ cs.drop (munch c cs).2 := by
                rw [String.toList_ofList, List.cons_append, List.take_append_drop]
              have hlongest := munch_longest hne
              rw [hsplit]
              refine .step ?_ (ih _ _)
              rwa [← hsplit, String.toList_ofList]
          next => exact .stop

namespace Takes

theorem front (h : Takes offset cs tokens) : chars tokens <+: cs := by
  induction h with
  | stop => exact List.nil_prefix
  | step _ _ ih => exact (List.prefix_append_right_inj _).mpr ih

theorem eq_nil_of_chars (h : Takes offset cs tokens) (hchars : chars tokens = []) : tokens = [] := by
  cases h with
  | stop => rfl
  | step hlongest =>
      exact absurd (List.append_eq_nil_iff.mp hchars).1 hlongest.lexeme.ne_nil

/-- Tokens with the same characters are the same, whatever comes behind them. -/
theorem unique (h : Takes offset cs tokens) (h' : Takes offset cs' tokens')
    (hchars : chars tokens = chars tokens') : tokens = tokens' := by
  induction h generalizing cs' tokens' with
  | stop => exact (h'.eq_nil_of_chars hchars.symm).symm
  | @step kind offset text rest tokens hlongest hrest ih =>
      have hfront : chars (⟨kind, offset, text⟩ :: tokens) <+: cs' := by
        rw [hchars]
        exact h'.front
      have hfront' : chars tokens' <+: text.toList ++ rest := by
        rw [← hchars]
        exact (step hlongest hrest).front
      cases h' with
      | stop => exact (step hlongest hrest).eq_nil_of_chars hchars
      | step hlongest' hrest' =>
          obtain ⟨htext, rfl⟩ := hlongest.unique hlongest'
            ((text_prefix_chars _ _).trans hfront) ((text_prefix_chars _ _).trans hfront')
          obtain rfl := String.toList_inj.mp htext
          rw [ih hrest' (List.append_cancel_left hchars)]

end Takes

/-- Blanks and comments at the front of two texts are the same tokens if they read the same. -/
theorem leading_lex_eq {text text' : String}
    (h : chars (leading (lex text)) = chars (leading (lex text'))) :
    leading (lex text) = leading (lex text') :=
  (takes_leading_scan _ _ _).unique (takes_leading_scan _ _ _) h

end Token

end Gml
