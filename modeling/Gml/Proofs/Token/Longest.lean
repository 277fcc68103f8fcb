import Gml.Proofs.Text.Pieces
import Gml.Proofs.Token.Lexeme

/-!
# The longest lexeme

At each place of a text the lexer takes the longest lexeme that stands there, and among lexemes of
one length the one of the highest rank. It reports an error where there is no lexeme at all, or
where a comment is not closed.
-/
namespace Gml

namespace Token

/-- Between lexemes of the same text: reserved words come before identifiers, documentation
before other comments. -/
def Outranks (kind other : TokenKind) : Prop :=
  kind.isKeyword = true ∧ other = .ident ∨ kind = .docComment ∧ other = .lineComment

/-- Of all lexemes at the front of a text the longest, and of those of its length the one that
outranks the others. -/
structure Longest (kind : TokenKind) (word text : List Char) : Prop where
  lexeme : Lexeme kind word
  isPrefix : word <+: text
  wins : ∀ other cs, Lexeme other cs → cs <+: text →
    cs.length < word.length ∨ cs = word ∧ (other = kind ∨ Outranks kind other)

/-- No lexeme stands at the front. -/
def Lexless (text : List Char) : Prop := ∀ kind cs, Lexeme kind cs → ¬cs <+: text

/-- A comment begins and is not closed. -/
def Unclosed (text : List Char) : Prop :=
  ∃ body, text = '/' :: '*' :: body ∧ ¬['*', '/'] <:+: body

/-- What is taken at the front of a text, by its kind and the characters behind the first. -/
inductive Munched (c : Char) (cs : List Char) : TokenKind × Nat → Prop
  | longest {kind : TokenKind} {n : Nat} : Longest kind (c :: cs.take n) (c :: cs) →
      Munched c cs (kind, n)
  | lexless (n : Nat) : Lexless (c :: cs) → Munched c cs (.error, n)
  | unclosed (n : Nat) : Unclosed (c :: cs) → Munched c cs (.error, n)

variable {kind : TokenKind} {c : Char} {cs taken : List Char}

/-! ### Comparing lexemes -/

/-- A lexeme wins if no other one at this place is longer and those that are as long give way. -/
theorem Munched.of_form (h : Form kind c taken) (htaken : taken <+: cs)
    (hwins : ∀ other word, Form other c word → word <+: cs →
      word.length ≤ taken.length ∧ (word = taken → other = kind ∨ Outranks kind other)) :
    Munched c cs (kind, taken.length) := by
  refine .longest ?_
  rw [← List.prefix_iff_eq_take.mp htaken]
  refine ⟨h, List.cons_prefix_cons.mpr ⟨rfl, htaken⟩, fun other word hword hfront => ?_⟩
  cases word with
  | nil => exact hword.elim
  | cons d word =>
      obtain ⟨rfl, hword'⟩ := List.cons_prefix_cons.mp hfront
      obtain ⟨hle, hrank⟩ := hwins other word hword hword'
      rcases Nat.lt_or_eq_of_le hle with hlt | heq
      · exact .inl (Nat.succ_lt_succ hlt)
      · have hsame : word = taken :=
          (List.prefix_of_prefix_length_le hword' htaken hle).eq_of_length heq
        exact .inr ⟨by rw [hsame], hrank hsame⟩

theorem Outranks.asymm {kind other : TokenKind} (h : Outranks kind other) : ¬Outranks other kind := by
  rcases h with ⟨hword, rfl⟩ | ⟨rfl, rfl⟩
  · rintro (⟨-, rfl⟩ | ⟨hdoc, -⟩)
    · cases hword
    · cases hdoc
  · rintro (⟨hword, -⟩ | ⟨hdoc, -⟩)
    · cases hword
    · cases hdoc

/-- What comes behind the longest lexeme does not matter where it leaves room for no longer one. -/
theorem Longest.unique {kind other : TokenKind} {word word' text text' : List Char}
    (h : Longest kind word text) (h' : Longest other word' text') (hfront : word <+: text')
    (hfront' : word' <+: text) : word' = word ∧ other = kind := by
  rcases h.wins other word' h'.lexeme hfront' with hlt | ⟨rfl, hrank⟩
  · rcases h'.wins kind word h.lexeme hfront with hlt' | ⟨rfl, -⟩
    · omega
    · exact absurd hlt (Nat.lt_irrefl _)
  · refine ⟨rfl, hrank.resolve_right fun hless => ?_⟩
    rcases h'.wins kind word' h.lexeme hfront with hlt | ⟨-, rfl | hmore⟩
    · exact absurd hlt (Nat.lt_irrefl _)
    · exact hless.asymm hless
    · exact hless.asymm hmore

theorem lexless_of_form (h : ∀ kind word, Form kind c word → ¬word <+: cs) : Lexless (c :: cs) := by
  intro kind word hword hfront
  cases word with
  | nil => exact hword
  | cons d word =>
      obtain ⟨rfl, hword'⟩ := List.cons_prefix_cons.mp hfront
      exact h kind word hword hword'

/-! ### Blanks, words and numbers -/

theorem munched_blank (hc : isSpace c = true) (cs : List Char) :
    Munched c cs (.whitespace, (cs.takeWhile isSpace).length) := by
  have hform : Form .whitespace c (cs.takeWhile isSpace) :=
    .blank hc fun _ hd => List.mem_takeWhile_imp hd
  refine .of_form hform (List.takeWhile_prefix _) fun other word hword hfront => ?_
  obtain ⟨hkind, hspaces⟩ := hword.of_isSpace hc
  exact ⟨length_le_takeWhile hfront hspaces, fun _ => .inl hkind⟩

theorem munched_word (hc : isIdentStart c = true) (cs : List Char) :
    Munched c cs (wordKind (String.ofList (c :: cs.takeWhile isIdentChar)),
      (cs.takeWhile isIdentChar).length) := by
  have hchars : ∀ d ∈ cs.takeWhile isIdentChar, isIdentChar d = true :=
    fun _ hd => List.mem_takeWhile_imp hd
  have hcases := wordKind_cases (String.ofList (c :: cs.takeWhile isIdentChar))
  have hform : Form (wordKind (String.ofList (c :: cs.takeWhile isIdentChar))) c
      (cs.takeWhile isIdentChar) := by
    rcases hcases with hident | hkeyword
    · rw [hident]
      exact .ident hc hchars
    · exact .keyword hkeyword String.toList_ofList
  refine .of_form hform (List.takeWhile_prefix _) fun other word hword hfront => ?_
  obtain ⟨hother, hidents⟩ := hword.of_isIdentStart hc
  refine ⟨length_le_takeWhile hfront hidents, fun hsame => ?_⟩
  rcases hother with rfl | ⟨text, hmem, htext⟩
  · rcases hcases with hident | hkeyword
    · exact .inl hident.symm
    · exact .inr (.inl ⟨isKeyword_of_mem hkeyword, rfl⟩)
  · rw [← hsame, ← htext, String.ofList_toList]
    exact .inl (wordKind_eq hmem).symm

theorem munched_hex {x : Char} {rest : List Char} (hx : x = 'x' ∨ x = 'X')
    (hrest : 0 < countHex rest) : Munched '0' (x :: rest) (number '0' (x :: rest)) := by
  rw [number_of_hexRest hx hrest]
  have hform : Form .hexLiteral '0' (x :: rest.takeWhile isHexDigit) :=
    .hex hx (List.length_pos_iff.mp hrest) fun _ hd => List.mem_takeWhile_imp hd
  have hfront : x :: rest.takeWhile isHexDigit <+: x :: rest :=
    List.cons_prefix_cons.mpr ⟨rfl, List.takeWhile_prefix _⟩
  have hletter : x.isDigit = false ∧ x ≠ '.' := by
    rcases hx with rfl | rfl <;> decide
  refine .of_form hform hfront fun other word hword hshorter => ?_
  rcases hword.of_isDigit rfl with ⟨-, hdigits⟩ | ⟨-, digits, places, hdigits, -, -, rfl⟩ |
    ⟨rfl, -, y, digits, -, -, hdigits, rfl⟩
  · -- A decimal number breaks off before the letter.
    have hnil : word = [] := by
      cases word with
      | nil => rfl
      | cons d word => simp_all [(List.cons_prefix_cons.mp hshorter).1]
    exact ⟨by simp [hnil], fun hsame => by simp [hnil] at hsame⟩
  · cases digits with
    | nil => exact absurd (List.cons_prefix_cons.mp hshorter).1.symm hletter.2
    | cons d digits => simp_all [(List.cons_prefix_cons.mp hshorter).1]
  · obtain ⟨-, hlonger⟩ := List.cons_prefix_cons.mp hshorter
    exact ⟨Nat.succ_le_succ (length_le_takeWhile hlonger hdigits), fun _ => .inl rfl⟩

theorem munched_number (hc : c.isDigit = true) (cs : List Char) :
    Munched c cs (number c cs) := by
  by_cases hhex : c = '0' ∧ HexRest cs
  · obtain ⟨rfl, x, rest, rfl, hx, hpos⟩ := hhex
    exact munched_hex hx hpos
  have hwhole : ∀ d ∈ cs.takeWhile Char.isDigit, d.isDigit = true :=
    fun _ hd => List.mem_takeWhile_imp hd
  -- Each of the three forms of a number is compared with what is taken: digits are as many as
  -- there are, and a point counts only with a digit behind it.
  rcases number_of_not_hexRest hhex with ⟨rest, htail, hpos, hnumber⟩ | ⟨hpoint, hnumber⟩
  · have hform : Form .realLiteral c
        (cs.takeWhile Char.isDigit ++ '.' :: rest.takeWhile Char.isDigit) :=
      .fraction hc hwhole (List.length_pos_iff.mp hpos) fun _ hd => List.mem_takeWhile_imp hd
    have hfront : cs.takeWhile Char.isDigit ++ '.' :: rest.takeWhile Char.isDigit <+: cs := by
      conv => rhs; rw [← List.takeWhile_append_dropWhile (p := Char.isDigit) (l := cs), htail]
      exact (List.prefix_append_right_inj _).mpr
        (List.cons_prefix_cons.mpr ⟨rfl, List.takeWhile_prefix _⟩)
    have hlength : (cs.takeWhile Char.isDigit ++ '.' :: rest.takeWhile Char.isDigit).length =
        countDigits cs + 1 + countDigits rest := by
      simp only [countDigits, List.length_append, List.length_cons]
      omega
    rw [hnumber, ← hlength]
    refine .of_form hform hfront fun other word hword hother => ?_
    rw [hlength]
    rcases hword.of_isDigit hc with ⟨rfl, hdigits⟩ |
      ⟨rfl, digits, places, hdigits, hne, hplaces, rfl⟩ | ⟨-, rfl, x, digits, hx, hne, hdigits, rfl⟩
    · have hle : word.length ≤ countDigits cs := length_le_takeWhile hother hdigits
      exact ⟨by omega, fun _ => .inl rfl⟩
    · obtain ⟨hsame, after, hafter, hle, -⟩ := point_of_fraction hother hdigits hne hplaces
      rw [htail] at hafter
      cases hafter
      rw [countDigits, hsame, List.length_append, List.length_cons]
      exact ⟨by omega, fun _ => .inl rfl⟩
    · exact absurd ⟨rfl, hexRest_of_front hother hx hne hdigits⟩ hhex
  · rw [hnumber]
    refine .of_form (.whole hc hwhole) (List.takeWhile_prefix _) fun other word hword hother => ?_
    rcases hword.of_isDigit hc with ⟨rfl, hdigits⟩ |
      ⟨rfl, digits, places, hdigits, hne, hplaces, rfl⟩ | ⟨-, rfl, x, digits, hx, hne, hdigits, rfl⟩
    · exact ⟨length_le_takeWhile hother hdigits, fun _ => .inl rfl⟩
    · obtain ⟨-, rest, htail, -, hpos⟩ := point_of_fraction hother hdigits hne hplaces
      exact absurd hpos (hpoint rest htail)
    · exact absurd ⟨rfl, hexRest_of_front hother hx hne hdigits⟩ hhex

/-! ### Operators and comments -/

/-- Where only operators fit. -/
theorem munched_operator (hsign : isSign c = true)
    (honly : ∀ other word, SignForm other c word → word <+: cs →
      ∃ text, (text, other) ∈ operators ∧ text.toList = c :: word) :
    Munched c cs (operator c cs) := by
  unfold operator
  split
  next text found h =>
      have hmem := List.mem_of_find?_eq_some h
      have hfront : text.toList <+: c :: cs := by simpa using List.find?_some h
      obtain ⟨taken, htext⟩ : ∃ taken, text.toList = c :: taken := by
        have hne : ∀ entry ∈ operators, entry.1.toList ≠ [] := by decide
        obtain ⟨d, taken, htext⟩ := List.exists_cons_of_ne_nil (hne _ hmem)
        rw [htext] at hfront
        exact ⟨taken, by rw [htext, (List.cons_prefix_cons.mp hfront).1]⟩
      have hlength : text.length - 1 = taken.length := by
        rw [← String.length_toList, htext, List.length_cons, Nat.add_sub_cancel]
      rw [htext] at hfront
      rw [hlength]
      refine .of_form (.sign (.operator hmem htext)) (List.cons_prefix_cons.mp hfront).2
        fun other word hword hother => ?_
      obtain ⟨rival, hrival, hchars⟩ := honly other word (hword.of_isSign hsign) hother
      have hrivalPrefix : rival.toList <+: c :: cs := by
        rw [hchars]
        exact List.cons_prefix_cons.mpr ⟨rfl, hother⟩
      obtain ⟨hle, hsame⟩ := operator_wins h hrival hrivalPrefix
      rw [hchars, htext] at hle
      exact ⟨Nat.le_of_succ_le_succ hle, fun heq =>
        .inl (hsame (String.toList_inj.mp (by rw [hchars, htext, heq])))⟩
  next h =>
      refine .lexless 0 (lexless_of_form fun other word hword hother => ?_)
      obtain ⟨rival, hrival, hchars⟩ := honly other word (hword.of_isSign hsign) hother
      have hno : ¬rival.toList.isPrefixOf (c :: cs) = true := List.find?_eq_none.mp h _ hrival
      rw [hchars, List.isPrefixOf_iff_prefix] at hno
      exact hno (List.cons_prefix_cons.mpr ⟨rfl, hother⟩)

theorem munched_doc (rest : List Char) :
    Munched '/' ('/' :: '/' :: rest) (.docComment, lineRest rest + 2) := by
  have hform : Form .docComment '/' ('/' :: '/' :: rest.takeWhile inLine) :=
    .sign (.docComment fun _ hd => List.mem_takeWhile_imp hd)
  have hfront : '/' :: '/' :: rest.takeWhile inLine <+: '/' :: '/' :: rest :=
    List.cons_prefix_cons.mpr ⟨rfl, List.cons_prefix_cons.mpr ⟨rfl, List.takeWhile_prefix _⟩⟩
  refine .of_form hform hfront fun other word hword hother => ?_
  cases hword.of_isSign rfl with
  | lineComment hline =>
      have hle := length_le_takeWhile (List.cons_prefix_cons.mp hother).2 hline
      exact ⟨Nat.succ_le_succ hle, fun _ => .inr (.inr ⟨rfl, rfl⟩)⟩
  | docComment hline =>
      have hmore := (List.cons_prefix_cons.mp (List.cons_prefix_cons.mp hother).2).2
      have hle := length_le_takeWhile hmore hline
      exact ⟨Nat.succ_le_succ (Nat.succ_le_succ hle), fun _ => .inl rfl⟩
  | blockComment => cases (List.cons_prefix_cons.mp hother).1
  | operator hmem hchars =>
      rcases operator_of_slash hmem hchars with rfl | rfl
      · exact ⟨Nat.zero_le _, fun hsame => by cases hsame⟩
      · cases (List.cons_prefix_cons.mp hother).1

theorem munched_line {rest : List Char} (hno : ∀ more, rest ≠ '/' :: more) :
    Munched '/' ('/' :: rest) (.lineComment, lineRest rest + 1) := by
  have hform : Form .lineComment '/' ('/' :: rest.takeWhile inLine) :=
    .sign (.lineComment fun _ hd => List.mem_takeWhile_imp hd)
  have hfront : '/' :: rest.takeWhile inLine <+: '/' :: rest :=
    List.cons_prefix_cons.mpr ⟨rfl, List.takeWhile_prefix _⟩
  refine .of_form hform hfront fun other word hword hother => ?_
  cases hword.of_isSign rfl with
  | lineComment hline =>
      have hle := length_le_takeWhile (List.cons_prefix_cons.mp hother).2 hline
      exact ⟨Nat.succ_le_succ hle, fun _ => .inl rfl⟩
  | docComment =>
      obtain ⟨more, hmore⟩ := (List.cons_prefix_cons.mp hother).2
      exact absurd hmore.symm (hno _)
  | blockComment => cases (List.cons_prefix_cons.mp hother).1
  | operator hmem hchars =>
      rcases operator_of_slash hmem hchars with rfl | rfl
      · exact ⟨Nat.zero_le _, fun hsame => by cases hsame⟩
      · cases (List.cons_prefix_cons.mp hother).1

theorem munched_block {rest : List Char} {n : Nat} (h : blockRest? rest = some n) :
    Munched '/' ('*' :: rest) (.blockComment, n + 1) := by
  obtain ⟨body, rfl, hfront, hno⟩ := front_of_blockRest? h
  have hlength : body.length + 2 + 1 = ('*' :: (body ++ ['*', '/'])).length := by simp
  rw [hlength]
  refine .of_form (.sign (.blockComment hno)) (List.cons_prefix_cons.mpr ⟨rfl, hfront⟩)
    fun other word hword hother => ?_
  cases hword.of_isSign rfl with
  | lineComment => cases (List.cons_prefix_cons.mp hother).1
  | docComment => cases (List.cons_prefix_cons.mp hother).1
  | blockComment hfirst =>
      have hsame := blockRest?_of_front (List.cons_prefix_cons.mp hother).2 hfirst
      rw [h, Option.some_inj] at hsame
      exact ⟨by simp only [List.length_cons, List.length_append]; omega, fun _ => .inl rfl⟩
  | operator hmem hchars =>
      rcases operator_of_slash hmem hchars with rfl | rfl
      · exact ⟨Nat.zero_le _, fun hsame => by cases hsame⟩
      · cases (List.cons_prefix_cons.mp hother).1

theorem munched_slash (cs : List Char) : Munched '/' cs (slash cs) := by
  unfold slash
  split
  next rest => exact munched_doc rest
  next rest hno => exact munched_line fun more hmore => hno more hmore
  next rest =>
      split
      next n h => exact munched_block h
      next h => exact .unclosed _ ⟨rest, rfl, not_infix_of_blockRest? h⟩
  next hdoc hline hblock =>
      refine munched_operator rfl fun other word hword hother => ?_
      obtain ⟨more, rfl⟩ := hother
      cases hword with
      | lineComment => exact absurd rfl (hline _)
      | docComment => exact absurd rfl (hdoc _)
      | blockComment => exact absurd rfl (hblock _)
      | operator hmem hchars => exact ⟨_, hmem, hchars⟩

/-! ### Other signs -/

theorem munched_directive (cs : List Char) : Munched '#' cs (directive cs) := by
  unfold directive
  split
  next text found h =>
      have hmem := List.mem_of_find?_eq_some h
      obtain ⟨rest, rfl⟩ : text.toList <+: cs := by simpa using List.find?_some h
      rw [← String.length_toList, List.drop_left]
      have hfront : text.toList ++ rest.takeWhile inLine <+: text.toList ++ rest :=
        (List.prefix_append_right_inj _).mpr (List.takeWhile_prefix _)
      have hlength : text.toList.length + lineRest rest =
          (text.toList ++ rest.takeWhile inLine).length := by
        rw [List.length_append]
        rfl
      rw [hlength]
      refine .of_form (.sign (.directive hmem fun _ hd => List.mem_takeWhile_imp hd)) hfront
        fun other word hword hother => ?_
      cases hword.of_isSign rfl with
      | directive hmem' hline =>
          obtain ⟨rfl, rfl⟩ := directive_unique hmem hmem' (List.prefix_append _ _)
            ((List.prefix_append _ _).trans hother)
          have hle := length_le_takeWhile ((List.prefix_append_right_inj _).mp hother) hline
          refine ⟨?_, fun _ => .inl rfl⟩
          rw [List.length_append, List.length_append]
          exact Nat.add_le_add_left hle _
      | operator hmem hchars => simpa using not_operator hmem hchars
  next h =>
      refine .lexless _ (lexless_of_form fun other word hword hother => ?_)
      cases hword.of_isSign rfl with
      | directive hmem hline =>
          have hno := List.find?_eq_none.mp h _ hmem
          exact hno (List.isPrefixOf_iff_prefix.mpr ((List.prefix_append _ _).trans hother))
      | operator hmem hchars => simpa using not_operator hmem hchars

/-- A literal between two signs `c`, where `body` is what can stand between them and `rest` is what
was found behind the first one. -/
theorem munched_literal {body : List Char → Prop} {rest : Nat × Bool}
    (hform : ∀ inner, body inner → Form .stringLiteral c (inner ++ [c]))
    (honly : ∀ other word, Form other c word →
      other = .stringLiteral ∧ ∃ inner, body inner ∧ word = inner ++ [c])
    (hlength : ∀ inner, body inner → inner ++ [c] <+: cs → rest = (inner.length + 1, true))
    (hclosed : rest.2 = true → ∃ inner, body inner ∧ inner ++ [c] <+: cs) :
    Munched c cs (literal rest) := by
  obtain ⟨n, closed⟩ := rest
  cases closed with
  | true =>
      obtain ⟨inner, hinner, hfront⟩ := hclosed rfl
      have hn : n = (inner ++ [c]).length := by
        simpa using (Prod.mk.inj (hlength inner hinner hfront)).1
      rw [literal, hn]
      refine .of_form (hform inner hinner) hfront fun other word hword hother => ?_
      obtain ⟨rfl, rival, hrival, rfl⟩ := honly other word hword
      have hsame := (Prod.mk.inj (hlength rival hrival hother)).1
      rw [← hn, hsame, List.length_append]
      exact ⟨Nat.le_refl _, fun _ => .inl rfl⟩
  | false =>
      refine .lexless n (lexless_of_form fun other word hword hother => ?_)
      obtain ⟨-, rival, hrival, rfl⟩ := honly other word hword
      cases hlength rival hrival hother

theorem munched_quoted (cs : List Char) : Munched '"' cs (literal (quotedRest cs)) := by
  refine munched_literal (fun inner hinner => .sign (.quoted hinner))
    (fun other word hword => ?_) (fun inner hinner => quotedRest_of_front hinner)
    front_of_quotedRest
  cases hword.of_isSign rfl with
  | quoted hinner => exact ⟨rfl, _, hinner, rfl⟩
  | operator hmem hchars => simpa using not_operator hmem hchars

theorem munched_plain (cs : List Char) : Munched '\'' cs (literal (plainRest cs)) := by
  refine munched_literal (fun inner hinner => .sign (.plain hinner))
    (fun other word hword => ?_) (fun inner hinner => plainRest_of_front hinner)
    front_of_plainRest
  cases hword.of_isSign rfl with
  | plain hinner => exact ⟨rfl, _, hinner, rfl⟩
  | operator hmem hchars => simpa using not_operator hmem hchars

theorem munched_dollar (cs : List Char) :
    Munched '$' cs (if countHex cs > 0 then (.hexLiteral, countHex cs) else (.error, 0)) := by
  have hfits : ∀ other word, Form other '$' word → word <+: cs →
      other = .hexLiteral ∧ word ≠ [] ∧ word.length ≤ countHex cs := by
    intro other word hword hother
    cases hword.of_isSign rfl with
    | dollar hne hdigits => exact ⟨rfl, hne, length_le_takeWhile hother hdigits⟩
    | operator hmem hchars => simpa using not_operator hmem hchars
  split
  next hpos =>
      have hform : Form .hexLiteral '$' (cs.takeWhile isHexDigit) :=
        .sign (.dollar (List.length_pos_iff.mp hpos) fun _ hd => List.mem_takeWhile_imp hd)
      refine .of_form hform (List.takeWhile_prefix _) fun other word hword hother => ?_
      obtain ⟨rfl, -, hle⟩ := hfits other word hword hother
      exact ⟨hle, fun _ => .inl rfl⟩
  next hzero =>
      refine .lexless 0 (lexless_of_form fun other word hword hother => ?_)
      obtain ⟨-, hne, hle⟩ := hfits other word hword hother
      have hpos := List.length_pos_iff.mpr hne
      omega

theorem munched_point (cs : List Char) :
    Munched '.' cs (if countDigits cs > 0 then (.realLiteral, countDigits cs) else (.dot, 0)) := by
  split
  next hpos =>
      have hform : Form .realLiteral '.' (cs.takeWhile Char.isDigit) :=
        .sign (.places (List.length_pos_iff.mp hpos) fun _ hd => List.mem_takeWhile_imp hd)
      refine .of_form hform (List.takeWhile_prefix _) fun other word hword hother => ?_
      cases hword.of_isSign rfl with
      | places hne hplaces => exact ⟨length_le_takeWhile hother hplaces, fun _ => .inl rfl⟩
      | operator hmem hchars =>
          obtain ⟨-, rfl⟩ := operator_of_point hmem hchars
          exact ⟨Nat.zero_le _, fun hsame => absurd hsame.symm (List.length_pos_iff.mp hpos)⟩
  next hzero =>
      have hmem : (".", .dot) ∈ operators := by decide
      have hform : Form .dot '.' [] := .sign (.operator hmem rfl)
      refine .of_form hform List.nil_prefix fun other word hword hother => ?_
      cases hword.of_isSign rfl with
      | places hne hplaces =>
          have hpos := List.length_pos_iff.mpr hne
          have hle : word.length ≤ countDigits cs := length_le_takeWhile hother hplaces
          omega
      | operator hmem' hchars =>
          obtain ⟨rfl, rfl⟩ := operator_of_point hmem' hchars
          exact ⟨Nat.le_refl _, fun _ => .inl rfl⟩

/-! ### Tokens -/

/-- What `munch` takes is the longest lexeme, unless there is none or a comment is not closed. -/
theorem munch_munched (c : Char) (cs : List Char) : Munched c cs (munch c cs) := by
  unfold munch
  split
  next hspace => exact munched_blank hspace cs
  next hspace =>
      split
      next hstart => exact munched_word hstart cs
      next hstart =>
          split
          next hdigit => exact munched_number hdigit cs
          next hdigit =>
              split
              next => exact munched_slash cs
              next => exact munched_directive cs
              next => exact munched_quoted cs
              next => exact munched_plain cs
              next => exact munched_dollar cs
              next => exact munched_point cs
              next hslash hhash hquote hplain hdollar hpoint =>
                  refine munched_operator (by simp [isSign, *]) fun other word hword _ => ?_
                  cases hword with
                  | operator hmem hchars => exact ⟨_, hmem, hchars⟩
                  | lineComment | docComment | blockComment => exact absurd rfl hslash
                  | directive => exact absurd rfl hhash
                  | places => exact absurd rfl hpoint
                  | dollar => exact absurd rfl hdollar
                  | quoted => exact absurd rfl hquote
                  | plain => exact absurd rfl hplain

theorem munch_longest (h : (munch c cs).1 ≠ .error) :
    Longest (munch c cs).1 (c :: cs.take (munch c cs).2) (c :: cs) := by
  have hmunched := munch_munched c cs
  generalize munch c cs = found at hmunched h
  cases hmunched with
  | longest hlongest => exact hlongest
  | lexless | unclosed => exact absurd rfl h

/-- Every token of a run was taken at its place. -/
theorem exists_munch_of_mem_scan {steps offset : Nat} {token : Token}
    (h : token ∈ scan steps offset cs) : ∃ before c rest, cs = before ++ c :: rest ∧
      token = ⟨(munch c rest).1, offset + Text.byteLength before,
        String.ofList (c :: rest.take (munch c rest).2)⟩ := by
  induction steps generalizing offset cs with
  | zero => cases h
  | succ steps ih =>
      cases cs with
      | nil => cases h
      | cons c rest =>
          simp only [scan, List.mem_cons] at h
          rcases h with rfl | hmem
          · exact ⟨[], c, rest, rfl, rfl⟩
          · obtain ⟨before, d, more, hsplit, rfl⟩ := ih hmem
            refine ⟨c :: rest.take (munch c rest).2 ++ before, d, more, ?_, ?_⟩
            · rw [List.append_assoc, ← hsplit, List.cons_append, List.take_append_drop]
            · rw [Text.byteLength_append, Text.utf8ByteSize_ofList, Nat.add_assoc]

/-- A token that is no error is the longest lexeme at the front of what is left. -/
theorem longest_of_mem_lex {text : String} {token : Token} (h : token ∈ lex text)
    (hkind : token.kind ≠ .error) :
    ∃ rest, Longest token.kind token.text.toList (token.text.toList ++ rest) := by
  obtain ⟨before, c, rest, -, rfl⟩ := exists_munch_of_mem_scan h
  refine ⟨rest.drop (munch c rest).2, ?_⟩
  rw [String.toList_ofList, List.cons_append, List.take_append_drop]
  exact munch_longest hkind

/-- A token of a text stands where it starts. -/
theorem standsAt_of_mem_lex {text : String} {token : Token} (h : token ∈ lex text) :
    Text.StandsAt token.text.toList token.start text.toList := by
  obtain ⟨before, c, rest, hsplit, rfl⟩ := exists_munch_of_mem_scan h
  refine ⟨before, rest.drop (munch c rest).2, ?_, (Nat.zero_add _).symm⟩
  rw [hsplit, String.toList_ofList, List.cons_append, List.take_append_drop]

end Token

/-- The tokens of a text tile it between boundaries of characters. Each is the longest lexeme where
it stands, or an error where none is or a comment is not closed. -/
theorem lex_longest (text : String) :
    Token.Tiles 0 (lex text) text.utf8ByteSize ∧
    ∀ token ∈ lex text, token.text ≠ "" ∧
      Text.isBoundary text.toList token.start = true ∧
      Text.isBoundary text.toList token.stop = true ∧
      ∃ remaining, Text.dropBytes? token.start text.toList = some remaining ∧
        token.text.toList <+: remaining ∧
        (token.kind ≠ .error → Token.Longest token.kind token.text.toList remaining) ∧
        (token.kind = .blockComment → ∃ body,
          token.text.toList = '/' :: '*' :: (body ++ ['*', '/']) ∧
          ¬['*', '/'] <:+: body ++ ['*']) ∧
        (token.kind = .error → Token.Lexless remaining ∨ Token.Unclosed remaining) := by
  refine ⟨lex_tiles text, fun token hmem => ?_⟩
  obtain ⟨before, c, rest, hsplit, rfl⟩ := Token.exists_munch_of_mem_scan hmem
  have hmunched := Token.munch_munched c rest
  have hstop : text.toList =
      (before ++ c :: rest.take (Token.munch c rest).2) ++ rest.drop (Token.munch c rest).2 := by
    rw [hsplit, List.append_assoc, List.cons_append, List.take_append_drop]
  have hlongest : (Token.munch c rest).1 ≠ .error →
      Token.Longest (Token.munch c rest).1 (c :: rest.take (Token.munch c rest).2) (c :: rest) := by
    intro hne
    generalize Token.munch c rest = found at hmunched hne
    cases hmunched with
    | longest h => exact h
    | lexless => exact absurd rfl hne
    | unclosed => exact absurd rfl hne
  simp only [Nat.zero_add, Token.stop, String.toList_ofList, Text.utf8ByteSize_ofList]
  refine ⟨by simp [String.ofList_cons], ?_, ?_, c :: rest, ?_, ?_, hlongest, ?_, ?_⟩
  · rw [hsplit]
    exact Text.isBoundary_append _ _
  · rw [← Text.byteLength_append, hstop]
    exact Text.isBoundary_append _ _
  · rw [hsplit]
    exact Text.dropBytes?_append _ _
  · exact List.cons_prefix_cons.mpr ⟨rfl, List.take_prefix _ _⟩
  · intro hkind
    have h := (hlongest (by rw [hkind]; decide)).lexeme
    rw [hkind] at h
    exact Token.block_of_lexeme h
  · intro hkind
    generalize Token.munch c rest = found at hmunched hkind
    cases hmunched with
    | longest h =>
        obtain rfl : _ = TokenKind.error := hkind
        exact absurd h.lexeme (Token.not_lexeme_error _)
    | lexless n h => exact .inl h
    | unclosed n h => exact .inr h

end Gml
