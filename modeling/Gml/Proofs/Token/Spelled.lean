import Gml.Proofs.Parse.Trivia
import Gml.Proofs.Token.Longest
import Mathlib.Data.List.Find

/-!
# Lexemes with blanks between them

A word, a number or an operator is taken as it stands, whatever comes behind a blank. So a text of
such lexemes with a blank between every two of them is read as these lexemes.
-/
namespace Gml

/-- The text is read as one token of the kind, which means something. -/
structure Token.Spelled (content : TokenKind × String) : Prop where
  lexed : lex content.2 = [⟨content.1, 0, content.2⟩]
  isTrivia : content.1.isTrivia = false

/-- Kinds of words, numbers and operators. -/
def TokenKind.isPlain : TokenKind → Bool
  | .macroLine | .stringLiteral | .error => false
  | kind => !kind.isTrivia

namespace Token

variable {kind : TokenKind} {c : Char} {cs more : List Char}

/-! ### Signs and words of the grammar -/

/-- No operator is read as a shorter one with more behind it. -/
theorem spelled_operator {text : String} (h : (text, kind) ∈ operators) : Spelled (kind, text) := by
  have hlexed : ∀ entry ∈ operators, lex entry.1 = [⟨entry.2, 0, entry.1⟩] := by decide +kernel
  have htrivia : ∀ entry ∈ operators, entry.2.isTrivia = false := by decide
  exact ⟨hlexed (text, kind) h, htrivia (text, kind) h⟩

/-- A reserved word is not read as an identifier. -/
theorem spelled_keyword {text : String} (h : (text, kind) ∈ TokenKind.keywords) :
    Spelled (kind, text) := by
  have hlexed : ∀ entry ∈ TokenKind.keywords, lex entry.1 = [⟨entry.2, 0, entry.1⟩] := by
    decide +kernel
  have htrivia : ∀ entry ∈ TokenKind.keywords, entry.2.isTrivia = false := by decide
  exact ⟨hlexed (text, kind) h, htrivia (text, kind) h⟩

theorem spelled_identifier : Spelled (.ident, "x") := ⟨by decide +kernel, rfl⟩

theorem spelled_semicolon : Spelled (.semicolon, ";") := spelled_operator (by decide)

theorem spelled_colon : Spelled (.colon, ":") := spelled_operator (by decide)

theorem spelled_comma : Spelled (.comma, ",") := spelled_operator (by decide)

theorem spelled_dot : Spelled (.dot, ".") := spelled_operator (by decide)

theorem spelled_question : Spelled (.question, "?") := spelled_operator (by decide)

theorem spelled_assign : Spelled (.assign, "=") := spelled_operator (by decide)

theorem spelled_colonAssign : Spelled (.colonAssign, ":=") := spelled_operator (by decide)

theorem spelled_lParen : Spelled (.lParen, "(") := spelled_operator (by decide)

theorem spelled_rParen : Spelled (.rParen, ")") := spelled_operator (by decide)

theorem spelled_rBracket : Spelled (.rBracket, "]") := spelled_operator (by decide)

theorem spelled_lBrace : Spelled (.lBrace, "\x7b") := spelled_operator (by decide)

theorem spelled_rBrace : Spelled (.rBrace, "\x7d") := spelled_operator (by decide)

theorem spelled_until : Spelled (.kwUntil, "until") := spelled_keyword (by decide)

/-! ### What stands in front of a blank -/

theorem takeWhile_before_blank {p : Char → Bool} (hp : p ' ' = false) (cs more : List Char) :
    (cs ++ ' ' :: more).takeWhile p = cs.takeWhile p := by
  induction cs with
  | nil => simp [hp]
  | cons d cs ih => simp only [List.cons_append, List.takeWhile_cons, ih]

theorem countDigits_before_blank (cs more : List Char) :
    countDigits (cs ++ ' ' :: more) = countDigits cs := by
  rw [countDigits, countDigits, takeWhile_before_blank (by decide)]

theorem countHex_before_blank (cs more : List Char) :
    countHex (cs ++ ' ' :: more) = countHex cs := by
  rw [countHex, countHex, takeWhile_before_blank (by decide)]

theorem hexRest_before_blank (cs more : List Char) : HexRest (cs ++ ' ' :: more) ↔ HexRest cs := by
  cases cs with
  | nil => simp [HexRest]
  | cons d cs => simp [HexRest, countHex_before_blank]

theorem number_before_blank (c : Char) (cs more : List Char) :
    number c (cs ++ ' ' :: more) = number c cs := by
  by_cases hhex : c = '0' ∧ HexRest cs
  · obtain ⟨rfl, x, rest, rfl, hx, hrest⟩ := hhex
    have hrest' : 0 < countHex (rest ++ ' ' :: more) := by rwa [countHex_before_blank]
    rw [List.cons_append, number_of_hexRest hx hrest', number_of_hexRest hx hrest,
      countHex_before_blank]
  · have hhex' : ¬(c = '0' ∧ HexRest (cs ++ ' ' :: more)) := by rwa [hexRest_before_blank]
    have hafter : (cs ++ ' ' :: more).dropWhile Char.isDigit =
        cs.dropWhile Char.isDigit ++ ' ' :: more := by
      rw [← drop_length_takeWhile, ← drop_length_takeWhile, takeWhile_before_blank (by decide),
        List.drop_append_of_le_length (List.takeWhile_prefix _).length_le]
    have hpoint : ∀ rest, cs.dropWhile Char.isDigit ++ ' ' :: more = '.' :: rest → ∃ rest',
        cs.dropWhile Char.isDigit = '.' :: rest' ∧ countDigits rest = countDigits rest' := by
      intro rest hrest
      cases hdrop : cs.dropWhile Char.isDigit with
      | nil => simp [hdrop] at hrest
      | cons d after =>
          rw [hdrop, List.cons_append] at hrest
          obtain ⟨rfl, rfl⟩ := List.cons.inj hrest
          exact ⟨after, rfl, countDigits_before_blank after more⟩
    rcases number_of_not_hexRest hhex with ⟨rest, hdrop, hpos, hnumber⟩ | ⟨hno, hnumber⟩
    · rw [hnumber]
      rcases number_of_not_hexRest hhex' with ⟨rest', hdrop', hpos', hnumber'⟩ | ⟨hno', hnumber'⟩
      · obtain ⟨other, hother, hsame⟩ := hpoint rest' (hafter.symm.trans hdrop')
        rw [hdrop] at hother
        cases hother
        rw [hnumber', hsame, countDigits_before_blank]
      · refine absurd ?_ (hno' (rest ++ ' ' :: more) (by rw [hafter, hdrop]; rfl))
        rwa [countDigits_before_blank]
    · rw [hnumber]
      rcases number_of_not_hexRest hhex' with ⟨rest', hdrop', hpos', hnumber'⟩ | ⟨hno', hnumber'⟩
      · obtain ⟨other, hother, hsame⟩ := hpoint rest' (hafter.symm.trans hdrop')
        exact absurd (hsame ▸ hpos') (hno other hother)
      · rw [hnumber', countDigits_before_blank]

/-- A word without a blank stands in front of a blank or does not reach it. -/
theorem prefix_before_blank {word : List Char} (hword : ' ' ∉ word) (cs more : List Char) :
    word <+: cs ++ ' ' :: more ↔ word <+: cs := by
  constructor
  · intro hfront
    rcases Nat.lt_or_ge cs.length word.length with hlt | hge
    · have hblank : cs ++ [' '] <+: word := by
        refine List.prefix_of_prefix_length_le ⟨more, by simp⟩ hfront ?_
        rw [List.length_append]
        exact hlt
      exact absurd (hblank.subset (by simp)) hword
    · exact List.prefix_of_prefix_length_le hfront (List.prefix_append _ _) hge
  · exact fun hfront => hfront.trans (List.prefix_append _ _)

/-- No operator contains a blank. -/
theorem operator_before_blank (c : Char) (cs more : List Char) :
    operator c (cs ++ ' ' :: more) = operator c cs := by
  have hwords : ∀ entry ∈ operators, ' ' ∉ entry.1.toList := by decide
  have hfind : (operators.find? fun entry => entry.1.toList.isPrefixOf (c :: (cs ++ ' ' :: more))) =
      operators.find? fun entry => entry.1.toList.isPrefixOf (c :: cs) := by
    refine List.find?_congr fun entry hmem => ?_
    rw [Bool.eq_iff_iff, List.isPrefixOf_iff_prefix, List.isPrefixOf_iff_prefix]
    exact prefix_before_blank (hwords entry hmem) (c :: cs) more
  unfold operator
  rw [hfind]

theorem slash_of_ne {d : Char} (hslash : d ≠ '/') (hstar : d ≠ '*') (cs : List Char) :
    slash (d :: cs) = operator '/' (d :: cs) := by
  unfold slash
  split
  next heq => exact absurd (List.cons.inj heq).1 hslash
  next heq => exact absurd (List.cons.inj heq).1 hslash
  next heq => exact absurd (List.cons.inj heq).1 hstar
  next => rfl

/-- Behind a slash that begins no comment. -/
theorem slash_before_blank (hplain : (slash cs).1.isPlain = true) (more : List Char) :
    slash (cs ++ ' ' :: more) = slash cs := by
  cases cs with
  | nil => exact operator_before_blank '/' [] more
  | cons d cs =>
      by_cases hslash : d = '/'
      · subst hslash
        unfold slash at hplain
        split at hplain <;> simp_all [TokenKind.isPlain, TokenKind.isTrivia]
      · by_cases hstar : d = '*'
        · subst hstar
          have hkind : (slash ('*' :: cs)).1.isPlain = false := by
            cases hblock : blockRest? cs <;> simp only [slash, hblock] <;> rfl
          rw [hkind] at hplain
          cases hplain
        · rw [List.cons_append, slash_of_ne hslash hstar, slash_of_ne hslash hstar,
            ← List.cons_append, operator_before_blank]

theorem not_plain_directive (cs : List Char) : (directive cs).1.isPlain = false := by
  have hkinds : ∀ entry ∈ directives, entry.2.isPlain = false := by decide
  unfold directive
  split
  next word kind hfind => exact hkinds _ (List.mem_of_find?_eq_some hfind)
  next => rfl

theorem not_plain_literal (rest : Nat × Bool) : (literal rest).1.isPlain = false := by
  obtain ⟨n, _ | _⟩ := rest <;> rfl

theorem munch_before_blank (hplain : (munch c cs).1.isPlain = true) (more : List Char) :
    munch c (cs ++ ' ' :: more) = munch c cs := by
  unfold munch at hplain ⊢
  split
  next hspace => simp [hspace, TokenKind.isPlain, TokenKind.isTrivia] at hplain
  next hspace =>
      rw [if_neg hspace] at hplain
      split
      next hstart =>
          have htail : (cs ++ ' ' :: more).takeWhile isIdentChar = cs.takeWhile isIdentChar :=
            takeWhile_before_blank (by decide) cs more
          dsimp only
          rw [htail]
      next hstart =>
          rw [if_neg hstart] at hplain
          split
          next hdigit => exact number_before_blank c cs more
          next hdigit =>
              rw [if_neg hdigit] at hplain
              split
              next => exact slash_before_blank hplain more
              next => exact absurd hplain (by simp [not_plain_directive])
              next => exact absurd hplain (by simp [not_plain_literal])
              next => exact absurd hplain (by simp [not_plain_literal])
              next => rw [countHex_before_blank]
              next => rw [countDigits_before_blank]
              next => exact operator_before_blank c cs more

theorem blank_not_mem {p : Char → Bool} (hp : p ' ' = false) (h : ∀ d ∈ cs, p d = true) :
    ' ' ∉ cs := by
  intro hmem
  rw [h _ hmem] at hp
  cases hp

theorem SignForm.blank_not_mem (h : SignForm kind c cs) (hplain : kind.isPlain = true) :
    ' ' ∉ c :: cs := by
  have hoperators : ∀ entry ∈ operators, ' ' ∉ entry.1.toList := by decide
  have hdirectives : ∀ entry ∈ directives, entry.2.isPlain = false := by decide
  cases h with
  | directive hmem => simp [hdirectives _ hmem] at hplain
  | places _ hplaces => simpa using Token.blank_not_mem (by decide) hplaces
  | dollar _ hdigits => simpa using Token.blank_not_mem (by decide) hdigits
  | operator hmem hchars =>
      rw [← hchars]
      exact hoperators _ hmem
  | _ => cases hplain

/-- No word, number or operator contains a blank. -/
theorem Form.blank_not_mem (h : Form kind c cs) (hplain : kind.isPlain = true) :
    ' ' ∉ c :: cs := by
  have hkeywords : ∀ entry ∈ TokenKind.keywords, ' ' ∉ entry.1.toList := by decide
  have hfront : ∀ {p : Char → Bool}, p ' ' = false → p c = true → ' ' ≠ c := by
    rintro p hp hc rfl
    rw [hc] at hp
    cases hp
  cases h with
  | blank => cases hplain
  | whole hc hdigits =>
      exact List.not_mem_cons_of_ne_of_not_mem (hfront (by decide) hc)
        (Token.blank_not_mem (by decide) hdigits)
  | fraction hc hdigits _ hplaces =>
      have hdigits' := Token.blank_not_mem (by decide) hdigits
      have hplaces' := Token.blank_not_mem (by decide) hplaces
      exact List.not_mem_cons_of_ne_of_not_mem (hfront (by decide) hc)
        (by simp [hdigits', hplaces'])
  | hex hx _ hdigits =>
      have hdigits' := Token.blank_not_mem (by decide) hdigits
      rcases hx with rfl | rfl <;> simpa using hdigits'
  | ident hc hcs =>
      exact List.not_mem_cons_of_ne_of_not_mem (hfront (by decide) hc)
        (Token.blank_not_mem (by decide) hcs)
  | keyword hmem hchars =>
      rw [← hchars]
      exact hkeywords _ hmem
  | sign hsign => exact hsign.blank_not_mem hplain

/-- The lexeme is taken as it stands at the end and in front of a blank. -/
theorem Spelled.munched {text : String} (h : Spelled (kind, text)) (hplain : kind.isPlain = true) :
    ∃ c cs, text.toList = c :: cs ∧ isSpace c = false ∧ munch c cs = (kind, cs.length) ∧
      ∀ more, munch c (cs ++ ' ' :: more) = (kind, cs.length) := by
  have hlexed := h.lexed
  unfold lex at hlexed
  dsimp only at hlexed
  generalize text.length = steps at hlexed
  cases steps with
  | zero => cases hlexed
  | succ steps =>
      cases hchars : text.toList with
      | nil =>
          rw [hchars] at hlexed
          cases hlexed
      | cons c cs =>
          rw [hchars, scan] at hlexed
          dsimp only at hlexed
          obtain ⟨htoken, -⟩ := List.cons.inj hlexed
          obtain ⟨hkind, -, htext⟩ := Token.mk.inj htoken
          have hle : cs.length ≤ (munch c cs).2 := by
            rw [← String.toList_inj, String.toList_ofList, hchars] at htext
            rw [← List.take_eq_self_iff]
            exact (List.cons.inj htext).2
          have hsame : ∀ more, munch c (cs ++ ' ' :: more) = munch c cs :=
            munch_before_blank (by rwa [hkind])
          -- With a blank behind it, a longer token would have the blank in it.
          have hlength : (munch c cs).2 = cs.length := by
            have htaken := munch_munched c (cs ++ [' '])
            rw [hsame, show munch c cs = (kind, (munch c cs).2) from Prod.ext hkind rfl] at htaken
            generalize (munch c cs).2 = n at hle htaken
            cases htaken with
            | longest hlongest =>
                have hform : Form kind c ((cs ++ [' ']).take n) := hlongest.lexeme
                rcases Nat.lt_or_eq_of_le hle with hlt | rfl
                · have hall : (cs ++ [' ']).take n = cs ++ [' '] := by
                    refine List.take_of_length_le ?_
                    rw [List.length_append]
                    exact hlt
                  rw [hall] at hform
                  exact absurd (by simp) (hform.blank_not_mem hplain)
                · rfl
            | lexless => cases hplain
            | unclosed => cases hplain
          have hmunch : munch c cs = (kind, cs.length) := Prod.ext hkind hlength
          refine ⟨c, cs, rfl, ?_, hmunch, fun more => (hsame more).trans hmunch⟩
          by_contra hspace
          rw [Bool.not_eq_false] at hspace
          unfold munch at hkind
          rw [if_pos hspace] at hkind
          rw [← hkind] at hplain
          cases hplain

/-! ### Texts of lexemes -/

/-- Texts with a blank between every two of them. -/
def spaced (texts : List String) : String := " ".intercalate texts

theorem toList_spaced_cons (text other : String) (texts : List String) :
    (spaced (text :: other :: texts)).toList =
      text.toList ++ ' ' :: (spaced (other :: texts)).toList := by
  rw [spaced, String.intercalate_cons_cons, String.toList_append, String.toList_append,
    List.append_assoc]
  rfl

theorem toList_spaced_of_head {text : String} (h : text.toList = c :: cs) (texts : List String) :
    ∃ rest, (spaced (text :: texts)).toList = c :: rest := by
  cases texts with
  | nil => exact ⟨cs, by rw [spaced, String.intercalate_singleton, h]⟩
  | cons other texts => exact ⟨_, by rw [toList_spaced_cons, h]; rfl⟩

theorem munch_blank (hspace : isSpace c = false) (cs : List Char) :
    munch ' ' (c :: cs) = (.whitespace, 0) := by
  unfold munch
  rw [if_pos (by decide), List.takeWhile_cons_of_neg (by simp [hspace])]
  rfl

/-- The tokens of a text of lexemes from an offset on. -/
theorem scan_spaced {contents : List (TokenKind × String)}
    (hspelled : ∀ content ∈ contents, Spelled content)
    (hplain : ∀ content ∈ contents, content.1.isPlain = true) (steps offset : Nat)
    (hsteps : (spaced (contents.map Prod.snd)).toList.length ≤ steps) :
    (Tree.meaningful (scan steps offset (spaced (contents.map Prod.snd)).toList)).map content =
      contents := by
  induction contents generalizing steps offset with
  | nil => cases steps <;> rfl
  | cons first contents ih =>
      obtain ⟨kind, text⟩ := first
      obtain ⟨c, cs, hchars, -, hmunch, hblank⟩ :=
        (hspelled _ List.mem_cons_self).munched (hplain _ List.mem_cons_self)
      have htext : String.ofList (c :: cs) = text := by rw [← hchars, String.ofList_toList]
      have htrivia : kind.isTrivia = false := (hspelled _ List.mem_cons_self).isTrivia
      cases contents with
      | nil =>
          have hwhole : (spaced [text]).toList = c :: cs := by
            rw [spaced, String.intercalate_singleton, hchars]
          rw [List.map_cons, List.map_nil, hwhole] at hsteps ⊢
          cases steps with
          | zero => cases hsteps
          | succ steps =>
              rw [scan]
              dsimp only
              rw [hmunch, List.take_length, List.drop_length, htext]
              cases steps <;> simp [scan, Tree.meaningful, htrivia, content]
      | cons second contents =>
          obtain ⟨d, ds, hnext, hspace, -⟩ :=
            (hspelled second (by simp)).munched (hplain second (by simp))
          obtain ⟨rest, hrest⟩ := toList_spaced_of_head hnext (contents.map Prod.snd)
          rw [List.map_cons, List.map_cons, toList_spaced_cons, hchars] at hsteps ⊢
          rw [List.map_cons] at ih
          have hroom : (spaced (second.2 :: contents.map Prod.snd)).toList.length + 2 ≤ steps := by
            simp only [List.length_append, List.length_cons] at hsteps
            omega
          -- One step takes the lexeme, one the blank behind it.
          obtain ⟨steps, rfl⟩ := Nat.exists_eq_add_of_le' (Nat.le_of_add_left_le hroom)
          rw [List.cons_append, scan]
          dsimp only
          rw [hblank, List.take_left, List.drop_left, htext, hrest, scan]
          dsimp only
          rw [munch_blank hspace, List.drop_zero, ← hrest]
          generalize offset + text.utf8ByteSize + _ = behind
          have hothers := ih
            (fun content hcontent => hspelled content (List.mem_cons_of_mem _ hcontent))
            (fun content hcontent => hplain content (List.mem_cons_of_mem _ hcontent)) steps behind
            (by omega)
          rw [Tree.meaningful, List.filter_cons_of_pos (by simp [htrivia]),
            List.filter_cons_of_neg (by simp [TokenKind.isTrivia]), List.map_cons, content]
          exact congrArg _ hothers

/-- A text of lexemes with a blank between every two of them is read as these lexemes. -/
theorem lex_spaced {contents : List (TokenKind × String)}
    (hspelled : ∀ content ∈ contents, Spelled content)
    (hplain : ∀ content ∈ contents, content.1.isPlain = true) :
    (Tree.meaningful (lex (spaced (contents.map Prod.snd)))).map content = contents :=
  scan_spaced hspelled hplain _ _ (Nat.le_of_eq String.length_toList)

end Token

end Gml
