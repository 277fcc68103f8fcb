import Gml.Json.Print
import Gml.Json.Read
import Mathlib.Data.List.Basic

/-!
# How values are written

A value can be written in many ways, with blanks between its parts or without, and so can
the characters of a string and the digits of a number. What is written between two texts is
said by a relation of three: a text, the value at its front, and what follows. The reader
finds the value in whatever way it is written.
-/
namespace Gml.Json

/-! ### Blanks -/

/-- Some blanks, and what follows them. -/
inductive Gap : List Char → List Char → Prop
  | refl (cs : List Char) : Gap cs cs
  | space {c : Char} {cs rest : List Char} (hc : isSpace c = true) (h : Gap cs rest) :
      Gap (c :: cs) rest

namespace Gap

variable {cs rest : List Char}

theorem skipSpace_eq (h : Gap cs rest) : skipSpace cs = skipSpace rest := by
  induction h with
  | refl => rfl
  | space hc _ ih => rw [skipSpace, List.dropWhile_cons_of_pos hc, ← ih, skipSpace]

theorem length_le (h : Gap cs rest) : rest.length ≤ cs.length := by
  induction h with
  | refl => exact Nat.le_refl _
  | space _ _ ih => exact Nat.le_succ_of_le ih

theorem head (h : Gap cs rest) : (∃ c tail, cs = c :: tail ∧ isSpace c = true) ∨ cs = rest := by
  cases h with
  | refl => exact .inr rfl
  | space hc _ => exact .inl ⟨_, _, rfl, hc⟩

end Gap

theorem skipSpace_cons {c : Char} (hc : isSpace c = false) (cs : List Char) :
    skipSpace (c :: cs) = c :: cs :=
  List.dropWhile_cons_of_neg (by rw [hc]; exact Bool.false_ne_true)

theorem isSpace_eq_false {c : Char} (h : c.isDigit = true) : isSpace c = false := by
  rw [Bool.eq_false_iff]
  intro hspace
  simp only [isSpace, Bool.or_eq_true, beq_iff_eq] at hspace
  rcases hspace with ((rfl | rfl) | rfl) | rfl <;> exact absurd h (by decide)

/-! ### The ways to write a value -/

/-- A part of a string literal and the piece of the string that it gives. -/
inductive LiteralPart : List Char → Piece → Prop
  | char {c : Char} (hcontrol : 0x20 ≤ c.toNat) (hquote : c ≠ '"') (hslash : c ≠ '\\') :
      LiteralPart [c] (.char c)
  | escape {e c : Char} (h : simpleEscape? e = some c) : LiteralPart ['\\', e] (.char c)
  | unit {a b c d : Char} {n : Nat} (h : hexUnit? a b c d = some n) :
      LiteralPart ['\\', 'u', a, b, c, d] (.unit n)

inductive LiteralParts : List Char → List Piece → Prop
  | nil : LiteralParts [] []
  | cons {part cs : List Char} {piece : Piece} {pieces : List Piece} (hpart : LiteralPart part piece)
      (hparts : LiteralParts cs pieces) : LiteralParts (part ++ cs) (piece :: pieces)

/-- What stands between the quotes of a string. -/
def Literal (cs : List Char) (s : Option String) : Prop :=
  ∃ pieces, LiteralParts cs pieces ∧ (joinPieces pieces []).map String.ofList = s

/-- At least one digit. -/
structure Digits (cs : List Char) : Prop where
  ne_nil : cs ≠ []
  digits : ∀ c ∈ cs, c.isDigit = true

/-- Some digits of which the first is zero only if it is the last. -/
inductive Whole : List Char → Prop
  | zero : Whole ['0']
  | digits {cs : List Char} (h : Digits cs) (hzero : cs.head? ≠ some '0') : Whole cs

inductive Fraction : List Char → Prop
  | none : Fraction []
  | point {cs : List Char} (h : Digits cs) : Fraction ('.' :: cs)

inductive Exponent : List Char → Prop
  | none : Exponent []
  | unsigned {e : Char} {cs : List Char} (he : e = 'e' ∨ e = 'E') (h : Digits cs) :
      Exponent (e :: cs)
  | signed {e sign : Char} {cs : List Char} (he : e = 'e' ∨ e = 'E')
      (hsign : sign = '+' ∨ sign = '-') (h : Digits cs) : Exponent (e :: sign :: cs)

/-- The number that is written by a sign, digits, a fraction and an exponent. -/
def numberOf (sign whole fraction exponent : List Char) : Json :=
  match sign, fraction, exponent with
  | [], [], [] => .natural (Numeral.decimal whole)
  | _, _, _ => .number (String.ofList (sign ++ whole ++ fraction ++ exponent))

inductive Number : List Char → Json → Prop
  | parts {sign whole fraction exponent : List Char} (hsign : sign = [] ∨ sign = ['-'])
      (hwhole : Whole whole) (hfraction : Fraction fraction) (hexponent : Exponent exponent) :
      Number (sign ++ whole ++ fraction ++ exponent) (numberOf sign whole fraction exponent)

mutual

/-- A text, the value that it starts with and what follows. -/
inductive Writes : List Char → Json → List Char → Prop
  | null {rest : List Char} : Writes ('n' :: 'u' :: 'l' :: 'l' :: rest) .null rest
  | ofTrue {rest : List Char} : Writes ('t' :: 'r' :: 'u' :: 'e' :: rest) (.bool true) rest
  | ofFalse {rest : List Char} : Writes ('f' :: 'a' :: 'l' :: 's' :: 'e' :: rest) (.bool false) rest
  | number {cs rest : List Char} {value : Json} (h : Number cs value) : Writes (cs ++ rest) value rest
  | str {cs rest : List Char} {s : Option String} (h : Literal cs s) :
      Writes ('"' :: (cs ++ '"' :: rest)) (.str s) rest
  | emptyArr {cs rest : List Char} (hgap : Gap cs (']' :: rest)) : Writes ('[' :: cs) (.arr []) rest
  | arr {cs inner rest : List Char} {items : List Json} (hgap : Gap cs inner)
      (hitems : WritesItems inner items rest) : Writes ('[' :: cs) (.arr items) rest
  | emptyObj {cs rest : List Char} (hgap : Gap cs ('\x7d' :: rest)) :
      Writes ('\x7b' :: cs) (.obj []) rest
  | obj {cs inner rest : List Char} {members : List (Option String × Json)} (hgap : Gap cs inner)
      (hmembers : WritesMembers inner members rest) : Writes ('\x7b' :: cs) (.obj members) rest

/-- At least one item, and the closing bracket. -/
inductive WritesItems : List Char → List Json → List Char → Prop
  | last {cs after rest : List Char} {item : Json} (hitem : Writes cs item after)
      (hgap : Gap after (']' :: rest)) : WritesItems cs [item] rest
  | more {cs after next inner rest : List Char} {item : Json} {items : List Json}
      (hitem : Writes cs item after) (hgap : Gap after (',' :: next)) (hnext : Gap next inner)
      (hitems : WritesItems inner items rest) : WritesItems cs (item :: items) rest

/-- At least one member, and the closing brace. -/
inductive WritesMembers : List Char → List (Option String × Json) → List Char → Prop
  | last {literal cs before inner after rest : List Char} {name : Option String} {value : Json}
      (hliteral : Literal literal name) (hname : Gap cs (':' :: before)) (hbefore : Gap before inner)
      (hvalue : Writes inner value after) (hgap : Gap after ('\x7d' :: rest)) :
      WritesMembers ('"' :: (literal ++ '"' :: cs)) [(name, value)] rest
  | more {literal cs before inner after next other rest : List Char} {name : Option String}
      {value : Json} {members : List (Option String × Json)} (hliteral : Literal literal name)
      (hname : Gap cs (':' :: before)) (hbefore : Gap before inner)
      (hvalue : Writes inner value after) (hgap : Gap after (',' :: next)) (hnext : Gap next other)
      (hmembers : WritesMembers other members rest) :
      WritesMembers ('"' :: (literal ++ '"' :: cs)) ((name, value) :: members) rest

end

/-! ### Strings -/

theorem readPieces_part {part : List Char} {piece : Piece} (h : LiteralPart part piece)
    (rest : List Char) (done : List Piece) :
    readPieces (part ++ rest) done = readPieces rest (piece :: done) := by
  cases h with
  | @char c hcontrol hquote hslash =>
      have hplain : ¬(c == '\\' || decide (c.toNat < 0x20)) = true := by
        simpa using ⟨hslash, hcontrol⟩
      rw [List.singleton_append, readPieces.eq_def]
      split
      next heq => exact absurd (List.cons.inj heq).1 hquote
      next heq => exact absurd (List.cons.inj heq).1 hslash
      next heq => exact absurd (List.cons.inj heq).1 hslash
      next heq =>
          rw [← (List.cons.inj heq).1, ← (List.cons.inj heq).2]
          exact if_neg hplain
      next heq => cases heq
  | @escape e c h =>
      have hunit : e ≠ 'u' := by
        rintro rfl
        cases h
      rw [List.cons_append, List.singleton_append, readPieces]
      · rw [h]
      · rintro a b c d rest' rfl
        exact absurd rfl hunit
  | unit h => simp [readPieces, h]

theorem readPieces_parts {cs : List Char} {pieces : List Piece} (h : LiteralParts cs pieces)
    (rest : List Char) (done : List Piece) :
    readPieces (cs ++ '"' :: rest) done = some (done.reverse ++ pieces, rest) := by
  induction h generalizing done with
  | nil => simp [readPieces]
  | cons hpart _ ih =>
      rw [List.append_assoc, readPieces_part hpart, ih]
      simp

theorem readString_literal {cs : List Char} {s : Option String} (h : Literal cs s)
    (rest : List Char) : readString (cs ++ '"' :: rest) = some (s, rest) := by
  obtain ⟨pieces, hparts, rfl⟩ := h
  rw [readString, readPieces_parts hparts]
  rfl

/-- What a character in a string is written as, and what the reader makes of this. -/
def pieceOf (c : Char) : Piece :=
  if (escapeChar c).length = 6 then .unit c.toNat else .char c

theorem hexUnit?_hexDigit {n : Nat} (h : n < 0x20) :
    hexUnit? '0' '0' (hexDigit (n / 16)) (hexDigit (n % 16)) = some n := by
  have hall : ∀ n < 0x20, hexUnit? '0' '0' (hexDigit (n / 16)) (hexDigit (n % 16)) = some n := by
    decide
  exact hall n h

theorem literalPart_escapeChar (c : Char) : LiteralPart (escapeChar c) (pieceOf c) := by
  by_cases hquote : c = '"'
  · subst c; exact .escape rfl
  by_cases hslash : c = '\\'
  · subst c; exact .escape rfl
  by_cases hline : c = '\n'
  · subst c; exact .escape rfl
  by_cases hreturn : c = '\r'
  · subst c; exact .escape rfl
  by_cases htab : c = '\t'
  · subst c; exact .escape rfl
  by_cases hback : c = '\x08'
  · subst c; exact .escape rfl
  by_cases hfeed : c = '\x0c'
  · subst c; exact .escape rfl
  by_cases hcontrol : c.toNat < 0x20
  · have hescape : escapeChar c =
        ['\\', 'u', '0', '0', hexDigit (c.toNat / 16), hexDigit (c.toNat % 16)] := by
      simp [escapeChar, *]
    rw [pieceOf, hescape]
    exact .unit (hexUnit?_hexDigit hcontrol)
  · have hescape : escapeChar c = [c] := by simp [escapeChar, *]
    rw [pieceOf, hescape]
    exact .char (Nat.not_lt.mp hcontrol) hquote hslash

theorem literalParts_escaped (cs : List Char) :
    LiteralParts (cs.flatMap escapeChar) (cs.map pieceOf) := by
  induction cs with
  | nil => exact .nil
  | cons c cs ih =>
      rw [List.flatMap_cons]
      exact .cons (literalPart_escapeChar c) ih

/-- Only a control character is written as a unit, and it is no surrogate. -/
theorem pieceOf_eq (c : Char) :
    pieceOf c = .char c ∨ pieceOf c = .unit c.toNat ∧ c.toNat < 0x20 := by
  rw [pieceOf]
  split
  next hlength =>
      refine .inr ⟨rfl, ?_⟩
      by_contra hplain
      unfold escapeChar at hlength
      split_ifs at hlength <;> first | contradiction | cases hlength
  next => exact .inl rfl

theorem joinPieces_unit {n : Nat} (h : n < 0x20) (pieces : List Piece) (done : List Char) :
    joinPieces (.unit n :: pieces) done = joinPieces pieces (Char.ofNat n :: done) := by
  have hhigh : isHighSurrogate n = false := by simp [isHighSurrogate]; omega
  have hlow : isLowSurrogate n = false := by simp [isLowSurrogate]; omega
  cases pieces with
  | nil => simp [joinPieces, hhigh, hlow]
  | cons piece pieces => cases piece <;> simp [joinPieces, hhigh, hlow]

theorem joinPieces_map_pieceOf (cs done : List Char) :
    joinPieces (cs.map pieceOf) done = some (done.reverse ++ cs) := by
  induction cs generalizing done with
  | nil => simp [joinPieces]
  | cons c cs ih =>
      rw [List.map_cons]
      rcases pieceOf_eq c with hchar | ⟨hunit, hcontrol⟩
      · rw [hchar, joinPieces, ih]
        simp
      · rw [hunit, joinPieces_unit hcontrol, ih, Char.ofNat_toNat]
        simp

/-- A text can be written with escapes where there has to be one. -/
theorem literal_escaped (s : String) : Literal (s.toList.flatMap escapeChar) (some s) := by
  refine ⟨_, literalParts_escaped s.toList, ?_⟩
  rw [joinPieces_map_pieceOf, Option.map_some, List.reverse_nil, List.nil_append,
    String.ofList_toList]

theorem Writes.text (s : String) {rest : List Char} :
    Writes ('"' :: (s.toList.flatMap escapeChar ++ '"' :: rest)) (.text s) rest :=
  .str (literal_escaped s)

/-! ### Numbers -/

/-- A text that no digits go on with. -/
def DigitFree (rest : List Char) : Prop := ∀ c tail, rest = c :: tail → c.isDigit = false

/-- A text that no number goes on with. -/
def Stops (rest : List Char) : Prop :=
  ∀ c tail, rest = c :: tail → c.isDigit = false ∧ c ≠ '.' ∧ c ≠ 'e' ∧ c ≠ 'E'

theorem Stops.digitFree {rest : List Char} (h : Stops rest) : DigitFree rest :=
  fun c tail hrest => (h c tail hrest).1

theorem digitFree_cons {c : Char} (h : c.isDigit = false) (rest : List Char) :
    DigitFree (c :: rest) := by
  intro first tail hcs
  rw [← (List.cons.inj hcs).1, h]

theorem isDigit_of_exponent {e : Char} (he : e = 'e' ∨ e = 'E') : e.isDigit = false := by
  rcases he with rfl | rfl <;> decide

theorem Digits.read {cs rest : List Char} (h : Digits cs) (hrest : DigitFree rest) :
    readDigits? (cs ++ rest) = some (cs, rest) := by
  have hnone : rest.takeWhile Char.isDigit = [] ∧ rest.dropWhile Char.isDigit = rest := by
    cases rest with
    | nil => exact ⟨rfl, rfl⟩
    | cons c tail => simp [hrest c tail rfl]
  rw [readDigits?, List.takeWhile_append_of_pos h.digits, List.dropWhile_append_of_pos h.digits,
    hnone.1, hnone.2, List.append_nil]
  obtain ⟨c, tail, rfl⟩ := List.exists_cons_of_ne_nil h.ne_nil
  rfl

namespace Whole

variable {cs rest : List Char}

theorem head (h : Whole cs) : ∃ c tail, cs = c :: tail ∧ c.isDigit = true := by
  cases h with
  | zero => exact ⟨'0', [], rfl, rfl⟩
  | digits h _ =>
      obtain ⟨c, tail, rfl⟩ := List.exists_cons_of_ne_nil h.ne_nil
      exact ⟨c, tail, rfl, h.digits c List.mem_cons_self⟩

theorem read (h : Whole cs) (hrest : DigitFree rest) :
    readWhole? (cs ++ rest) = some (cs, rest) := by
  cases h with
  | zero => rfl
  | digits h hzero =>
      rw [readWhole?.eq_def]
      split
      next after hafter =>
          obtain ⟨c, tail, rfl⟩ := List.exists_cons_of_ne_nil h.ne_nil
          rw [List.cons_append, List.cons.injEq] at hafter
          exact absurd (congrArg some hafter.1) hzero
      next => exact h.read hrest

end Whole

namespace Fraction

variable {cs rest : List Char}

theorem digitFree (h : Fraction cs) (hrest : DigitFree rest) : DigitFree (cs ++ rest) := by
  cases h with
  | none => exact hrest
  | point => exact digitFree_cons (by decide) _

theorem read (h : Fraction cs) (hrest : DigitFree rest) (hpoint : ∀ tail, rest ≠ '.' :: tail) :
    readFraction? (cs ++ rest) = some (cs, rest) := by
  cases h with
  | none =>
      rw [List.nil_append, readFraction?.eq_def]
      split
      next tail => exact absurd rfl (hpoint tail)
      next => rfl
  | point h =>
      rw [List.cons_append, readFraction?, h.read hrest]
      rfl

end Fraction

namespace Exponent

variable {cs rest : List Char}

theorem digitFree (h : Exponent cs) (hrest : DigitFree rest) : DigitFree (cs ++ rest) := by
  cases h with
  | none => exact hrest
  | unsigned he _ => exact digitFree_cons (isDigit_of_exponent he) _
  | signed he _ _ => exact digitFree_cons (isDigit_of_exponent he) _

theorem ne_point (h : Exponent cs) (hrest : Stops rest) (tail : List Char) :
    cs ++ rest ≠ '.' :: tail := by
  intro heq
  cases h with
  | none => exact (hrest '.' tail heq).2.1 rfl
  | unsigned he _ => rcases he with rfl | rfl <;> exact absurd (List.cons.inj heq).1 (by decide)
  | signed he _ _ => rcases he with rfl | rfl <;> exact absurd (List.cons.inj heq).1 (by decide)

theorem read (h : Exponent cs) (hrest : Stops rest) :
    readExponent? (cs ++ rest) = some (cs, rest) := by
  cases h with
  | none =>
      cases rest with
      | nil => rfl
      | cons c tail =>
          obtain ⟨-, -, hsmall, hlarge⟩ := hrest c tail rfl
          simp [readExponent?, hsmall, hlarge]
  | @unsigned e digits he h =>
      have hmark : (e == 'e' || e == 'E') = true := by simpa using he
      have hsign : ∀ sign : Char, sign.isDigit = false → ∀ after, digits ++ rest ≠ sign :: after := by
        obtain ⟨c, tail, rfl⟩ := List.exists_cons_of_ne_nil h.ne_nil
        intro sign hsign after hafter
        have hdigit := h.digits c List.mem_cons_self
        rw [(List.cons.inj hafter).1, hsign] at hdigit
        cases hdigit
      rw [List.cons_append, readExponent?, if_pos hmark, h.read hrest.digitFree]
      · rfl
      · exact hsign '+' (by decide)
      · exact hsign '-' (by decide)
  | @signed e sign digits he hsign h =>
      have hmark : (e == 'e' || e == 'E') = true := by simpa using he
      rcases hsign with rfl | rfl
      · rw [List.cons_append, List.cons_append, readExponent?, if_pos hmark,
          h.read hrest.digitFree]
        rfl
      · rw [List.cons_append, List.cons_append, readExponent?, if_pos hmark,
          h.read hrest.digitFree]
        rfl

end Exponent

namespace Number

variable {cs rest : List Char} {value : Json}

/-- The parts of a number are read one behind the other. -/
theorem read (h : Number cs value) (hrest : Stops rest) :
    readNumber (cs ++ rest) = some (value, rest) := by
  cases h with
  | @parts sign whole fraction exponent hsign hwhole hfraction hexponent =>
      have hexponentRead := hexponent.read hrest
      have hfractionRead := hfraction.read (hexponent.digitFree hrest.digitFree)
        (hexponent.ne_point hrest)
      have hwholeRead := hwhole.read (hfraction.digitFree (hexponent.digitFree hrest.digitFree))
      rcases hsign with rfl | rfl
      · obtain ⟨c, tail, hcs, hdigit⟩ := hwhole.head
        rw [List.nil_append, List.append_assoc, List.append_assoc, readNumber]
        · simp only [hwholeRead, hfractionRead, hexponentRead, Option.bind_eq_bind,
            Option.bind_some]
          clear hfraction hexponent hwholeRead hfractionRead hexponentRead
          cases fraction <;> cases exponent <;> rfl
        · intro after hafter
          rw [hcs, List.cons_append, List.cons.injEq] at hafter
          rw [hafter.1] at hdigit
          exact absurd hdigit (by decide)
      · rw [List.append_assoc, List.append_assoc, List.append_assoc, List.singleton_append,
          readNumber]
        simp only [hwholeRead, hfractionRead, hexponentRead, Option.bind_eq_bind, Option.bind_some,
          numberOf]

theorem head (h : Number cs value) : ∃ c tail, cs = c :: tail ∧ (c = '-' ∨ c.isDigit = true) := by
  obtain ⟨rfl | rfl, hwhole, -, -⟩ := h
  · obtain ⟨c, tail, rfl, hdigit⟩ := hwhole.head
    exact ⟨c, _, rfl, .inr hdigit⟩
  · exact ⟨'-', _, rfl, .inl rfl⟩

theorem natural (h : Whole cs) : Number cs (.natural (Numeral.decimal cs)) := by
  have hparts := Number.parts (.inl rfl) h .none .none
  rwa [List.nil_append, List.append_nil, List.append_nil] at hparts

end Number

theorem decimal_toDigits (n : Nat) : Numeral.decimal (Nat.toDigits 10 n) = n := by
  have hfold : Numeral.decimal (Nat.toDigits 10 n) = Nat.ofDigitChars 10 (Nat.toDigits 10 n) 0 := by
    rw [Numeral.decimal, Nat.ofDigitChars]
    congr 1
    funext value c
    rw [Nat.mul_comm]
  rw [hfold, Nat.ofDigitChars_toDigits (by decide) (by decide)]

theorem all_isDigit_toDigits (n : Nat) : ∀ c ∈ Nat.toDigits 10 n, c.isDigit = true :=
  fun _ hc => Nat.isDigit_of_mem_toDigits (by decide) (by decide) hc

/-- Only zero starts with zero. -/
theorem toDigits_head (n : Nat) : ∃ c tail, Nat.toDigits 10 n = c :: tail ∧
    c.isDigit = true ∧ (c = '0' → tail = []) := by
  induction n using Nat.strongRecOn with
  | ind n ih =>
      by_cases hsmall : n < 10
      · refine ⟨n.digitChar, [], Nat.toDigits_of_lt_base hsmall, ?_, fun _ => rfl⟩
        apply all_isDigit_toDigits n
        rw [Nat.toDigits_of_lt_base hsmall]
        exact List.mem_singleton_self _
      · obtain ⟨c, tail, hdigits, hdigit, hzero⟩ := ih (n / 10) (by omega)
        refine ⟨c, tail ++ [(n % 10).digitChar], ?_, hdigit, fun hc => ?_⟩
        · rw [Nat.toDigits_eq_if (by decide), if_neg hsmall, hdigits, List.cons_append]
        · have hnone := decimal_toDigits (n / 10)
          rw [hdigits, hc, hzero hc] at hnone
          have hpositive : 0 < n / 10 := by omega
          rw [← hnone] at hpositive
          exact absurd hpositive (by decide)

theorem whole_toDigits (n : Nat) : Whole (Nat.toDigits 10 n) := by
  obtain ⟨c, tail, hdigits, -, hzero⟩ := toDigits_head n
  by_cases hc : c = '0'
  · rw [hdigits, hc, hzero hc]
    exact .zero
  · refine .digits ⟨?_, all_isDigit_toDigits n⟩ ?_
    · rw [hdigits]
      exact List.cons_ne_nil c tail
    · rw [hdigits, List.head?_cons, ne_eq, Option.some.injEq]
      exact hc

theorem Writes.natural (n : Nat) {rest : List Char} :
    Writes (Nat.toDigits 10 n ++ rest) (.natural n) rest := by
  have hnumber := Number.natural (whole_toDigits n)
  rw [decimal_toDigits] at hnumber
  exact .number hnumber

/-! ### Values -/

/-- What a value starts with: neither a blank nor a closing bracket. -/
theorem Writes.head {cs rest : List Char} {value : Json} (h : Writes cs value rest) :
    ∃ c tail, cs = c :: tail ∧ isSpace c = false ∧ c ≠ ']' := by
  cases h with
  | number h =>
      obtain ⟨c, tail, rfl, rfl | hdigit⟩ := h.head
      · exact ⟨'-', tail ++ rest, rfl, by decide, by decide⟩
      · refine ⟨c, tail ++ rest, rfl, isSpace_eq_false hdigit, ?_⟩
        rintro rfl
        exact absurd hdigit (by decide)
  | _ => exact ⟨_, _, rfl, by decide, by decide⟩

theorem WritesItems.head {cs rest : List Char} {items : List Json} (h : WritesItems cs items rest) :
    ∃ c tail, cs = c :: tail ∧ isSpace c = false ∧ c ≠ ']' := by
  cases h with
  | last hitem _ => exact hitem.head
  | more hitem _ _ _ => exact hitem.head

theorem WritesMembers.head {cs rest : List Char} {members : List (Option String × Json)}
    (h : WritesMembers cs members rest) : ∃ tail, cs = '"' :: tail := by
  cases h with
  | last => exact ⟨_, rfl⟩
  | more => exact ⟨_, rfl⟩

theorem Gap.skipSpace_of_head {cs inner : List Char} {c : Char} {tail : List Char}
    (h : Gap cs inner) (hinner : inner = c :: tail) (hc : isSpace c = false) :
    skipSpace cs = c :: tail := by
  rw [h.skipSpace_eq, hinner, skipSpace_cons hc]

theorem stops_space {c : Char} (hc : isSpace c = true) (rest : List Char) : Stops (c :: rest) := by
  intro first tail hcs
  rw [← (List.cons.inj hcs).1]
  simp only [isSpace, Bool.or_eq_true, beq_iff_eq] at hc
  rcases hc with ((rfl | rfl) | rfl) | rfl <;> decide

/-- No number goes on with a blank, a comma or a closing bracket. -/
theorem Gap.stops {cs rest : List Char} {c : Char} (h : Gap cs (c :: rest))
    (hc : c = ',' ∨ c = ']' ∨ c = '\x7d') : Stops cs := by
  intro first tail hcs
  rcases h.head with ⟨space, after, hspace, hblank⟩ | hsame
  · exact stops_space hblank after first tail (hspace ▸ hcs)
  · rw [hsame, List.cons.injEq] at hcs
    rw [← hcs.1]
    rcases hc with rfl | rfl | rfl <;> decide

section

variable (n : Nat) (rest : List Char)

theorem readValue_quote : readValue (n + 1) ('"' :: rest) =
    (readString rest).map fun (s, rest) => (.str s, rest) := rfl

theorem readValue_bracket : readValue (n + 1) ('[' :: rest) =
    match skipSpace rest with
    | ']' :: rest => some (.arr [], rest)
    | rest => (readItems n rest).map fun (items, rest) => (.arr items, rest) := rfl

theorem readValue_brace : readValue (n + 1) ('\x7b' :: rest) =
    match skipSpace rest with
    | '\x7d' :: rest => some (.obj [], rest)
    | rest => (readMembers n rest).map fun (members, rest) => (.obj members, rest) := rfl

theorem readMembers_quote : readMembers (n + 1) ('"' :: rest) =
    match readString rest with
    | none => none
    | some (name, rest) =>
        match skipSpace rest with
        | ':' :: rest =>
            match readValue n rest with
            | none => none
            | some (value, rest) =>
                match skipSpace rest with
                | ',' :: rest =>
                    (readMembers n rest).map fun (members, rest) => ((name, value) :: members, rest)
                | '\x7d' :: rest => some ([(name, value)], rest)
                | _ => none
        | _ => none := rfl

theorem readValue_number {c : Char} (hc : c = '-' ∨ c.isDigit = true) :
    readValue (n + 1) (c :: rest) = readNumber (c :: rest) := by
  have hspace : isSpace c = false := by
    rcases hc with rfl | hdigit
    · decide
    · exact isSpace_eq_false hdigit
  have hne : ∀ {other : Char}, other ≠ '-' → other.isDigit = false → c ≠ other := by
    rintro other hminus hother rfl
    rcases hc with rfl | hdigit
    · exact hminus rfl
    · rw [hother] at hdigit
      cases hdigit
  rw [readValue, skipSpace_cons hspace]
  split
  next heq => exact absurd (List.cons.inj heq).1 (hne (by decide) (by decide))
  next heq => exact absurd (List.cons.inj heq).1 (hne (by decide) (by decide))
  next heq => exact absurd (List.cons.inj heq).1 (hne (by decide) (by decide))
  next heq => exact absurd (List.cons.inj heq).1 (hne (by decide) (by decide))
  next heq => exact absurd (List.cons.inj heq).1 (hne (by decide) (by decide))
  next heq => exact absurd (List.cons.inj heq).1 (hne (by decide) (by decide))
  next heq =>
      rw [← (List.cons.inj heq).1, ← (List.cons.inj heq).2]
      exact if_pos (by simpa using hc)
  next heq => cases heq

variable {n rest} {cs inner : List Char}

theorem Gap.readValue_eq (h : Gap cs inner) : readValue n cs = readValue n inner := by
  cases n with
  | zero => rfl
  | succ n => rw [readValue, readValue, h.skipSpace_eq]

theorem Gap.readItems_eq (h : Gap cs inner) : readItems n cs = readItems n inner := by
  cases n with
  | zero => rfl
  | succ n => rw [readItems, readItems, h.readValue_eq]

theorem Gap.readMembers_eq (h : Gap cs inner) : readMembers n cs = readMembers n inner := by
  cases n with
  | zero => rfl
  | succ n => rw [readMembers, readMembers, h.skipSpace_eq]

/-- A member up to its value. -/
theorem readMembers_value {literal : List Char} {name : Option String} {value : Json}
    {before after : List Char} (hliteral : Literal literal name) (hname : Gap cs (':' :: before))
    (hbefore : Gap before inner) (hvalue : readValue n inner = some (value, after)) :
    readMembers (n + 1) ('"' :: (literal ++ '"' :: cs)) =
      match skipSpace after with
      | ',' :: rest =>
          (readMembers n rest).map fun (members, rest) => ((name, value) :: members, rest)
      | '\x7d' :: rest => some ([(name, value)], rest)
      | _ => none := by
  rw [readMembers_quote, readString_literal hliteral]
  dsimp only
  rw [hname.skipSpace_of_head rfl (by decide)]
  split
  next heq => rw [← (List.cons.inj heq).2, hbefore.readValue_eq, hvalue]
  next hne => exact absurd rfl (hne before)

end

/-- With some number of steps the reader finds what is written in a text that is short enough,
and reads on behind it. -/
structure Finds (n : Nat) : Prop where
  value {cs rest : List Char} {value : Json} (h : Writes cs value rest) (hstops : Stops rest)
    (hlength : 2 * cs.length ≤ n) : readValue n cs = some (value, rest) ∧ rest.length < cs.length
  items {cs rest : List Char} {items : List Json} (h : WritesItems cs items rest)
    (hlength : 2 * cs.length + 1 ≤ n) :
    readItems n cs = some (items, rest) ∧ rest.length < cs.length
  members {cs rest : List Char} {members : List (Option String × Json)}
    (h : WritesMembers cs members rest) (hlength : 2 * cs.length + 1 ≤ n) :
    readMembers n cs = some (members, rest) ∧ rest.length < cs.length

namespace Finds

variable {n : Nat} {cs rest : List Char}

theorem readValue_succ (ih : Finds n) {value : Json} (h : Writes cs value rest)
    (hstops : Stops rest) (hlength : 2 * cs.length ≤ n + 1) :
    readValue (n + 1) cs = some (value, rest) ∧ rest.length < cs.length := by
  cases h with
  | null => exact ⟨rfl, by simp only [List.length_cons]; omega⟩
  | ofTrue => exact ⟨rfl, by simp only [List.length_cons]; omega⟩
  | ofFalse => exact ⟨rfl, by simp only [List.length_cons]; omega⟩
  | number h =>
      obtain ⟨c, tail, rfl, hc⟩ := h.head
      have hread := h.read hstops
      rw [List.cons_append] at hread ⊢
      refine ⟨by rw [readValue_number _ _ hc, hread], ?_⟩
      rw [List.length_cons, List.length_append]
      omega
  | str h =>
      rw [readValue_quote, readString_literal h]
      exact ⟨rfl, by simp only [List.length_cons, List.length_append]; omega⟩
  | emptyArr hgap =>
      have hshorter := hgap.length_le
      rw [readValue_bracket, hgap.skipSpace_of_head rfl (by decide)]
      exact ⟨rfl, by simp only [List.length_cons] at hshorter ⊢; omega⟩
  | arr hgap hitems =>
      have hshorter := hgap.length_le
      obtain ⟨c, tail, hinner, hspace, hclose⟩ := hitems.head
      obtain ⟨hread, hrest⟩ := ih.items hitems (by rw [List.length_cons] at hlength; omega)
      rw [readValue_bracket, hgap.skipSpace_of_head hinner hspace]
      rw [hinner] at hread
      refine ⟨?_, by rw [List.length_cons]; omega⟩
      split
      next heq => exact absurd (List.cons.inj heq).1 hclose
      next => rw [hread]; rfl
  | emptyObj hgap =>
      have hshorter := hgap.length_le
      rw [readValue_brace, hgap.skipSpace_of_head rfl (by decide)]
      exact ⟨rfl, by simp only [List.length_cons] at hshorter ⊢; omega⟩
  | obj hgap hmembers =>
      have hshorter := hgap.length_le
      obtain ⟨tail, hinner⟩ := hmembers.head
      obtain ⟨hread, hrest⟩ := ih.members hmembers (by rw [List.length_cons] at hlength; omega)
      rw [readValue_brace, hgap.skipSpace_of_head hinner (by decide)]
      rw [hinner] at hread
      refine ⟨?_, by rw [List.length_cons]; omega⟩
      split
      next heq => exact absurd (List.cons.inj heq).1 (by decide)
      next => rw [hread]; rfl

theorem readItems_succ (ih : Finds n) {items : List Json} (h : WritesItems cs items rest)
    (hlength : 2 * cs.length + 1 ≤ n + 1) :
    readItems (n + 1) cs = some (items, rest) ∧ rest.length < cs.length := by
  cases h with
  | last hitem hgap =>
      obtain ⟨hread, hshorter⟩ := ih.value hitem (hgap.stops (by simp)) (by omega)
      have hafter := hgap.length_le
      rw [readItems, hread]
      dsimp only
      rw [hgap.skipSpace_of_head rfl (by decide)]
      exact ⟨rfl, by rw [List.length_cons] at hafter; omega⟩
  | more hitem hgap hnext hitems =>
      obtain ⟨hread, hshorter⟩ := ih.value hitem (hgap.stops (by simp)) (by omega)
      have hafter := hgap.length_le
      have hinner := hnext.length_le
      rw [List.length_cons] at hafter
      obtain ⟨hreadItems, hrest⟩ := ih.items hitems (by omega)
      rw [readItems, hread]
      dsimp only
      rw [hgap.skipSpace_of_head rfl (by decide)]
      refine ⟨?_, by omega⟩
      change (readItems n _).map _ = _
      rw [hnext.readItems_eq, hreadItems]
      rfl

theorem readMembers_succ (ih : Finds n) {members : List (Option String × Json)}
    (h : WritesMembers cs members rest) (hlength : 2 * cs.length + 1 ≤ n + 1) :
    readMembers (n + 1) cs = some (members, rest) ∧ rest.length < cs.length := by
  cases h with
  | last hliteral hname hbefore hvalue hgap =>
      have hcs := hname.length_le
      have hinner := hbefore.length_le
      have hafter := hgap.length_le
      simp only [List.length_cons, List.length_append] at hcs hafter hlength
      obtain ⟨hread, hshorter⟩ := ih.value hvalue (hgap.stops (by simp)) (by omega)
      rw [readMembers_value hliteral hname hbefore hread, hgap.skipSpace_of_head rfl (by decide)]
      exact ⟨rfl, by simp only [List.length_cons, List.length_append]; omega⟩
  | more hliteral hname hbefore hvalue hgap hnext hmembers =>
      have hcs := hname.length_le
      have hinner := hbefore.length_le
      have hafter := hgap.length_le
      have hother := hnext.length_le
      simp only [List.length_cons, List.length_append] at hcs hafter hlength
      obtain ⟨hread, hshorter⟩ := ih.value hvalue (hgap.stops (by simp)) (by omega)
      obtain ⟨hreadMembers, hrest⟩ := ih.members hmembers (by omega)
      rw [readMembers_value hliteral hname hbefore hread, hgap.skipSpace_of_head rfl (by decide)]
      refine ⟨?_, by simp only [List.length_cons, List.length_append]; omega⟩
      change (readMembers n _).map _ = _
      rw [hnext.readMembers_eq, hreadMembers]
      rfl

/-- Each step either takes a character away or goes from a list to its first element. -/
theorem all (n : Nat) : Finds n := by
  induction n with
  | zero =>
      refine ⟨fun h _ hlength => ?_, fun _ hlength => ?_, fun _ hlength => ?_⟩
      · obtain ⟨c, tail, rfl, -⟩ := h.head
        cases hlength
      · cases hlength
      · cases hlength
  | succ n ih => exact ⟨ih.readValue_succ, ih.readItems_succ, ih.readMembers_succ⟩

end Finds

/-- A text that writes a value, with blanks around it, is read as this value. -/
theorem read?_of_writes {text : String} {inner after : List Char} {value : Json}
    (hbefore : Gap text.toList inner) (h : Writes inner value after) (hafter : Gap after []) :
    read? text = some value := by
  have hstops : Stops after := by
    intro c tail hcs
    rcases hafter.head with ⟨space, rest, hspace, hblank⟩ | hsame
    · exact stops_space hblank _ c tail (hspace ▸ hcs)
    · rw [hsame] at hcs
      cases hcs
  have hlength : 2 * inner.length ≤ 2 * text.length + 2 := by
    have hshorter := hbefore.length_le
    rw [String.length_toList] at hshorter
    omega
  obtain ⟨hread, -⟩ := (Finds.all _).value h hstops hlength
  rw [read?, hbefore.readValue_eq, hread]
  dsimp only
  rw [hafter.skipSpace_eq]
  rfl

end Gml.Json
