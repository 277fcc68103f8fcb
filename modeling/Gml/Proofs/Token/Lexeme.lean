import Gml.Proofs.Token.Tiling
import Mathlib.Data.List.TakeWhile

/-!
# Lexemes

A lexeme is a text that a token can have: a blank, a number, a word, or one of the forms that
begin with a sign. The first character decides which forms are possible, and the functions that
read the rest of a lexeme stop exactly where one of its form does.
-/
namespace Gml

namespace Token

/-- Not the end of a line. -/
def inLine (c : Char) : Bool := c != '\r' && c != '\n'

/-- What can stand between double quotes. -/
inductive Quoted : List Char → Prop
  | nil : Quoted []
  | plain {c : Char} {cs : List Char} : c ≠ '"' → c ≠ '\\' → Quoted cs → Quoted (c :: cs)
  | escape {c : Char} {cs : List Char} : c ≠ '\n' → Quoted cs → Quoted ('\\' :: c :: cs)

/-- The forms of lexemes that begin with a sign, by the sign and what follows it. -/
inductive SignForm : TokenKind → Char → List Char → Prop
  | lineComment {line : List Char} : (∀ d ∈ line, inLine d = true) →
      SignForm .lineComment '/' ('/' :: line)
  | docComment {line : List Char} : (∀ d ∈ line, inLine d = true) →
      SignForm .docComment '/' ('/' :: '/' :: line)
  /-- The first end behind the opening closes the comment. -/
  | blockComment {body : List Char} : ¬['*', '/'] <:+: body ++ ['*'] →
      SignForm .blockComment '/' ('*' :: (body ++ ['*', '/']))
  | directive {word : String} {kind : TokenKind} {line : List Char} : (word, kind) ∈ directives →
      (∀ d ∈ line, inLine d = true) → SignForm kind '#' (word.toList ++ line)
  | places {places : List Char} : places ≠ [] → (∀ d ∈ places, d.isDigit = true) →
      SignForm .realLiteral '.' places
  | dollar {digits : List Char} : digits ≠ [] → (∀ d ∈ digits, isHexDigit d = true) →
      SignForm .hexLiteral '$' digits
  | quoted {body : List Char} : Quoted body → SignForm .stringLiteral '"' (body ++ ['"'])
  | plain {body : List Char} : '\'' ∉ body → SignForm .stringLiteral '\'' (body ++ ['\''])
  | operator {word : String} {kind : TokenKind} {c : Char} {cs : List Char} :
      (word, kind) ∈ operators → word.toList = c :: cs → SignForm kind c cs

/-- The forms of lexemes, by the first character and what follows it. -/
inductive Form : TokenKind → Char → List Char → Prop
  | blank {c : Char} {cs : List Char} : isSpace c = true → (∀ d ∈ cs, isSpace d = true) →
      Form .whitespace c cs
  | whole {c : Char} {digits : List Char} : c.isDigit = true → (∀ d ∈ digits, d.isDigit = true) →
      Form .realLiteral c digits
  | fraction {c : Char} {digits places : List Char} : c.isDigit = true →
      (∀ d ∈ digits, d.isDigit = true) → places ≠ [] → (∀ d ∈ places, d.isDigit = true) →
      Form .realLiteral c (digits ++ '.' :: places)
  | hex {x : Char} {digits : List Char} : x = 'x' ∨ x = 'X' → digits ≠ [] →
      (∀ d ∈ digits, isHexDigit d = true) → Form .hexLiteral '0' (x :: digits)
  | ident {c : Char} {cs : List Char} : isIdentStart c = true → (∀ d ∈ cs, isIdentChar d = true) →
      Form .ident c cs
  | keyword {word : String} {kind : TokenKind} {c : Char} {cs : List Char} :
      (word, kind) ∈ TokenKind.keywords → word.toList = c :: cs → Form kind c cs
  | sign {kind : TokenKind} {c : Char} {cs : List Char} : SignForm kind c cs → Form kind c cs

/-- A text of one of the forms. -/
def Lexeme (kind : TokenKind) : List Char → Prop
  | [] => False
  | c :: cs => Form kind c cs

variable {kind : TokenKind} {c : Char} {cs taken : List Char}

theorem Lexeme.ne_nil (h : Lexeme kind cs) : cs ≠ [] := by
  rintro rfl
  exact h

/-! ### Characters -/

/-- What holds of the characters of ASCII, which can be looked at one by one. -/
theorem of_lt (holds : Char → Prop) (h : ∀ n < 128, holds (Char.ofNat n)) (hc : c.toNat < 128) :
    holds c := by
  have hholds := h c.toNat hc
  rwa [Char.ofNat_toNat] at hholds

theorem lt_of_isIdentChar (h : isIdentChar c = true) : c.toNat < 128 := by
  have hcases : (c.isUpper || c.isLower || c.isDigit || c == '_') = true := h
  simp only [Bool.or_eq_true, beq_iff_eq] at hcases
  rcases hcases with ((hupper | hlower) | hdigit) | rfl
  · have hle : c.toNat ≤ 90 := UInt32.le_iff_toNat_le.mp (of_decide_eq_true hupper).2
    omega
  · obtain ⟨-, hlast⟩ := Bool.and_eq_true_iff.mp hlower
    have hle : c.toNat ≤ 122 := UInt32.le_iff_toNat_le.mp (of_decide_eq_true hlast)
    omega
  · obtain ⟨-, hlast⟩ := Bool.and_eq_true_iff.mp hdigit
    have hle : c.toNat ≤ 57 := UInt32.le_iff_toNat_le.mp (of_decide_eq_true hlast)
    omega
  · decide

theorem isIdentChar_of_isIdentStart (h : isIdentStart c = true) : isIdentChar c = true := by
  simp only [isIdentStart, Bool.or_eq_true] at h
  simp only [isIdentChar, Char.isAlphanum, Bool.or_eq_true]
  tauto

/-! ### First characters -/

theorem chars_of_keyword {word : String} (h : (word, kind) ∈ TokenKind.keywords)
    (hword : word.toList = c :: cs) : isIdentStart c = true ∧ ∀ d ∈ cs, isIdentChar d = true := by
  have hall : ∀ entry ∈ TokenKind.keywords,
      (entry.1.toList.head?.all isIdentStart && entry.1.toList.tail.all isIdentChar) = true := by
    decide
  simpa [hword] using hall _ h

/-- Not the first of a blank, a number or a word. -/
def isSign (c : Char) : Bool := !isSpace c && !isIdentStart c && !c.isDigit

theorem isSign_of_operator {word : String} (h : (word, kind) ∈ operators)
    (hword : word.toList = c :: cs) : isSign c = true := by
  have hall : ∀ entry ∈ operators, entry.1.toList.head?.all isSign = true := by decide
  simpa [hword] using hall _ h

theorem SignForm.head (h : SignForm kind c cs) :
    isSpace c = false ∧ isIdentStart c = false ∧ c.isDigit = false := by
  cases h with
  | operator hmem hword => simpa [isSign, and_assoc] using isSign_of_operator hmem hword
  | _ => exact ⟨rfl, rfl, rfl⟩

theorem not_word_of_isSpace (h : isSpace c = true) :
    isIdentStart c = false ∧ c.isDigit = false := by
  simp only [isSpace, Bool.or_eq_true, beq_iff_eq] at h
  rcases h with (((rfl | rfl) | rfl) | rfl) | rfl <;> decide

theorem not_word_of_isDigit (h : c.isDigit = true) : isIdentStart c = false := by
  have hdigit : (decide (c.val ≥ 48) && decide (c.val ≤ 57)) = true := h
  rw [Bool.and_eq_true, decide_eq_true_eq, decide_eq_true_eq] at hdigit
  have hne : c ≠ '_' := by
    rintro rfl
    cases h
  have halpha : c.isAlpha = false := by
    change (decide (c.val ≥ 65 ∧ c.val ≤ 90) ||
      (decide (c.val ≥ 97) && decide (c.val ≤ 122))) = false
    grind
  rw [isIdentStart, halpha, Bool.false_or, beq_eq_false_iff_ne]
  exact hne

theorem Form.of_isSpace (h : Form kind c cs) (hc : isSpace c = true) :
    kind = .whitespace ∧ ∀ d ∈ cs, isSpace d = true := by
  have hword := not_word_of_isSpace hc
  cases h with
  | blank _ hcs => exact ⟨rfl, hcs⟩
  | hex => cases hc
  | keyword hmem hchars => simp_all [chars_of_keyword hmem hchars]
  | sign hsign => simp_all [hsign.head]
  | _ => simp_all

theorem Form.of_isIdentStart (h : Form kind c cs) (hc : isIdentStart c = true) :
    (kind = .ident ∨ ∃ word, (word, kind) ∈ TokenKind.keywords ∧ word.toList = c :: cs) ∧
      ∀ d ∈ cs, isIdentChar d = true := by
  cases h with
  | blank hspace => simp_all [not_word_of_isSpace hspace]
  | whole hdigit => simp_all [not_word_of_isDigit hdigit]
  | fraction hdigit => simp_all [not_word_of_isDigit hdigit]
  | hex => cases hc
  | ident _ hcs => exact ⟨.inl rfl, hcs⟩
  | keyword hmem hchars => exact ⟨.inr ⟨_, hmem, hchars⟩, (chars_of_keyword hmem hchars).2⟩
  | sign hsign => simp_all [hsign.head]

theorem Form.of_isDigit (h : Form kind c cs) (hc : c.isDigit = true) :
    kind = .realLiteral ∧ (∀ d ∈ cs, d.isDigit = true) ∨
    kind = .realLiteral ∧ (∃ digits places, (∀ d ∈ digits, d.isDigit = true) ∧ places ≠ [] ∧
      (∀ d ∈ places, d.isDigit = true) ∧ cs = digits ++ '.' :: places) ∨
    kind = .hexLiteral ∧ c = '0' ∧ ∃ x digits, (x = 'x' ∨ x = 'X') ∧ digits ≠ [] ∧
      (∀ d ∈ digits, isHexDigit d = true) ∧ cs = x :: digits := by
  have hword := not_word_of_isDigit hc
  cases h with
  | blank hspace => simp_all [not_word_of_isSpace hspace]
  | whole _ hdigits => exact .inl ⟨rfl, hdigits⟩
  | fraction _ hdigits hne hplaces => exact .inr (.inl ⟨rfl, _, _, hdigits, hne, hplaces, rfl⟩)
  | hex hx hne hdigits => exact .inr (.inr ⟨rfl, rfl, _, _, hx, hne, hdigits, rfl⟩)
  | ident hstart => simp_all
  | keyword hmem hchars => simp_all [chars_of_keyword hmem hchars]
  | sign hsign => simp_all [hsign.head]

theorem Form.of_isSign (h : Form kind c cs) (hc : isSign c = true) : SignForm kind c cs := by
  simp only [isSign, Bool.and_eq_true, Bool.not_eq_true'] at hc
  cases h with
  | hex => cases hc.2
  | keyword hmem hchars => simp_all [chars_of_keyword hmem hchars]
  | sign hsign => exact hsign
  | _ => simp_all

/-! ### Tables -/

theorem wordKind_eq {word : String} (h : (word, kind) ∈ TokenKind.keywords) :
    wordKind word = kind := by
  have hall : ∀ entry ∈ TokenKind.keywords, wordKind entry.1 = entry.2 := by decide
  exact hall _ h

theorem isKeyword_of_mem {word : String} (h : (word, kind) ∈ TokenKind.keywords) :
    kind.isKeyword = true := by
  have hall : ∀ entry ∈ TokenKind.keywords, entry.2.isKeyword = true := by decide
  exact hall _ h

theorem wordKind_cases (word : String) :
    wordKind word = .ident ∨ (word, wordKind word) ∈ TokenKind.keywords := by
  unfold wordKind
  cases h : TokenKind.keywords.lookup word with
  | none => exact .inl rfl
  | some kind =>
      obtain ⟨before, after, hsplit, -⟩ := List.lookup_eq_some_iff.mp h
      rw [hsplit]
      exact .inr (List.mem_append_right _ List.mem_cons_self)

/-- The longer operators come first, and no two are spelled alike. -/
theorem operators_ordered : operators.Pairwise fun longer word =>
    word.1.toList.length ≤ longer.1.toList.length ∧ longer.1 ≠ word.1 := by
  decide

/-- The first operator found is the longest, and no other one is spelled like it. -/
theorem operator_wins {word other : String} {found : TokenKind}
    (h : operators.find? (fun entry => entry.1.toList.isPrefixOf cs) = some (word, found))
    (hother : (other, kind) ∈ operators) (hfront : other.toList <+: cs) :
    other.toList.length ≤ word.toList.length ∧ (other = word → kind = found) := by
  obtain ⟨-, before, after, hsplit, hbefore⟩ := List.find?_eq_some_iff_append.mp h
  rw [hsplit] at hother
  have hordered := operators_ordered
  rw [hsplit, List.pairwise_append, List.pairwise_cons] at hordered
  rcases List.mem_append.mp hother with hmem | hmem
  · have hno := hbefore _ hmem
    rw [List.isPrefixOf_iff_prefix.mpr hfront] at hno
    cases hno
  · rcases List.mem_cons.mp hmem with hsame | hmem
    · cases hsame
      exact ⟨Nat.le_refl _, fun _ => rfl⟩
    · obtain ⟨hle, hne⟩ := hordered.2.1.1 _ hmem
      exact ⟨hle, fun hsame => absurd hsame.symm hne⟩

theorem operator_of_slash {text : String} (h : (text, kind) ∈ operators)
    (hchars : text.toList = '/' :: taken) : taken = [] ∨ taken = ['='] := by
  have hall : ∀ entry ∈ operators, entry.1.toList.head? = some '/' →
      entry.1.toList.tail = [] ∨ entry.1.toList.tail = ['='] := by decide
  simpa [hchars] using hall _ h

theorem operator_of_point {text : String} (h : (text, kind) ∈ operators)
    (hchars : text.toList = '.' :: taken) : kind = .dot ∧ taken = [] := by
  have hall : ∀ entry ∈ operators, entry.1.toList.head? = some '.' →
      entry.2 = .dot ∧ entry.1.toList.tail = [] := by decide
  simpa [hchars] using hall _ h

theorem not_operator {text : String} (h : (text, kind) ∈ operators)
    (hchars : text.toList = c :: cs) : c ∉ ['#', '"', '\'', '$'] := by
  have hall : ∀ entry ∈ operators, entry.1.toList.head?.all
      (fun d => decide (d ∉ ['#', '"', '\'', '$'])) = true := by decide
  simpa [hchars] using hall _ h

theorem directive_unique {word other : String} {found : TokenKind}
    (h : (word, found) ∈ directives) (hother : (other, kind) ∈ directives)
    (hword : word.toList <+: cs) (hfront : other.toList <+: cs) : word = other ∧ found = kind := by
  have hall : ∀ a ∈ directives, ∀ b ∈ directives,
      a.1.toList <+: b.1.toList → a = b := by decide
  rcases List.prefix_or_prefix_of_prefix hword hfront with hle | hle
  · exact Prod.mk.inj (hall _ h _ hother hle)
  · exact (Prod.mk.inj (hall _ hother _ h hle)).imp Eq.symm Eq.symm

/-- No table holds a comment, an error or an identifier. -/
theorem not_tabled {word : String}
    (hkind : kind ∈ [.docComment, .blockComment, .error, .ident]) :
    (word, kind) ∉ TokenKind.keywords ∧ (word, kind) ∉ directives ∧ (word, kind) ∉ operators := by
  have hall : ∀ entry ∈ TokenKind.keywords ++ directives ++ operators,
      entry.2 ∉ [.docComment, .blockComment, .error, .ident] := by decide
  simp only [List.mem_append] at hall
  exact ⟨fun h => hall _ (.inl (.inl h)) hkind, fun h => hall _ (.inl (.inr h)) hkind,
    fun h => hall _ (.inr h) hkind⟩

/-- A documentation comment is a line behind three slashes. -/
theorem line_of_lexeme {word : List Char} (h : Lexeme .docComment word) :
    ∃ line, word = '/' :: '/' :: '/' :: line ∧ ∀ d ∈ line, inLine d = true := by
  cases word with
  | nil => exact h.elim
  | cons c cs =>
      cases (h : Form .docComment c cs) with
      | keyword hmem => exact absurd hmem (not_tabled (by decide)).1
      | sign hsign =>
          cases hsign with
          | docComment hline => exact ⟨_, rfl, hline⟩
          | directive hmem => exact absurd hmem (not_tabled (by decide)).2.1
          | operator hmem => exact absurd hmem (not_tabled (by decide)).2.2

/-- A block comment ends at the first end behind its opening. -/
theorem block_of_lexeme {word : List Char} (h : Lexeme .blockComment word) :
    ∃ body, word = '/' :: '*' :: (body ++ ['*', '/']) ∧ ¬['*', '/'] <:+: body ++ ['*'] := by
  cases word with
  | nil => exact h.elim
  | cons c cs =>
      cases (h : Form .blockComment c cs) with
      | keyword hmem => exact absurd hmem (not_tabled (by decide)).1
      | sign hsign =>
          cases hsign with
          | blockComment hno => exact ⟨_, rfl, hno⟩
          | directive hmem => exact absurd hmem (not_tabled (by decide)).2.1
          | operator hmem => exact absurd hmem (not_tabled (by decide)).2.2

theorem not_lexeme_error (word : List Char) : ¬Lexeme .error word := by
  intro h
  cases word with
  | nil => exact h
  | cons c cs =>
      cases (h : Form .error c cs) with
      | keyword hmem => exact absurd hmem (not_tabled (by decide)).1
      | sign hsign =>
          cases hsign with
          | directive hmem => exact absurd hmem (not_tabled (by decide)).2.1
          | operator hmem => exact absurd hmem (not_tabled (by decide)).2.2

theorem chars_of_ident (h : Form .ident c cs) :
    isIdentStart c = true ∧ ∀ d ∈ cs, isIdentChar d = true := by
  cases h with
  | ident hstart hmore => exact ⟨hstart, hmore⟩
  | keyword hmem => exact absurd hmem (not_tabled (by decide)).1
  | sign hsign =>
      cases hsign with
      | directive hmem => exact absurd hmem (not_tabled (by decide)).2.1
      | operator hmem => exact absurd hmem (not_tabled (by decide)).2.2

/-! ### Runs of characters -/

theorem length_le_takeWhile {p : Char → Bool} (h : taken <+: cs) (hp : ∀ d ∈ taken, p d = true) :
    taken.length ≤ (cs.takeWhile p).length := by
  obtain ⟨rest, rfl⟩ := h
  rw [List.takeWhile_append_of_pos hp, List.length_append]
  exact Nat.le_add_right _ _

/-- A piece that ends where `p` does not hold any more is all that `p` takes. -/
theorem takeWhile_of_stop {p : Char → Bool} {d : Char} {more : List Char}
    (h : taken ++ d :: more <+: cs) (hp : ∀ x ∈ taken, p x = true) (hd : p d = false) :
    cs.takeWhile p = taken ∧ d :: more <+: cs.dropWhile p := by
  obtain ⟨rest, rfl⟩ := h
  rw [List.append_assoc, List.takeWhile_append_of_pos hp, List.dropWhile_append_of_pos hp,
    List.cons_append, List.takeWhile_cons_of_neg (by simp [hd]),
    List.dropWhile_cons_of_neg (by simp [hd]), List.append_nil]
  exact ⟨rfl, rest, rfl⟩

theorem drop_length_takeWhile (p : Char → Bool) (cs : List Char) :
    cs.drop (cs.takeWhile p).length = cs.dropWhile p := by
  have hsplit : (cs.takeWhile p ++ cs.dropWhile p).drop (cs.takeWhile p).length = cs.dropWhile p :=
    List.drop_left
  rwa [List.takeWhile_append_dropWhile] at hsplit

/-! ### Numbers -/

/-- What a hexadecimal number has behind its zero. -/
def HexRest (cs : List Char) : Prop :=
  ∃ x rest, cs = x :: rest ∧ (x = 'x' ∨ x = 'X') ∧ 0 < countHex rest

theorem number_of_hexRest {x : Char} {rest : List Char} (hx : x = 'x' ∨ x = 'X')
    (hrest : 0 < countHex rest) : number '0' (x :: rest) = (.hexLiteral, countHex rest + 1) := by
  rcases hx with rfl | rfl <;> simp [number, hrest]

/-- Any other number has places behind a point or none. -/
theorem number_of_not_hexRest (h : ¬(c = '0' ∧ HexRest cs)) :
    (∃ rest, cs.dropWhile Char.isDigit = '.' :: rest ∧ 0 < countDigits rest ∧
      number c cs = (.realLiteral, countDigits cs + 1 + countDigits rest)) ∨
    (∀ rest, cs.dropWhile Char.isDigit = '.' :: rest → ¬0 < countDigits rest) ∧
      number c cs = (.realLiteral, countDigits cs) := by
  unfold number
  dsimp only
  rw [if_neg, countDigits, drop_length_takeWhile]
  · split
    next rest heq =>
        by_cases hrest : 0 < countDigits rest
        · exact .inl ⟨rest, heq, hrest, if_pos hrest⟩
        · refine .inr ⟨fun other hother => ?_, if_neg hrest⟩
          rw [heq] at hother
          cases hother
          exact hrest
    next hno => exact .inr ⟨fun rest heq => (hno rest heq).elim, rfl⟩
  · intro hhex
    rw [Bool.and_eq_true, beq_iff_eq, decide_eq_true_eq] at hhex
    refine h ⟨hhex.1, ?_⟩
    have hpos := hhex.2
    split at hpos
    next rest => exact ⟨_, rest, rfl, .inl rfl, hpos⟩
    next rest => exact ⟨_, rest, rfl, .inr rfl, hpos⟩
    next => cases hpos

theorem point_of_fraction {digits places : List Char} (h : digits ++ '.' :: places <+: cs)
    (hdigits : ∀ d ∈ digits, d.isDigit = true) (hne : places ≠ [])
    (hplaces : ∀ d ∈ places, d.isDigit = true) :
    cs.takeWhile Char.isDigit = digits ∧ ∃ rest, cs.dropWhile Char.isDigit = '.' :: rest ∧
      places.length ≤ countDigits rest ∧ 0 < countDigits rest := by
  obtain ⟨hwhole, rest, hrest⟩ := takeWhile_of_stop h hdigits rfl
  have hle : places.length ≤ countDigits (places ++ rest) :=
    length_le_takeWhile (List.prefix_append _ _) hplaces
  exact ⟨hwhole, _, hrest.symm, hle, Nat.lt_of_lt_of_le (List.length_pos_iff.mpr hne) hle⟩

theorem hexRest_of_front {x : Char} {digits : List Char} (h : x :: digits <+: cs)
    (hx : x = 'x' ∨ x = 'X') (hne : digits ≠ []) (hdigits : ∀ d ∈ digits, isHexDigit d = true) :
    HexRest cs := by
  obtain ⟨rest, rfl⟩ := h
  exact ⟨x, digits ++ rest, rfl, hx, Nat.lt_of_lt_of_le (List.length_pos_iff.mpr hne)
    (length_le_takeWhile (List.prefix_append _ _) hdigits)⟩

/-! ### Block comments -/

theorem blockRest?_of_front {body : List Char} (h : body ++ ['*', '/'] <+: cs)
    (hno : ¬['*', '/'] <:+: body ++ ['*']) : blockRest? cs = some (body.length + 2) := by
  obtain ⟨rest, rfl⟩ := h
  induction body with
  | nil => rfl
  | cons d body ih =>
      have hinner : ¬['*', '/'] <:+: body ++ ['*'] := fun hin =>
        hno (List.infix_cons_iff.mpr (.inr hin))
      rw [List.cons_append, List.cons_append, blockRest?, ih hinner]
      · simp
      · rintro more rfl hmore
        refine hno (List.infix_cons_iff.mpr (.inl ?_))
        cases body with
        | nil => cases hmore
        | cons e body =>
            cases hmore
            exact List.cons_prefix_cons.mpr ⟨rfl, List.cons_prefix_cons.mpr ⟨rfl, List.nil_prefix⟩⟩

theorem front_of_blockRest? {n : Nat} (h : blockRest? cs = some n) :
    ∃ body, n = body.length + 2 ∧ body ++ ['*', '/'] <+: cs ∧ ¬['*', '/'] <:+: body ++ ['*'] := by
  induction cs using blockRest?.induct generalizing n with
  | case1 => cases h
  | case2 rest =>
      cases h
      exact ⟨[], rfl, ⟨rest, rfl⟩, by decide⟩
  | case3 d rest hopen ih =>
      rw [blockRest?] at h
      · obtain ⟨m, hm, rfl⟩ := Option.map_eq_some_iff.mp h
        obtain ⟨body, rfl, hfront, hno⟩ := ih hm
        refine ⟨d :: body, rfl, List.cons_prefix_cons.mpr ⟨rfl, hfront⟩, fun hin => ?_⟩
        rcases List.infix_cons_iff.mp hin with hstart | hin
        · obtain ⟨rfl, hslash⟩ := List.cons_prefix_cons.mp hstart
          obtain ⟨after, rfl⟩ := hfront
          cases body with
          | nil => simp at hslash
          | cons e body => exact hopen _ rfl (by rw [(List.cons_prefix_cons.mp hslash).1]; rfl)
        · exact hno hin
      · exact hopen

theorem not_infix_of_blockRest? (h : blockRest? cs = none) : ¬['*', '/'] <:+: cs := by
  induction cs using blockRest?.induct with
  | case1 => decide
  | case2 rest => cases h
  | case3 d rest hopen ih =>
      intro hin
      rw [blockRest?] at h
      · rcases List.infix_cons_iff.mp hin with hstart | hin
        · obtain ⟨rfl, after, hafter⟩ := List.cons_prefix_cons.mp hstart
          exact hopen after rfl hafter.symm
        · exact ih (Option.map_eq_none_iff.mp h) hin
      · exact hopen

/-! ### Quotes -/

theorem quotedRest_of_front {body : List Char} (hbody : Quoted body)
    (h : body ++ ['"'] <+: cs) : quotedRest cs = (body.length + 1, true) := by
  obtain ⟨rest, rfl⟩ := h
  induction hbody with
  | nil => rfl
  | plain hquote hslash hbody ih =>
      rw [List.cons_append, List.cons_append, quotedRest, ih]
      · rfl
      · exact fun hc => hquote hc
      · exact fun hc => absurd hc hslash
      · exact fun _ hc => absurd hc hslash
      · exact fun _ _ hc => absurd hc hslash
  | escape hline hbody ih =>
      rw [List.cons_append, List.cons_append, List.cons_append, List.cons_append, quotedRest, ih]
      · rfl
      · exact fun hc => absurd hc hline

theorem front_of_quotedRest (h : (quotedRest cs).2 = true) :
    ∃ body, Quoted body ∧ body ++ ['"'] <+: cs := by
  induction cs using quotedRest.induct with
  | case1 => cases h
  | case2 rest => exact ⟨[], .nil, ⟨rest, rfl⟩⟩
  | case3 => cases h
  | case4 => cases h
  | case5 d rest hline n closed heq ih =>
      rw [quotedRest] at h
      · obtain ⟨body, hbody, hfront⟩ := ih h
        refine ⟨'\\' :: d :: body, .escape (fun hd => hline hd) hbody, ?_⟩
        exact List.cons_prefix_cons.mpr ⟨rfl, List.cons_prefix_cons.mpr ⟨rfl, hfront⟩⟩
      · exact hline
  | case6 d rest hquote hlast hline hslash n closed heq ih =>
      rw [quotedRest] at h
      · obtain ⟨body, hbody, hfront⟩ := ih h
        have hplain : d ≠ '\\' := by
          rintro rfl
          cases rest with
          | nil => exact hlast rfl rfl
          | cons e more => exact hslash e more rfl rfl
        exact ⟨d :: body, .plain hquote hplain hbody, List.cons_prefix_cons.mpr ⟨rfl, hfront⟩⟩
      · exact hquote
      · exact hlast
      · exact hline
      · exact hslash

theorem plainRest_of_front {body : List Char} (hbody : '\'' ∉ body)
    (h : body ++ ['\''] <+: cs) : plainRest cs = (body.length + 1, true) := by
  obtain ⟨rest, rfl⟩ := h
  induction body with
  | nil => rfl
  | cons d body ih =>
      rw [List.cons_append, List.cons_append, plainRest, ih (List.not_mem_of_not_mem_cons hbody)]
      · rfl
      · exact fun hc => List.ne_of_not_mem_cons hbody hc.symm

theorem front_of_plainRest (h : (plainRest cs).2 = true) :
    ∃ body, '\'' ∉ body ∧ body ++ ['\''] <+: cs := by
  induction cs using plainRest.induct with
  | case1 => cases h
  | case2 rest => exact ⟨[], List.not_mem_nil, ⟨rest, rfl⟩⟩
  | case3 d rest hquote n closed heq ih =>
      rw [plainRest] at h
      · obtain ⟨body, hbody, hfront⟩ := ih h
        exact ⟨d :: body, List.not_mem_cons_of_ne_of_not_mem (fun hd => hquote hd.symm) hbody,
          List.cons_prefix_cons.mpr ⟨rfl, hfront⟩⟩
      · exact hquote

end Token

end Gml
