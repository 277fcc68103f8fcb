import Gml.Proofs.Grammar.Printing
import Gml.Proofs.Parse.Regular
import Gml.SymbolTable.Basic

/-!
# Resource names are the identifiers of the language

The bytes of a name are judged one by one and its reserved words are listed apart from those of the
lexer. Still a name is allowed for a resource exactly if the lexer takes all of it as one
identifier, and exactly if some code can refer to it.
-/
namespace Gml

namespace Name

variable {c : Char} {cs : List Char} {name : String}

/-! ### Bytes and characters -/

theorem bytes_eq (name : String) :
    name.toUTF8.data.toList = name.toList.flatMap String.utf8EncodeChar := by
  have hbytes : name.toUTF8 = (name.toList.flatMap String.utf8EncodeChar).toByteArray := by
    conv => lhs; rw [← String.ofList_toList (s := name)]
    exact String.toByteArray_ofList
  rw [hbytes, List.data_toByteArray]

theorem utf8EncodeChar_of_lt (h : c.toNat < 128) :
    String.utf8EncodeChar c = [UInt8.ofNat c.toNat] := by
  have hle : c.val.toNat ≤ 127 := Nat.le_of_lt_succ h
  simp only [String.utf8EncodeChar, if_pos hle]
  rfl

theorem utf8EncodeChar_of_le (h : 128 ≤ c.toNat) :
    ∃ b bs, String.utf8EncodeChar c = b :: bs ∧ 128 ≤ b.toNat := by
  have hgt : ¬c.val.toNat ≤ 127 := Nat.not_le.mpr h
  unfold String.utf8EncodeChar
  dsimp only
  rw [if_neg hgt]
  split_ifs
  all_goals
    refine ⟨_, _, rfl, ?_⟩
    rw [UInt8.toNat_ofNat']
    omega

/-- A character of ASCII is judged like its byte. -/
theorem judged_of_lt (h : c.toNat < 128) :
    isStartByte (UInt8.ofNat c.toNat) = Token.isIdentStart c ∧
      (isStartByte (UInt8.ofNat c.toNat) || isDigitByte (UInt8.ofNat c.toNat)) =
        Token.isIdentChar c := by
  let holds (d : Char) := isStartByte (UInt8.ofNat d.toNat) = Token.isIdentStart d ∧
    (isStartByte (UInt8.ofNat d.toNat) || isDigitByte (UInt8.ofNat d.toNat)) = Token.isIdentChar d
  have hall : ∀ n < 128, holds (Char.ofNat n) := by decide +kernel
  exact Token.of_lt holds hall h

theorem refused_of_le {b : UInt8} (h : 128 ≤ b.toNat) :
    isStartByte b = false ∧ isDigitByte b = false := by
  have hline : b ≠ 95 := by
    rintro rfl
    exact absurd h (by decide)
  simp only [isStartByte, isDigitByte, UInt8.le_iff_toNat_le]
  grind

theorem isIdentChar_of_le (h : 128 ≤ c.toNat) : Token.isIdentChar c = false :=
  Bool.eq_false_iff.mpr fun hc => absurd (Token.lt_of_isIdentChar hc) (Nat.not_lt.mpr h)

theorem isIdentStart_of_le (h : 128 ≤ c.toNat) : Token.isIdentStart c = false := by
  refine Bool.eq_false_iff.mpr fun hc => ?_
  have hlt := Token.lt_of_isIdentChar (Token.isIdentChar_of_isIdentStart hc)
  omega

theorem all_bytes (cs : List Char) :
    ((cs.flatMap String.utf8EncodeChar).all fun b => isStartByte b || isDigitByte b) =
      cs.all Token.isIdentChar := by
  rw [List.all_flatMap]
  congr 1
  funext c
  rcases Nat.lt_or_ge c.toNat 128 with hlt | hge
  · rw [utf8EncodeChar_of_lt hlt, List.all_cons, List.all_nil, Bool.and_true, (judged_of_lt hlt).2]
  · obtain ⟨b, bs, hbytes, hb⟩ := utf8EncodeChar_of_le hge
    rw [hbytes, List.all_cons, (refused_of_le hb).1, (refused_of_le hb).2, isIdentChar_of_le hge]
    rfl

/-- Judging the bytes of a name is judging its characters. -/
theorem isIdentifier_eq (name : String) : isIdentifier name =
    match name.toList with
    | [] => false
    | c :: cs => Token.isIdentStart c && cs.all Token.isIdentChar := by
  rw [isIdentifier, bytes_eq]
  cases name.toList with
  | nil => rfl
  | cons c cs =>
      rw [List.flatMap_cons]
      rcases Nat.lt_or_ge c.toNat 128 with hlt | hge
      · rw [utf8EncodeChar_of_lt hlt]
        dsimp only [List.singleton_append]
        rw [(judged_of_lt hlt).1, all_bytes]
      · obtain ⟨b, bs, hbytes, hb⟩ := utf8EncodeChar_of_le hge
        rw [hbytes]
        dsimp only [List.cons_append]
        rw [(refused_of_le hb).1, isIdentStart_of_le hge, Bool.false_and, Bool.false_and]

theorem isIdentifier_iff (name : String) : isIdentifier name = true ↔
    ∃ c cs, name.toList = c :: cs ∧ Token.isIdentStart c = true ∧
      ∀ d ∈ cs, Token.isIdentChar d = true := by
  rw [isIdentifier_eq]
  cases name.toList with
  | nil => simp
  | cons c cs => simp

/-! ### Reserved words -/

theorem reserved_eq : reserved = TokenKind.keywords.map Prod.fst := rfl

theorem isReserved_iff (name : String) :
    isReserved name = true ↔ ∃ kind, (name, kind) ∈ TokenKind.keywords := by
  rw [isReserved, List.contains_iff_mem, reserved_eq]
  simp

end Name

/-! ### One identifier -/

namespace Token

variable {name : String}

theorem wordKind_eq_ident_iff (name : String) :
    wordKind name = .ident ↔ Name.isReserved name = false := by
  rw [← Bool.not_eq_true, Name.isReserved_iff]
  constructor
  · rintro hkind ⟨kind, hmem⟩
    have hkeyword := isKeyword_of_mem hmem
    rw [← wordKind_eq hmem, hkind] at hkeyword
    cases hkeyword
  · intro hno
    exact (wordKind_cases name).resolve_right fun hmem => hno ⟨_, hmem⟩

/-- A word is taken as a whole. -/
theorem lex_of_isIdentifier (h : Name.isIdentifier name = true) :
    lex name = [⟨wordKind name, 0, name⟩] := by
  obtain ⟨c, cs, hchars, hstart, hmore⟩ := (Name.isIdentifier_iff name).mp h
  have hspace : isSpace c = false := by
    by_contra hspace
    rw [Bool.not_eq_false] at hspace
    rw [(not_word_of_isSpace hspace).1] at hstart
    cases hstart
  have hmunch : munch c cs = (wordKind name, cs.length) := by
    have htail : cs.takeWhile isIdentChar = cs := List.takeWhile_eq_self_iff.mpr hmore
    unfold munch
    dsimp only
    rw [hspace, if_neg Bool.false_ne_true, if_pos hstart, htail, ← hchars, String.ofList_toList]
  have hlength : name.length = cs.length + 1 := by
    rw [← String.length_toList, hchars, List.length_cons]
  have hnil : ∀ steps offset, scan steps offset [] = [] := by
    intro steps offset
    cases steps <;> rfl
  rw [lex, hlength, hchars, scan]
  dsimp only
  rw [hmunch, List.take_length, List.drop_length, ← hchars, String.ofList_toList, hnil]

/-- An identifier has the form of one, and no reserved word has its text. -/
theorem isIdentifier_of_mem_lex {text : String} {token : Token} (h : token ∈ lex text)
    (hkind : token.kind = .ident) :
    Name.isIdentifier token.text = true ∧ Name.isReserved token.text = false := by
  obtain ⟨rest, hlongest⟩ := longest_of_mem_lex h (by rw [hkind]; decide)
  obtain ⟨c, cs, hchars⟩ := List.exists_cons_of_ne_nil hlongest.lexeme.ne_nil
  rw [hkind, hchars] at hlongest
  constructor
  · exact (Name.isIdentifier_iff _).mpr ⟨c, cs, hchars, chars_of_ident hlongest.lexeme⟩
  · -- A reserved word of this text would have been preferred.
    rw [← Bool.not_eq_true, Name.isReserved_iff]
    rintro ⟨kind, hmem⟩
    have hkeyword : Lexeme kind (c :: cs) := .keyword hmem hchars
    rcases hlongest.wins kind _ hkeyword hlongest.isPrefix with hlt | ⟨-, rfl | hrank⟩
    · exact absurd hlt (Nat.lt_irrefl _)
    · exact (not_tabled (by decide)).1 hmem
    · rcases hrank with ⟨hword, -⟩ | ⟨hdoc, -⟩
      · cases hword
      · cases hdoc

/-- The names that are allowed are those that the lexer takes as one identifier. -/
theorem lex_eq_ident_iff (name : String) : lex name = [⟨.ident, 0, name⟩] ↔
    Name.isIdentifier name = true ∧ Name.isReserved name = false := by
  constructor
  · intro hlex
    have hmem : ⟨.ident, 0, name⟩ ∈ lex name := by
      rw [hlex]
      exact List.mem_singleton_self _
    exact isIdentifier_of_mem_lex hmem rfl
  · rintro ⟨hidentifier, hfree⟩
    rw [lex_of_isIdentifier hidentifier, (wordKind_eq_ident_iff name).mpr hfree]

end Token

/-! ### Names in code -/

namespace Name

variable {name : String}

/-- Some code without errors refers to the name. -/
def IsWritable (name : String) : Prop :=
  ∃ text, (parse text).ok = true ∧
    ∃ node ∈ (parse text).tree.preorder, node.referenceIdent?.map Token.text = some name

/-- The tokens of an assignment to the name. -/
def assigned (name : String) : List (TokenKind × String) :=
  [(.ident, name), (.assign, "="), (.ident, "x")]

theorem lex_assigned (h : lex name = [⟨.ident, 0, name⟩]) :
    (Tree.meaningful (lex (Token.spaced ((assigned name).map Prod.snd)))).map Token.content =
      assigned name := by
  have hname : Token.Spelled (.ident, name) := ⟨h, rfl⟩
  refine Token.lex_spaced ?_ ?_
  · simp only [assigned, List.forall_mem_cons]
    exact ⟨hname, Token.spelled_assign, Token.spelled_identifier, by simp⟩
  · simp [assigned, TokenKind.isPlain, TokenKind.isTrivia]

/-- What is assigned to is read as a reference. -/
theorem isWritable_of_lex (h : lex name = [⟨.ident, 0, name⟩]) : IsWritable name := by
  let text := Token.spaced ((assigned name).map Prod.snd)
  obtain ⟨trees, reports, hruns, htree, hleaves, herrors⟩ := parse_runs text
  obtain ⟨first, rest, hlex, hfirst, hrest⟩ := List.map_eq_cons_iff.mp (lex_assigned h)
  obtain ⟨second, last, rfl, hsecond, hlast⟩ := List.map_eq_cons_iff.mp hrest
  have hvalue : last.map Token.content =
      (Expr.name ⟨.ident, "x", Token.spelled_identifier, rfl⟩).words := hlast
  obtain ⟨value, -, hassigned⟩ := Expr.runs_assigned _ (congrArg Prod.fst hfirst)
    (congrArg Prod.fst hsecond) hvalue
  rw [hlex] at hruns
  obtain ⟨hcursor, rfl⟩ := hassigned.unique hruns
  have htrees : trees =
      [.node .assignStmt [.node .nameRef [.leaf first], .leaf second, value]] := by
    rw [← List.reverse_inj]
    exact (congrArg Cursor.trees hcursor).symm
  have hbare : .node .nameRef [.leaf first] ∈ (parse text).tree.bare.preorder := by
    rw [htree, Tree.bare_weaveRoot _ _ _ hleaves.symm, htrees]
    refine Tree.preorder_trans (Tree.mem_preorder_of_mem (List.mem_singleton_self _)) ?_
    exact Tree.mem_preorder_of_mem List.mem_cons_self
  obtain ⟨children, hnode, hchildren⟩ := Tree.exists_of_mem_preorder_bare hbare
  have hfound : (Tree.node .nameRef children).referenceIdent? = some first := by
    have hkind : first.kind = .ident := congrArg Prod.fst hfirst
    have hleaf : Tree.findLeaf? .ident (Tree.bareAll children) = some first := by
      rw [hchildren, Tree.findLeaf?, if_pos hkind]
    rwa [Tree.findLeaf?_bareAll rfl] at hleaf
  refine ⟨text, ?_, _, hnode, ?_⟩
  · rw [Parse.ok, herrors]
    rfl
  · rw [hfound]
    exact congrArg (fun content => some content.2) hfirst

theorem isWritable_iff (name : String) : IsWritable name ↔ lex name = [⟨.ident, 0, name⟩] := by
  constructor
  · rintro ⟨text, -, node, hnode, hname⟩
    obtain ⟨token, hreference, rfl⟩ := Option.map_eq_some_iff.mp hname
    obtain ⟨-, hfound⟩ := Option.ite_none_right_eq_some.mp hreference
    have htoken : token ∈ lex text := by
      rw [← leaves_parse]
      exact Tree.leaves_of_mem_preorder hnode token (Tree.mem_leaves_of_childToken? hfound)
    exact (Token.lex_eq_ident_iff _).mpr
      (Token.isIdentifier_of_mem_lex htoken (Tree.of_findLeaf? hfound).2)
  · exact isWritable_of_lex

end Name

/-! ### Names of resources -/

namespace SymbolTable

theorem checkNewName_eq_ok_iff (t : SymbolTable) (name : String) :
    t.checkNewName name = .ok () ↔
      (Name.isIdentifier name = true ∧ Name.isReserved name = false) ∧ t.exists? name = false := by
  rw [checkNewName]
  cases Name.isIdentifier name <;> cases Name.isReserved name <;> cases t.exists? name <;> simp

theorem checkNewName_eq_invalidName_iff (t : SymbolTable) (name : String) :
    t.checkNewName name = .error (.invalidName name) ↔
      ¬(Name.isIdentifier name = true ∧ Name.isReserved name = false) := by
  rw [checkNewName]
  cases Name.isIdentifier name <;> cases Name.isReserved name <;> cases t.exists? name <;> simp

end SymbolTable

/-- A name that is no reserved word and passes the test of its bytes is one that the lexer takes as
a single identifier, and one that some code refers to. These are the names that a script or an
object can be created with, where nothing else bears them. -/
theorem resource_names_are_identifiers (name : String) :
    (Name.isIdentifier name = true ∧ Name.isReserved name = false ↔
      lex name = [⟨.ident, 0, name⟩]) ∧
    (lex name = [⟨.ident, 0, name⟩] ↔ Name.IsWritable name) ∧
    ∀ (t : SymbolTable) (uri : Uri),
      ((∃ t', t.createScript name uri = .ok t') ↔
        Name.IsWritable name ∧ t.exists? name = false) ∧
      ((∃ t', t.createObject name = .ok t') ↔ Name.IsWritable name ∧ t.exists? name = false) ∧
      (t.createScript name uri = .error (.invalidName name) ↔ ¬Name.IsWritable name) ∧
      (t.createObject name = .error (.invalidName name) ↔ ¬Name.IsWritable name) := by
  have hlex := Token.lex_eq_ident_iff name
  have hwritable : Name.IsWritable name ↔
      Name.isIdentifier name = true ∧ Name.isReserved name = false :=
    (Name.isWritable_iff name).trans hlex
  refine ⟨hlex.symm, (Name.isWritable_iff name).symm, fun t uri => ?_⟩
  rw [hwritable, ← t.checkNewName_eq_ok_iff, ← t.checkNewName_eq_invalidName_iff,
    SymbolTable.createScript, SymbolTable.createObject]
  cases t.checkNewName name with
  | error e => simp [Except.map]
  | ok => simp [Except.map]

end Gml
