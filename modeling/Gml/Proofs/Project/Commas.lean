import Gml.Project.Manifest
import Gml.Proofs.Json.Reading

/-!
# Commas behind last elements

A manifest may have one comma too many behind the last element of an array or an object. What such
a text stands for is said by a relation of three: a value, the text with these commas and the text
without them. Dropping the commas leads from the one text to the other, and the other is read as
the value. A text that is strict already is left as it is, whatever stands in its strings.
-/
namespace Gml

namespace Json

/-- Nothing but blanks. -/
def Blanks (cs : List Char) : Prop := ∀ c ∈ cs, isSpace c = true

/-- What may stand behind a last element, with a comma too many and without. -/
inductive Ending : List Char → List Char → Prop
  | plain : Ending [] []
  | comma {gap : List Char} (h : Blanks gap) : Ending (',' :: gap) gap

mutual

/-- A value, a text of it with commas behind last elements, and the same text without them. -/
inductive Renders : Json → List Char → List Char → Prop
  | null : Renders .null "null".toList "null".toList
  | ofTrue : Renders (.bool true) "true".toList "true".toList
  | ofFalse : Renders (.bool false) "false".toList "false".toList
  | number {cs : List Char} {value : Json} (h : Number cs value) : Renders value cs cs
  | str {cs : List Char} {s : Option String} (h : Literal cs s) :
      Renders (.str s) ('"' :: cs ++ ['"']) ('"' :: cs ++ ['"'])
  | emptyArr {gap : List Char} (h : Blanks gap) :
      Renders (.arr []) ('[' :: gap ++ [']']) ('[' :: gap ++ [']'])
  | arr {items : List Json} {loose strict extra kept : List Char}
      (hitems : RendersItems items loose strict) (hend : Ending extra kept) :
      Renders (.arr items) ('[' :: loose ++ extra ++ [']']) ('[' :: strict ++ kept ++ [']'])
  | emptyObj {gap : List Char} (h : Blanks gap) :
      Renders (.obj []) ('\x7b' :: gap ++ ['\x7d']) ('\x7b' :: gap ++ ['\x7d'])
  | obj {members : List (Option String × Json)} {loose strict extra kept : List Char}
      (hmembers : RendersMembers members loose strict) (hend : Ending extra kept) :
      Renders (.obj members) ('\x7b' :: loose ++ extra ++ ['\x7d'])
        ('\x7b' :: strict ++ kept ++ ['\x7d'])

/-- An item with blanks around it. -/
inductive RendersItem : Json → List Char → List Char → Prop
  | intro {item : Json} {before loose strict after : List Char} (hbefore : Blanks before)
      (hitem : Renders item loose strict) (hafter : Blanks after) :
      RendersItem item (before ++ loose ++ after) (before ++ strict ++ after)

/-- At least one item, and commas between them. -/
inductive RendersItems : List Json → List Char → List Char → Prop
  | last {item : Json} {loose strict : List Char} (hitem : RendersItem item loose strict) :
      RendersItems [item] loose strict
  | more {item : Json} {items : List Json} {loose strict looses stricts : List Char}
      (hitem : RendersItem item loose strict) (hitems : RendersItems items looses stricts) :
      RendersItems (item :: items) (loose ++ ',' :: looses) (strict ++ ',' :: stricts)

/-- A member with blanks around its name and its value. -/
inductive RendersMember : Option String × Json → List Char → List Char → Prop
  | intro {name : Option String} {value : Json} {before literal colon loose strict : List Char}
      (hbefore : Blanks before) (hname : Literal literal name) (hcolon : Blanks colon)
      (hvalue : RendersItem value loose strict) :
      RendersMember (name, value) (before ++ ('"' :: literal ++ ['"']) ++ colon ++ ':' :: loose)
        (before ++ ('"' :: literal ++ ['"']) ++ colon ++ ':' :: strict)

/-- At least one member, and commas between them. -/
inductive RendersMembers : List (Option String × Json) → List Char → List Char → Prop
  | last {member : Option String × Json} {loose strict : List Char}
      (hmember : RendersMember member loose strict) : RendersMembers [member] loose strict
  | more {member : Option String × Json} {members : List (Option String × Json)}
      {loose strict looses stricts : List Char} (hmember : RendersMember member loose strict)
      (hmembers : RendersMembers members looses stricts) :
      RendersMembers (member :: members) (loose ++ ',' :: looses) (strict ++ ',' :: stricts)

end

/-- A whole text of a value. -/
def RendersText (value : Json) (loose strict : String) : Prop :=
  RendersItem value loose.toList strict.toList

/-! ### The strict text -/

section

variable {cs rest : List Char}

theorem Blanks.gap (h : Blanks cs) (rest : List Char) : Gap (cs ++ rest) rest := by
  induction cs with
  | nil => exact .refl _
  | cons c cs ih =>
      obtain ⟨hc, hmore⟩ := List.forall_mem_cons.mp h
      exact .space hc (ih hmore)

theorem Ending.blanks {extra kept : List Char} (h : Ending extra kept) : Blanks kept := by
  cases h with
  | plain => exact nofun
  | comma h => exact h

end

mutual

/-- Without the commas too many, the value is written. -/
theorem Renders.writes {value : Json} {loose strict : List Char} (h : Renders value loose strict)
    (rest : List Char) : Writes (strict ++ rest) value rest := by
  match h with
  | .null => exact .null
  | .ofTrue => exact .ofTrue
  | .ofFalse => exact .ofFalse
  | .number h => exact .number h
  | .str h =>
      have hwrites := @Writes.str _ rest _ h
      simpa using hwrites
  | .emptyArr h =>
      have hwrites := Writes.emptyArr (h.gap (']' :: rest))
      simpa using hwrites
  | .arr hitems hend =>
      obtain ⟨inner, hgap, hwrites⟩ := hitems.writes (hend.blanks.gap (']' :: rest))
      have hwrites := Writes.arr hgap hwrites
      simpa using hwrites
  | .emptyObj h =>
      have hwrites := Writes.emptyObj (h.gap ('\x7d' :: rest))
      simpa using hwrites
  | .obj hmembers hend =>
      obtain ⟨inner, hgap, hwrites⟩ := hmembers.writes (hend.blanks.gap ('\x7d' :: rest))
      have hwrites := Writes.obj hgap hwrites
      simpa using hwrites

theorem RendersItem.writes {item : Json} {loose strict : List Char}
    (h : RendersItem item loose strict) (rest : List Char) :
    ∃ inner after, Gap (strict ++ rest) inner ∧ Writes inner item after ∧ Gap after rest := by
  match h with
  | @RendersItem.intro _ before _ strict after hbefore hitem hafter =>
      refine ⟨_, _, ?_, hitem.writes (after ++ rest), hafter.gap rest⟩
      simpa using hbefore.gap (strict ++ (after ++ rest))

theorem RendersItems.writes {items : List Json} {loose strict : List Char}
    (h : RendersItems items loose strict) {close rest : List Char}
    (hclose : Gap close (']' :: rest)) :
    ∃ inner, Gap (strict ++ close) inner ∧ WritesItems inner items rest := by
  match h with
  | .last hitem =>
      obtain ⟨inner, after, hbefore, hwrites, hafter⟩ := hitem.writes close
      exact ⟨inner, hbefore, .last hwrites (hafter.trans hclose)⟩
  | @RendersItems.more _ _ _ _ _ stricts hitem hitems =>
      obtain ⟨next, hnext, hothers⟩ := hitems.writes hclose
      obtain ⟨inner, after, hbefore, hwrites, hafter⟩ := hitem.writes (',' :: (stricts ++ close))
      refine ⟨inner, ?_, .more hwrites hafter hnext hothers⟩
      simpa using hbefore

theorem RendersMembers.writes {members : List (Option String × Json)} {loose strict : List Char}
    (h : RendersMembers members loose strict) {close rest : List Char}
    (hclose : Gap close ('\x7d' :: rest)) :
    ∃ inner, Gap (strict ++ close) inner ∧ WritesMembers inner members rest := by
  match h with
  | .last (@RendersMember.intro _ _ before literal colon _ strict hbefore hname hcolon hvalue) =>
      obtain ⟨inner, after, hbehind, hwrites, hafter⟩ := hvalue.writes close
      refine ⟨_, ?_, .last hname (hcolon.gap (':' :: (strict ++ close))) hbehind hwrites
        (hafter.trans hclose)⟩
      simpa using hbefore.gap ('"' :: (literal ++ '"' :: (colon ++ ':' :: (strict ++ close))))
  | @RendersMembers.more _ _ _ _ _ stricts
      (@RendersMember.intro _ _ before literal colon _ strict hbefore hname hcolon hvalue)
      hmembers =>
      obtain ⟨next, hnext, hothers⟩ := hmembers.writes hclose
      obtain ⟨inner, after, hbehind, hwrites, hafter⟩ := hvalue.writes (',' :: (stricts ++ close))
      refine ⟨_, ?_, .more hname (hcolon.gap (':' :: (strict ++ ',' :: (stricts ++ close)))) hbehind
        hwrites hafter hnext hothers⟩
      simpa using hbefore.gap
        ('"' :: (literal ++ '"' :: (colon ++ ':' :: (strict ++ ',' :: (stricts ++ close)))))

end

/-! ### Strict texts -/

theorem Gap.exists_blanks {cs rest : List Char} (h : Gap cs rest) :
    ∃ blanks, Blanks blanks ∧ cs = blanks ++ rest := by
  induction h with
  | refl => exact ⟨[], nofun, rfl⟩
  | @space c cs rest hc _ ih =>
      obtain ⟨blanks, hblanks, rfl⟩ := ih
      exact ⟨c :: blanks, List.forall_mem_cons.mpr ⟨hc, hblanks⟩, rfl⟩

mutual

/-- What is written is a text without a comma too many. -/
theorem Writes.renders {cs rest : List Char} {value : Json} (h : Writes cs value rest) :
    ∃ text, cs = text ++ rest ∧ Renders value text text := by
  match h with
  | .null => exact ⟨_, rfl, .null⟩
  | .ofTrue => exact ⟨_, rfl, .ofTrue⟩
  | .ofFalse => exact ⟨_, rfl, .ofFalse⟩
  | .number h => exact ⟨_, rfl, .number h⟩
  | .str h => exact ⟨_, by simp, .str h⟩
  | .emptyArr hgap =>
      obtain ⟨blanks, hblanks, rfl⟩ := hgap.exists_blanks
      exact ⟨_, by simp, .emptyArr hblanks⟩
  | .arr hgap hitems =>
      obtain ⟨text, rfl, hrenders⟩ := hitems.renders hgap
      exact ⟨_, by simp, .arr hrenders .plain⟩
  | .emptyObj hgap =>
      obtain ⟨blanks, hblanks, rfl⟩ := hgap.exists_blanks
      exact ⟨_, by simp, .emptyObj hblanks⟩
  | .obj hgap hmembers =>
      obtain ⟨text, rfl, hrenders⟩ := hmembers.renders hgap
      exact ⟨_, by simp, .obj hrenders .plain⟩

theorem WritesItems.renders {cs inner rest : List Char} {items : List Json}
    (h : WritesItems inner items rest) (hgap : Gap cs inner) :
    ∃ text, cs = text ++ ']' :: rest ∧ RendersItems items text text := by
  match h with
  | .last hitem hclose =>
      obtain ⟨before, hbefore, rfl⟩ := hgap.exists_blanks
      obtain ⟨text, rfl, hrenders⟩ := hitem.renders
      obtain ⟨after, hafter, rfl⟩ := hclose.exists_blanks
      exact ⟨_, by simp, .last (.intro hbefore hrenders hafter)⟩
  | .more hitem hcomma hnext hitems =>
      obtain ⟨before, hbefore, rfl⟩ := hgap.exists_blanks
      obtain ⟨text, rfl, hrenders⟩ := hitem.renders
      obtain ⟨after, hafter, rfl⟩ := hcomma.exists_blanks
      obtain ⟨others, rfl, hothers⟩ := hitems.renders hnext
      exact ⟨_, by simp, .more (.intro hbefore hrenders hafter) hothers⟩

theorem WritesMembers.renders {cs inner rest : List Char}
    {members : List (Option String × Json)} (h : WritesMembers inner members rest)
    (hgap : Gap cs inner) :
    ∃ text, cs = text ++ '\x7d' :: rest ∧ RendersMembers members text text := by
  match h with
  | .last hname hcolon hbehind hvalue hclose =>
      obtain ⟨before, hbefore, rfl⟩ := hgap.exists_blanks
      obtain ⟨colon, hcolons, rfl⟩ := hcolon.exists_blanks
      obtain ⟨behind, hblanks, rfl⟩ := hbehind.exists_blanks
      obtain ⟨text, rfl, hrenders⟩ := hvalue.renders
      obtain ⟨after, hafter, rfl⟩ := hclose.exists_blanks
      exact ⟨_, by simp, .last (.intro hbefore hname hcolons (.intro hblanks hrenders hafter))⟩
  | .more hname hcolon hbehind hvalue hcomma hnext hmembers =>
      obtain ⟨before, hbefore, rfl⟩ := hgap.exists_blanks
      obtain ⟨colon, hcolons, rfl⟩ := hcolon.exists_blanks
      obtain ⟨behind, hblanks, rfl⟩ := hbehind.exists_blanks
      obtain ⟨text, rfl, hrenders⟩ := hvalue.renders
      obtain ⟨after, hafter, rfl⟩ := hcomma.exists_blanks
      obtain ⟨others, rfl, hothers⟩ := hmembers.renders hnext
      exact ⟨_, by simp, .more (.intro hbefore hname hcolons (.intro hblanks hrenders hafter))
        hothers⟩

end

theorem read?_of_renders {value : Json} {loose strict : String}
    (h : RendersText value loose strict) : read? strict = some value := by
  obtain ⟨inner, after, hbefore, hwrites, hafter⟩ := h.writes []
  rw [List.append_nil] at hbefore
  exact read?_eq_some_iff.mpr ⟨inner, after, hbefore, hwrites, hafter⟩

/-- The strict text of a value is read as the value, and there are no others. -/
theorem read?_eq_some_iff_renders {text : String} {value : Json} :
    read? text = some value ↔ RendersText value text text := by
  constructor
  · rw [read?_eq_some_iff]
    rintro ⟨inner, after, hbefore, hwrites, hafter⟩
    obtain ⟨before, hblanks, htext⟩ := hbefore.exists_blanks
    obtain ⟨strict, rfl, hrenders⟩ := hwrites.renders
    obtain ⟨last, hlast, rfl⟩ := hafter.exists_blanks
    rw [RendersText, htext]
    have hitem := RendersItem.intro hblanks hrenders hlast
    simpa using hitem
  · exact read?_of_renders

end Json

namespace Manifest

open Json

/-! ### Dropping commas -/

/-- Whatever is held back before a text, it is given out, then what becomes of the text, and
nothing is held back behind it. -/
def Emits (cs out : List Char) : Prop :=
  ∀ held rest, dropCommas (.outside held) (cs ++ rest) =
    held.reverse ++ (out ++ dropCommas (.outside []) rest)

theorem isBlank_of_isSpace {c : Char} (h : isSpace c = true) : Text.isBlank c = true := by
  simp only [isSpace, Bool.or_eq_true, beq_iff_eq] at h
  rcases h with ((rfl | rfl) | rfl) | rfl <;> decide

/-- Whether a character has no meaning between values. -/
def isPlain (c : Char) : Bool :=
  !(c == ',' || c == '\x7d' || c == ']' || c == '"' || Text.isBlank c)

theorem dropCommas_space {c : Char} (h : isSpace c = true) (held cs : List Char) :
    dropCommas (.outside held) (c :: cs) =
      if held.isEmpty then c :: dropCommas (.outside []) cs
      else dropCommas (.outside (c :: held)) cs := by
  have hblank := isBlank_of_isSpace h
  simp only [isSpace, Bool.or_eq_true, beq_iff_eq] at h
  obtain ⟨hcomma, hbrace, hbracket⟩ : c ≠ ',' ∧ c ≠ '\x7d' ∧ c ≠ ']' := by
    rcases h with ((rfl | rfl) | rfl) | rfl <;> decide
  simp [dropCommas, hcomma, hbrace, hbracket, hblank]

theorem dropCommas_blanks {gap : List Char} (h : Blanks gap) (rest : List Char) :
    dropCommas (.outside []) (gap ++ rest) = gap ++ dropCommas (.outside []) rest := by
  induction gap with
  | nil => rfl
  | cons c gap ih =>
      obtain ⟨hc, hmore⟩ := List.forall_mem_cons.mp h
      rw [List.cons_append, dropCommas_space hc, List.isEmpty_nil, if_pos rfl, ih hmore,
        List.cons_append]

/-- Blanks behind a comma are held back with it. -/
theorem dropCommas_held {gap : List Char} (h : Blanks gap) (first : Char) (held rest : List Char) :
    dropCommas (.outside (first :: held)) (gap ++ rest) =
      dropCommas (.outside (gap.reverse ++ first :: held)) rest := by
  induction gap generalizing first held with
  | nil => rfl
  | cons c gap ih =>
      obtain ⟨hc, hmore⟩ := List.forall_mem_cons.mp h
      rw [List.cons_append, dropCommas_space hc, List.isEmpty_cons, if_neg Bool.false_ne_true,
        ih hmore, List.reverse_cons, List.append_assoc, List.singleton_append]

/-- A digit neither ends a string nor escapes anything. -/
theorem ne_of_digitValue? {c : Char} {n : Nat} (h : Numeral.digitValue? 16 c = some n) :
    c ≠ '"' ∧ c ≠ '\\' := by
  constructor
  · rintro rfl
    cases h
  · rintro rfl
    cases h

theorem ne_of_hexUnit? {a b c d : Char} {n : Nat} (h : hexUnit? a b c d = some n) :
    ∀ digit ∈ [a, b, c, d], digit ≠ '"' ∧ digit ≠ '\\' := by
  simp only [hexUnit?, Numeral.value?, List.isEmpty_cons, Bool.false_eq_true, if_false,
    List.foldlM_cons, List.foldlM_nil, Option.bind_eq_bind, Option.bind_eq_some_iff,
    Option.map_eq_some_iff] at h
  obtain ⟨_, ⟨_, ha, -⟩, _, ⟨_, hb, -⟩, _, ⟨_, hc, -⟩, _, ⟨_, hd, -⟩, -⟩ := h
  simp only [List.forall_mem_cons]
  exact ⟨ne_of_digitValue? ha, ne_of_digitValue? hb, ne_of_digitValue? hc, ne_of_digitValue? hd,
    nofun⟩

/-- What stands in a string stays, whatever it is. -/
theorem dropCommas_inString {cs : List Char} {pieces : List Piece} (h : LiteralParts cs pieces)
    (rest : List Char) :
    dropCommas .inString (cs ++ '"' :: rest) = cs ++ '"' :: dropCommas (.outside []) rest := by
  induction h with
  | nil => simp [dropCommas]
  | @cons part cs piece pieces hpart _ ih =>
      rw [List.append_assoc, List.append_assoc, ← ih]
      cases hpart with
      | char _ hquote hslash => simp [dropCommas, hquote, hslash]
      | escape => simp [dropCommas]
      | unit hunit =>
          have hdigits := ne_of_hexUnit? hunit
          simp only [List.forall_mem_cons] at hdigits
          obtain ⟨⟨ha, ha'⟩, ⟨hb, hb'⟩, ⟨hc, hc'⟩, ⟨hd, hd'⟩, -⟩ := hdigits
          simp [dropCommas, ha, ha', hb, hb', hc, hc', hd, hd']

/-! ### Numbers have no commas -/

theorem isPlain_of_isDigit {c : Char} (h : c.isDigit = true) : isPlain c = true := by
  have hdigit : 48 ≤ c.toNat ∧ c.toNat ≤ 57 := by
    simpa [Char.isDigit, UInt32.le_iff_toNat_le] using h
  have hblank : Text.isBlank c = false := by
    simp [Text.isBlank]
    omega
  have hne : ∀ other : Char, other.isDigit = false → c ≠ other := by
    rintro other hother rfl
    rw [hother] at h
    cases h
  simp [isPlain, hblank, hne]

end Manifest

namespace Json

open Manifest (isPlain isPlain_of_isDigit)

variable {cs : List Char} {c : Char}

theorem Digits.plain (h : Digits cs) (hc : c ∈ cs) : isPlain c = true :=
  isPlain_of_isDigit (h.digits c hc)

theorem Whole.plain (h : Whole cs) (hc : c ∈ cs) : isPlain c = true := by
  cases h with
  | zero =>
      rw [List.mem_singleton.mp hc]
      decide
  | digits h _ => exact h.plain hc

theorem Fraction.plain (h : Fraction cs) (hc : c ∈ cs) : isPlain c = true := by
  cases h with
  | none => cases hc
  | point h =>
      rcases List.mem_cons.mp hc with rfl | hc
      · decide
      · exact h.plain hc

theorem Exponent.plain (h : Exponent cs) (hc : c ∈ cs) : isPlain c = true := by
  cases h with
  | none => cases hc
  | unsigned he h =>
      rcases List.mem_cons.mp hc with rfl | hc
      · rcases he with rfl | rfl <;> decide
      · exact h.plain hc
  | signed he hsign h =>
      rcases List.mem_cons.mp hc with rfl | hc
      · rcases he with rfl | rfl <;> decide
      rcases List.mem_cons.mp hc with rfl | hc
      · rcases hsign with rfl | rfl <;> decide
      · exact h.plain hc

theorem Number.plain {value : Json} (h : Number cs value) : ∀ c ∈ cs, isPlain c = true := by
  obtain ⟨hsign, hwhole, hfraction, hexponent⟩ := h
  intro c hc
  simp only [List.mem_append] at hc
  rcases hc with ((hc | hc) | hc) | hc
  · rcases hsign with rfl | rfl
    · cases hc
    · rw [List.mem_singleton.mp hc]
      decide
  · exact hwhole.plain hc
  · exact hfraction.plain hc
  · exact hexponent.plain hc

theorem Number.ne_nil {value : Json} (h : Number cs value) : cs ≠ [] := by
  obtain ⟨c, tail, rfl, -⟩ := h.head
  exact List.cons_ne_nil c tail

end Json

namespace Manifest

open Json

/-! ### Texts around values -/

namespace Emits

variable {cs out cs' out' gap : List Char} {c : Char}

theorem append (h : Emits cs out) (h' : Emits cs' out') : Emits (cs ++ cs') (out ++ out') := by
  intro held rest
  rw [List.append_assoc, h, h', List.reverse_nil, List.nil_append, List.append_assoc]

theorem plain (h : isPlain c = true) : Emits [c] [c] := by
  simp only [isPlain, Bool.not_eq_true', Bool.or_eq_false_iff, beq_eq_false_iff_ne] at h
  obtain ⟨⟨⟨⟨hcomma, hbrace⟩, hbracket⟩, hquote⟩, hblank⟩ := h
  intro held rest
  simp [dropCommas, hcomma, hbrace, hbracket, hquote, hblank]

theorem of_plain (hne : cs ≠ []) (h : ∀ c ∈ cs, isPlain c = true) : Emits cs cs := by
  induction cs with
  | nil => exact absurd rfl hne
  | cons c cs ih =>
      obtain ⟨hc, hmore⟩ := List.forall_mem_cons.mp h
      cases cs with
      | nil => exact plain hc
      | cons next cs => exact (plain hc).append (ih (List.cons_ne_nil _ _) hmore)

theorem string {s : Option String} (h : Literal cs s) :
    Emits ('"' :: cs ++ ['"']) ('"' :: cs ++ ['"']) := by
  obtain ⟨pieces, hparts, -⟩ := h
  intro held rest
  have hquote : Text.isBlank '"' = false := by decide
  simp [dropCommas, hquote, dropCommas_inString hparts]

/-- Blanks before a text are given out before it, also if a comma is held back. -/
theorem behind_blanks (hgap : Blanks gap) (h : Emits cs out) : Emits (gap ++ cs) (gap ++ out) := by
  intro held rest
  cases held with
  | nil =>
      rw [List.append_assoc, dropCommas_blanks hgap, h, List.reverse_nil, List.nil_append,
        List.nil_append, List.append_assoc]
  | cons first held =>
      rw [List.append_assoc, dropCommas_held hgap, h]
      simp

theorem before_blanks (h : Emits cs out) (hgap : Blanks gap) : Emits (cs ++ gap) (out ++ gap) := by
  intro held rest
  rw [List.append_assoc, h, dropCommas_blanks hgap, List.append_assoc]

/-- A comma that something follows stays. -/
theorem comma (h : Emits cs out) (h' : Emits cs' out') :
    Emits (cs ++ ',' :: cs') (out ++ ',' :: out') := by
  have hcomma : Emits (',' :: cs') (',' :: out') := by
    intro held rest
    have hheld : dropCommas (.outside held) (',' :: cs' ++ rest) =
        held.reverse ++ dropCommas (.outside [',']) (cs' ++ rest) := by
      rw [List.cons_append, dropCommas, if_pos rfl]
    rw [hheld, h', List.reverse_singleton]
    rfl
  exact h.append hcomma

/-- A comma that a closing bracket follows goes. -/
theorem close {extra kept : List Char} (h : Emits cs out) (hend : Ending extra kept)
    (hc : c = ']' ∨ c = '\x7d') : Emits (cs ++ extra ++ [c]) (out ++ kept ++ [c]) := by
  have hcomma : c ≠ ',' := by
    rcases hc with rfl | rfl <;> decide
  have hclose : ∀ held rest, dropCommas (.outside held) (c :: rest) =
      held.reverse.drop 1 ++ c :: dropCommas (.outside []) rest := by
    intro held rest
    rw [dropCommas, if_neg hcomma, if_pos (by simpa using hc.symm)]
  intro held rest
  rw [List.append_assoc, List.append_assoc, h, List.append_assoc, List.append_assoc]
  cases hend with
  | plain => simp [hclose]
  | comma hgap =>
      rw [List.cons_append, dropCommas, if_pos rfl, List.reverse_nil, List.nil_append,
        dropCommas_held hgap, List.singleton_append, hclose]
      simp

theorem number {value : Json} (h : Number cs value) : Emits cs cs :=
  of_plain h.ne_nil h.plain

end Emits

mutual

/-- From a text with commas behind last elements comes the text without them. -/
theorem emits_renders {value : Json} {loose strict : List Char} (h : Renders value loose strict) :
    Emits loose strict := by
  match h with
  | .null => exact .of_plain (by decide) (List.all_eq_true.mp rfl)
  | .ofTrue => exact .of_plain (by decide) (List.all_eq_true.mp rfl)
  | .ofFalse => exact .of_plain (by decide) (List.all_eq_true.mp rfl)
  | .number h => exact .number h
  | .str h => exact .string h
  | .emptyArr h =>
      have hopen : Emits ['['] ['['] := .plain rfl
      simpa using (hopen.before_blanks h).close .plain (.inl rfl)
  | .arr hitems hend =>
      have hopen : Emits ['['] ['['] := .plain rfl
      exact (hopen.append (emits_items hitems)).close hend (.inl rfl)
  | .emptyObj h =>
      have hopen : Emits ['\x7b'] ['\x7b'] := .plain rfl
      simpa using (hopen.before_blanks h).close .plain (.inr rfl)
  | .obj hmembers hend =>
      have hopen : Emits ['\x7b'] ['\x7b'] := .plain rfl
      exact (hopen.append (emits_members hmembers)).close hend (.inr rfl)

theorem emits_item {item : Json} {loose strict : List Char} (h : RendersItem item loose strict) :
    Emits loose strict := by
  match h with
  | .intro hbefore hitem hafter =>
      exact ((emits_renders hitem).behind_blanks hbefore).before_blanks hafter

theorem emits_items {items : List Json} {loose strict : List Char}
    (h : RendersItems items loose strict) : Emits loose strict := by
  match h with
  | .last hitem => exact emits_item hitem
  | .more hitem hitems => exact (emits_item hitem).comma (emits_items hitems)

theorem emits_members {members : List (Option String × Json)} {loose strict : List Char}
    (h : RendersMembers members loose strict) : Emits loose strict := by
  match h with
  | .last (.intro hbefore hname hcolon hvalue) =>
      have hbeforeColon := ((Emits.string hname).behind_blanks hbefore).before_blanks hcolon
      have hsep : Emits [':'] [':'] := .plain rfl
      exact hbeforeColon.append (hsep.append (emits_item hvalue))
  | .more (.intro hbefore hname hcolon hvalue) hmembers =>
      have hbeforeColon := ((Emits.string hname).behind_blanks hbefore).before_blanks hcolon
      have hsep : Emits [':'] [':'] := .plain rfl
      have hmember := hbeforeColon.append (hsep.append (emits_item hvalue))
      exact hmember.comma (emits_members hmembers)

end

theorem stripTrailingCommas_of_renders {value : Json} {loose strict : String}
    (h : RendersText value loose strict) : stripTrailingCommas loose = strict := by
  have hemits := emits_item h [] []
  rw [List.append_nil] at hemits
  rw [stripTrailingCommas, hemits, ← String.toList_inj, String.toList_ofList]
  simp [dropCommas]

/-- Of a text with commas behind last elements the strict text is left, which is read as the value
that both render. A text that is read as a value renders it without any such comma, and nothing is
dropped from it. -/
theorem only_trailing_commas_are_dropped :
    (∀ value loose strict, RendersText value loose strict →
      stripTrailingCommas loose = strict ∧ Json.read? strict = some value ∧
        parse? loose = ofJson? value) ∧
    ∀ text value, Json.read? text = some value →
      RendersText value text text ∧ stripTrailingCommas text = text := by
  refine ⟨fun value loose strict h => ?_, fun text value h => ?_⟩
  · have hstrip := stripTrailingCommas_of_renders h
    have hread := read?_of_renders h
    refine ⟨hstrip, hread, ?_⟩
    rw [parse?, hstrip, hread, Option.bind_some]
  · have hrenders := read?_eq_some_iff_renders.mp h
    exact ⟨hrenders, stripTrailingCommas_of_renders hrenders⟩

theorem commas_behind_a_string_and_a_member :
    RendersText (.obj [(some "a", .arr [.text "],\""])]) "\x7b\"a\": [\"],\\\"\" , ] ,\x7d"
        "\x7b\"a\": [\"],\\\"\"  ] \x7d" ∧
      stripTrailingCommas "\x7b\"a\": [\"],\\\"\" , ] ,\x7d" = "\x7b\"a\": [\"],\\\"\"  ] \x7d" := by
  have hname : Literal ['a'] (some "a") :=
    ⟨[.char 'a'], .cons (.char (by decide) (by decide) (by decide)) .nil, by decide⟩
  have hparts : LiteralParts [']', ',', '\\', '"'] [.char ']', .char ',', .char '"'] :=
    .cons (.char (by decide) (by decide) (by decide))
      (.cons (.char (by decide) (by decide) (by decide)) (.cons (.escape rfl) .nil))
  have hliteral : Literal [']', ',', '\\', '"'] (some "],\"") := ⟨_, hparts, by decide⟩
  have hnone : Blanks [] := nofun
  have hone : Blanks [' '] := by simp [Blanks, isSpace]
  have hitem := RendersItem.intro hnone (.str hliteral) hone
  have hvalue := RendersItem.intro hone (.arr (.last hitem) (.comma hone)) hone
  have hmember := RendersMember.intro hnone hname hnone hvalue
  have hobject := Renders.obj (.last hmember) (.comma hnone)
  have hrenders : RendersText (.obj [(some "a", .arr [.text "],\""])])
      "\x7b\"a\": [\"],\\\"\" , ] ,\x7d" "\x7b\"a\": [\"],\\\"\"  ] \x7d" := by
    simpa [RendersText, text] using RendersItem.intro hnone hobject hnone
  exact ⟨hrenders, (only_trailing_commas_are_dropped.1 _ _ _ hrenders).1⟩

end Manifest

end Gml
