import Gml.Proofs.Json.Grammar
import Mathlib.Data.List.TakeWhile

/-!
# What is read was written

Whatever the reader takes from the front of a text is a value written there in one of the ways that
there are. So a text is read as a value exactly if it writes this value, with blanks around it.
-/
namespace Gml.Json

variable {cs rest : List Char}

theorem gap_skipSpace (cs : List Char) : Gap cs (skipSpace cs) := by
  induction cs with
  | nil => exact .refl _
  | cons c cs ih =>
      cases hc : isSpace c with
      | true =>
          have hskip : skipSpace (c :: cs) = skipSpace cs := List.dropWhile_cons_of_pos hc
          rw [hskip]
          exact .space hc ih
      | false =>
          rw [skipSpace_cons hc]
          exact .refl _

/-- What is found behind blanks stands there. -/
theorem gap_of_skipSpace {inner : List Char} (h : skipSpace cs = inner) : Gap cs inner :=
  h ▸ gap_skipSpace cs

theorem Gap.trans {inner : List Char} (h : Gap cs inner) (h' : Gap inner rest) : Gap cs rest := by
  induction h with
  | refl => exact h'
  | space hc _ ih => exact .space hc (ih h')

/-! ### Numbers -/

theorem digits_of_read {digits : List Char} (h : readDigits? cs = some (digits, rest)) :
    cs = digits ++ rest ∧ Digits digits := by
  rw [readDigits?] at h
  split at h
  · cases h
  next hne =>
      cases h
      refine ⟨List.takeWhile_append_dropWhile.symm, hne, fun c hc => ?_⟩
      exact List.mem_takeWhile_imp hc

theorem whole_of_read {whole : List Char} (h : readWhole? cs = some (whole, rest)) :
    cs = whole ++ rest ∧ Whole whole := by
  rw [readWhole?.eq_def] at h
  split at h
  · cases h
    exact ⟨rfl, .zero⟩
  next hzero =>
      obtain ⟨hcs, hdigits⟩ := digits_of_read h
      refine ⟨hcs, .digits hdigits fun hhead => ?_⟩
      obtain ⟨tail, hwhole⟩ := List.head?_eq_some_iff.mp hhead
      exact hzero (tail ++ rest) (by rw [hcs, hwhole, List.cons_append])

theorem fraction_of_read {fraction : List Char} (h : readFraction? cs = some (fraction, rest)) :
    cs = fraction ++ rest ∧ Fraction fraction := by
  rw [readFraction?.eq_def] at h
  split at h
  · obtain ⟨⟨digits, after⟩, hread, heq⟩ := Option.map_eq_some_iff.mp h
    cases heq
    obtain ⟨rfl, hdigits⟩ := digits_of_read hread
    exact ⟨rfl, .point hdigits⟩
  · cases h
    exact ⟨rfl, .none⟩

theorem exponent_of_read {exponent : List Char} (h : readExponent? cs = some (exponent, rest)) :
    cs = exponent ++ rest ∧ Exponent exponent := by
  rw [readExponent?.eq_def] at h
  split at h
  next e after =>
      split at h
      next hmark =>
          have he : e = 'e' ∨ e = 'E' := by simpa using hmark
          split at h
          · obtain ⟨⟨digits, behind⟩, hread, heq⟩ := Option.map_eq_some_iff.mp h
            cases heq
            obtain ⟨rfl, hdigits⟩ := digits_of_read hread
            exact ⟨rfl, .signed he (.inl rfl) hdigits⟩
          · obtain ⟨⟨digits, behind⟩, hread, heq⟩ := Option.map_eq_some_iff.mp h
            cases heq
            obtain ⟨rfl, hdigits⟩ := digits_of_read hread
            exact ⟨rfl, .signed he (.inr rfl) hdigits⟩
          · obtain ⟨⟨digits, behind⟩, hread, heq⟩ := Option.map_eq_some_iff.mp h
            cases heq
            obtain ⟨rfl, hdigits⟩ := digits_of_read hread
            exact ⟨rfl, .unsigned he hdigits⟩
      next =>
          cases h
          exact ⟨rfl, .none⟩
  next =>
      cases h
      exact ⟨rfl, .none⟩

theorem number_of_read {value : Json} (h : readNumber cs = some (value, rest)) :
    ∃ text, cs = text ++ rest ∧ Number text value := by
  rw [readNumber.eq_def] at h
  split at h
  next sign unsigned hmatch =>
      obtain ⟨hcs, hsign⟩ : cs = sign ++ unsigned ∧ (sign = [] ∨ sign = ['-']) := by
        split at hmatch
        · cases hmatch
          exact ⟨rfl, .inr rfl⟩
        · cases hmatch
          exact ⟨rfl, .inl rfl⟩
      obtain ⟨⟨whole, after⟩, hwhole, h⟩ := Option.bind_eq_some_iff.mp h
      obtain ⟨⟨fraction, behind⟩, hfraction, h⟩ := Option.bind_eq_some_iff.mp h
      obtain ⟨⟨exponent, last⟩, hexponent, h⟩ := Option.bind_eq_some_iff.mp h
      obtain ⟨hunsigned, hwhole⟩ := whole_of_read hwhole
      obtain ⟨hafter, hfraction⟩ := fraction_of_read hfraction
      obtain ⟨hbehind, hexponent⟩ := exponent_of_read hexponent
      have hread : some (numberOf sign whole fraction exponent, last) = some (value, rest) := by
        rw [← h, numberOf.eq_def]
        cases sign <;> cases fraction <;> cases exponent <;> rfl
      obtain ⟨hvalue, rfl⟩ := Prod.mk.inj (Option.some.inj hread)
      refine ⟨sign ++ whole ++ fraction ++ exponent, ?_,
        hvalue ▸ .parts hsign hwhole hfraction hexponent⟩
      rw [hcs, hunsigned, hafter, hbehind]
      simp only [List.append_assoc]

/-! ### Strings -/

theorem parts_of_readPieces {done pieces : List Piece}
    (h : readPieces cs done = some (pieces, rest)) :
    ∃ text found, cs = text ++ '"' :: rest ∧ LiteralParts text found ∧
      pieces = done.reverse ++ found := by
  fun_induction readPieces cs done with
  | case1 after done =>
      cases h
      exact ⟨[], [], rfl, .nil, (List.append_nil _).symm⟩
  | case2 a b c d after done n hunit ih =>
      obtain ⟨text, found, rfl, hparts, rfl⟩ := ih h
      exact ⟨_, _, rfl, .cons (.unit hunit) hparts, by simp⟩
  | case3 => cases h
  | case4 e after done _ c hescape ih =>
      obtain ⟨text, found, rfl, hparts, rfl⟩ := ih h
      exact ⟨_, _, rfl, .cons (.escape hescape) hparts, by simp⟩
  | case5 => cases h
  | case6 => cases h
  | case7 c after done hquote _ _ hplain ih =>
      obtain ⟨hslash, hcontrol⟩ : c ≠ '\\' ∧ 0x20 ≤ c.toNat := by simpa using hplain
      obtain ⟨text, found, rfl, hparts, rfl⟩ := ih h
      exact ⟨_, _, rfl, .cons (.char hcontrol hquote hslash) hparts, by simp⟩
  | case8 => cases h

theorem literal_of_read {s : Option String} (h : readString cs = some (s, rest)) :
    ∃ text, cs = text ++ '"' :: rest ∧ Literal text s := by
  obtain ⟨⟨pieces, after⟩, hread, heq⟩ := Option.map_eq_some_iff.mp h
  cases heq
  obtain ⟨text, found, rfl, hparts, rfl⟩ := parts_of_readPieces hread
  exact ⟨text, rfl, _, hparts, rfl⟩

/-! ### Values -/

/-- What the reader takes in some number of steps is written at the front, behind blanks. -/
structure Took (n : Nat) : Prop where
  value {cs rest : List Char} {value : Json} (h : readValue n cs = some (value, rest)) :
    ∃ inner, Gap cs inner ∧ Writes inner value rest
  items {cs rest : List Char} {items : List Json} (h : readItems n cs = some (items, rest)) :
    ∃ inner, Gap cs inner ∧ WritesItems inner items rest
  members {cs rest : List Char} {members : List (Option String × Json)}
    (h : readMembers n cs = some (members, rest)) :
    ∃ inner, Gap cs inner ∧ WritesMembers inner members rest

namespace Took

variable {n : Nat}

theorem readValue_succ (ih : Took n) {value : Json}
    (h : readValue (n + 1) cs = some (value, rest)) :
    ∃ inner, Gap cs inner ∧ Writes inner value rest := by
  rw [readValue] at h
  split at h
  next hcs =>
      cases h
      exact ⟨_, gap_of_skipSpace hcs, .null⟩
  next hcs =>
      cases h
      exact ⟨_, gap_of_skipSpace hcs, .ofTrue⟩
  next hcs =>
      cases h
      exact ⟨_, gap_of_skipSpace hcs, .ofFalse⟩
  next hcs =>
      obtain ⟨⟨s, after⟩, hread, heq⟩ := Option.map_eq_some_iff.mp h
      cases heq
      obtain ⟨text, rfl, hliteral⟩ := literal_of_read hread
      exact ⟨_, gap_of_skipSpace hcs, .str hliteral⟩
  next hcs =>
      split at h
      next hclose =>
          cases h
          exact ⟨_, gap_of_skipSpace hcs, .emptyArr (gap_of_skipSpace hclose)⟩
      next =>
          obtain ⟨⟨items, after⟩, hread, heq⟩ := Option.map_eq_some_iff.mp h
          cases heq
          obtain ⟨inner, hgap, hitems⟩ := ih.items hread
          exact ⟨_, gap_of_skipSpace hcs, .arr ((gap_skipSpace _).trans hgap) hitems⟩
  next hcs =>
      split at h
      next hclose =>
          cases h
          exact ⟨_, gap_of_skipSpace hcs, .emptyObj (gap_of_skipSpace hclose)⟩
      next =>
          obtain ⟨⟨members, after⟩, hread, heq⟩ := Option.map_eq_some_iff.mp h
          cases heq
          obtain ⟨inner, hgap, hmembers⟩ := ih.members hread
          exact ⟨_, gap_of_skipSpace hcs, .obj ((gap_skipSpace _).trans hgap) hmembers⟩
  next hcs =>
      split at h
      · obtain ⟨text, hfront, hnumber⟩ := number_of_read h
        exact ⟨_, gap_of_skipSpace hcs, hfront ▸ .number hnumber⟩
      · cases h
  · cases h

theorem readItems_succ (ih : Took n) {items : List Json}
    (h : readItems (n + 1) cs = some (items, rest)) :
    ∃ inner, Gap cs inner ∧ WritesItems inner items rest := by
  rw [readItems] at h
  split at h
  · cases h
  next item after hitem =>
      obtain ⟨inner, hgap, hitem⟩ := ih.value hitem
      split at h
      next hcomma =>
          obtain ⟨⟨others, behind⟩, hread, heq⟩ := Option.map_eq_some_iff.mp h
          cases heq
          obtain ⟨next, hnext, hitems⟩ := ih.items hread
          exact ⟨inner, hgap, .more hitem (gap_of_skipSpace hcomma) hnext hitems⟩
      next hclose =>
          cases h
          exact ⟨inner, hgap, .last hitem (gap_of_skipSpace hclose)⟩
      · cases h

theorem readMembers_succ (ih : Took n) {members : List (Option String × Json)}
    (h : readMembers (n + 1) cs = some (members, rest)) :
    ∃ inner, Gap cs inner ∧ WritesMembers inner members rest := by
  rw [readMembers] at h
  split at h
  next hquote =>
      split at h
      · cases h
      next name after hname =>
          obtain ⟨text, rfl, hliteral⟩ := literal_of_read hname
          split at h
          next hcolon =>
              split at h
              · cases h
              next value behind hvalue =>
                  obtain ⟨inner, hbefore, hvalue⟩ := ih.value hvalue
                  have hcolon := gap_of_skipSpace hcolon
                  split at h
                  next hcomma =>
                      obtain ⟨⟨others, last⟩, hread, heq⟩ := Option.map_eq_some_iff.mp h
                      cases heq
                      obtain ⟨next, hnext, hmembers⟩ := ih.members hread
                      exact ⟨_, gap_of_skipSpace hquote, .more hliteral hcolon hbefore hvalue
                        (gap_of_skipSpace hcomma) hnext hmembers⟩
                  next hclose =>
                      cases h
                      exact ⟨_, gap_of_skipSpace hquote, .last hliteral hcolon hbefore hvalue
                        (gap_of_skipSpace hclose)⟩
                  · cases h
          · cases h
  · cases h

theorem all (n : Nat) : Took n := by
  induction n with
  | zero => exact ⟨nofun, nofun, nofun⟩
  | succ n ih => exact ⟨ih.readValue_succ, ih.readItems_succ, ih.readMembers_succ⟩

end Took

/-- A text is read as the value that it writes, and as no other. -/
theorem read?_eq_some_iff {text : String} {value : Json} : read? text = some value ↔
    ∃ inner after, Gap text.toList inner ∧ Writes inner value after ∧ Gap after [] := by
  constructor
  · intro h
    rw [read?] at h
    split at h
    next found after hread =>
        split at h
        next hend =>
            cases h
            obtain ⟨inner, hgap, hvalue⟩ := (Took.all _).value hread
            exact ⟨inner, after, hgap, hvalue, gap_of_skipSpace (List.isEmpty_iff.mp hend)⟩
        · cases h
    · cases h
  · rintro ⟨inner, after, hbefore, hvalue, hafter⟩
    exact read?_of_writes hbefore hvalue hafter

end Gml.Json
