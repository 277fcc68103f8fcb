import Gml.Project.DocumentKind
import Gml.Proofs.Name
import Gml.Proofs.Path

/-!
# Paths as bytes

The path of a document that an editor names is judged byte by byte, one character for each byte,
and the path of a file that was found as a text. Bytes beyond ASCII are neither slashes nor dots,
so the parts of the bytes are the bytes of the parts, and both readings give one kind of document.
-/
namespace Gml

namespace FilePath

variable {c : Char} {cs ending : List Char} {name path : String}

/-- The path that is written by a text. -/
def ofText (path : String) : FilePath := ⟨path.toUTF8.data.toList⟩

/-- The bytes of a character, with one character for each. -/
def spellChar (c : Char) : List Char :=
  (String.utf8EncodeChar c).map fun b => Char.ofNat b.toNat

/-- The bytes of some characters, with one character for each. -/
def spellChars (cs : List Char) : List Char := cs.flatMap spellChar

/-- The bytes of a text, with one character for each. -/
def spell (s : String) : String := String.ofList (spellChars s.toList)

theorem byteText_ofText (path : String) : (ofText path).byteText = spell path := by
  rw [byteText, ofText, Name.bytes_eq, List.map_flatMap]
  rfl

/-! ### Characters -/

theorem toNat_charOfByte (b : UInt8) : (Char.ofNat b.toNat).toNat = b.toNat := by
  have hall : ∀ n < 256, (Char.ofNat n).toNat = n := by decide +kernel
  exact hall b.toNat b.toNat_lt

theorem spellChar_of_lt (h : c.toNat < 128) : spellChar c = [c] := by
  have hbyte : (UInt8.ofNat c.toNat).toNat = c.toNat := by
    rw [UInt8.toNat_ofNat', Nat.mod_eq_of_lt (by omega)]
  rw [spellChar, Name.utf8EncodeChar_of_lt h, List.map_singleton, hbyte, Char.ofNat_toNat]

theorem spellChar_of_le (h : 128 ≤ c.toNat) : ∀ d ∈ spellChar c, 128 ≤ d.toNat := by
  have hgt : ¬c.val.toNat ≤ 127 := Nat.not_le.mpr h
  have hbytes : ∀ b ∈ String.utf8EncodeChar c, 128 ≤ b.toNat := by
    unfold String.utf8EncodeChar
    dsimp only
    rw [if_neg hgt]
    split_ifs
    all_goals
      simp only [List.forall_mem_cons, UInt8.toNat_ofNat', List.not_mem_nil, false_imp_iff,
        implies_true, and_true]
      omega
  intro d hd
  obtain ⟨b, hb, rfl⟩ := List.mem_map.mp hd
  rw [toNat_charOfByte]
  exact hbytes b hb

theorem spellChar_ne_nil (c : Char) : spellChar c ≠ [] := by
  simp [spellChar, String.utf8EncodeChar_ne_nil]

theorem spellChars_ascii (h : ∀ c ∈ cs, c.toNat < 128) : spellChars cs = cs := by
  induction cs with
  | nil => rfl
  | cons c cs ih =>
      obtain ⟨hc, hmore⟩ := List.forall_mem_cons.mp h
      rw [spellChars, List.flatMap_cons, spellChar_of_lt hc, ← spellChars, ih hmore,
        List.singleton_append]

theorem spellChars_append (cs ds : List Char) :
    spellChars (cs ++ ds) = spellChars cs ++ spellChars ds := List.flatMap_append

theorem spell_append (s s' : String) : spell (s ++ s') = spell s ++ spell s' := by
  rw [spell, String.toList_append, spellChars_append, String.ofList_append]
  rfl

theorem spell_ascii {s : String} (h : ∀ c ∈ s.toList, c.toNat < 128) : spell s = s := by
  rw [spell, spellChars_ascii h, String.ofList_toList]

/-- An end in ASCII is that of the text itself. -/
theorem exists_of_spellChars_eq_append {front : List Char} (hascii : ∀ c ∈ ending, c.toNat < 128)
    (h : spellChars cs = front ++ ending) :
    ∃ before, cs = before ++ ending ∧ spellChars before = front := by
  induction ending using List.reverseRecOn generalizing cs with
  | nil => exact ⟨cs, (List.append_nil cs).symm, h.trans (List.append_nil front)⟩
  | append_singleton ending d ih =>
      have hd : d.toNat < 128 := hascii d (by simp)
      rcases List.eq_nil_or_concat cs with rfl | ⟨before, c, rfl⟩
      · cases front <;> simp [spellChars] at h
      · have hlast : spellChars before ++ spellChar c = (front ++ ending) ++ [d] := by
          simpa [spellChars] using h
        have hmem : d ∈ spellChar c := by
          have hsome := congrArg List.getLast? hlast
          rw [List.getLast?_append, List.getLast?_concat] at hsome
          cases hc : (spellChar c).getLast? with
          | none => exact absurd (List.getLast?_eq_none_iff.mp hc) (spellChar_ne_nil c)
          | some last =>
              rw [hc, Option.some_or] at hsome
              exact Option.some.inj hsome ▸ List.mem_of_getLast? hc
        have hc : c.toNat < 128 := by
          by_contra hge
          exact absurd (spellChar_of_le (Nat.not_lt.mp hge) d hmem) (Nat.not_le.mpr hd)
        rw [spellChar_of_lt hc] at hlast hmem
        obtain rfl := List.mem_singleton.mp hmem
        obtain ⟨rest, rfl, hrest⟩ := ih (fun e he => hascii e (by simp [he]))
          (List.append_cancel_right hlast)
        exact ⟨rest, by simp, hrest⟩

/-- The bytes are read back as the text. -/
theorem nameText?_spell (name : String) : nameText? (spell name) = some name := by
  have hback : ∀ b : UInt8, UInt8.ofNat (Char.ofNat b.toNat).toNat = b := fun b => by
    rw [toNat_charOfByte, UInt8.ofNat_toNat]
  have hbytes : (spellChars name.toList).map (fun c => UInt8.ofNat c.toNat) =
      name.toUTF8.data.toList := by
    rw [Name.bytes_eq, spellChars, List.map_flatMap]
    refine List.flatMap_congr fun c _ => ?_
    rw [spellChar, List.map_map]
    exact (List.map_congr_left fun b _ => hback b).trans (List.map_id _)
  rw [nameText?, spell, String.toList_ofList, hbytes, decode?, Array.toArray_toList]
  simp only [String.fromUTF8?, String.toUTF8_eq_toByteArray, dif_pos name.isValidUTF8]
  rfl

theorem spell_injective {s s' : String} (h : spell s = spell s') : s = s' := by
  rw [← Option.some_inj, ← nameText?_spell, h, nameText?_spell]

/-! ### Parts -/

theorem slash_notMem_spellChar (h : c ≠ '/') : '/' ∉ spellChar c := by
  intro hmem
  rcases Nat.lt_or_ge c.toNat 128 with hlt | hge
  · rw [spellChar_of_lt hlt] at hmem
    exact h (List.mem_singleton.mp hmem).symm
  · exact absurd (spellChar_of_le hge '/' hmem) (by decide)

theorem splitAll_spellChars (cs : List Char) :
    Text.splitAll (· == '/') (spellChars cs) =
      (Text.splitAll (· == '/') cs).map spellChars := by
  induction cs with
  | nil => rfl
  | cons c cs ih =>
      rw [spellChars, List.flatMap_cons, ← spellChars]
      by_cases hc : c = '/'
      · subst hc
        have hslash : spellChar '/' = ['/'] := spellChar_of_lt (by decide)
        have hcut : ∀ cs, Text.splitAll (· == '/') ('/' :: cs) = [] :: Text.splitAll (· == '/') cs :=
          fun _ => rfl
        rw [hslash, List.singleton_append, hcut, hcut, ih]
        rfl
      · have hfree : ∀ d ∈ spellChar c, (d == '/') = false := by
          intro d hd
          rw [beq_eq_false_iff_ne]
          rintro rfl
          exact slash_notMem_spellChar hc hd
        have hself : ∀ d ∈ [c], (d == '/') = false := by simpa using hc
        have hcut := Text.splitAll_append_left hself cs
        rw [List.singleton_append] at hcut
        rw [Text.splitAll_append_left hfree, hcut, ih]
        cases Text.splitAll (· == '/') cs with
        | nil => rfl
        | cons part parts => simp [spellChars]

theorem parts_spell (path : String) : Path.parts (spell path) = (Path.parts path).map spell := by
  rw [Path.parts, spell, String.toList_ofList, splitAll_spellChars, Path.parts, List.map_map,
    List.map_map]
  refine List.map_congr_left fun part _ => ?_
  rw [Function.comp_apply, Function.comp_apply, spell, String.toList_ofList]

/-- A component of a path as bytes. -/
def spellComponent : PathComponent → PathComponent
  | .normal name => .normal (spell name)
  | component => component

theorem component?_spell (name : String) :
    Path.component? (spell name) = (Path.component? name).map spellComponent := by
  have hempty : spell "" = "" := spell_ascii (by simp)
  have hhere : spell "." = "." := spell_ascii (by simp)
  have hup : spell ".." = ".." := spell_ascii (by simp)
  by_cases h : name = "" ∨ name = "." ∨ name = ".."
  · rcases h with rfl | rfl | rfl
    · rw [hempty]; rfl
    · rw [hhere]; rfl
    · rw [hup]; rfl
  · rw [not_or, not_or] at h
    rw [Path.component?_eq_normal h.1 h.2.1 h.2.2,
      Path.component?_eq_normal (fun heq => h.1 (spell_injective (heq.trans hempty.symm)))
        (fun heq => h.2.1 (spell_injective (heq.trans hhere.symm)))
        (fun heq => h.2.2 (spell_injective (heq.trans hup.symm)))]
    rfl

theorem meaning_spell (path : String) :
    Path.meaning (spell path) = (Path.meaning path).map spellComponent := by
  rw [Path.meaning, parts_spell, List.filterMap_map, Path.meaning, List.map_filterMap]
  exact List.filterMap_congr fun part _ => component?_spell part

theorem isAbsolute_spell (path : String) :
    Path.isAbsolute (spell path) = Path.isAbsolute path := by
  rw [Path.isAbsolute, Path.isAbsolute, spell, String.toList_ofList]
  cases path.toList with
  | nil => rfl
  | cons c cs =>
      rw [spellChars, List.flatMap_cons, List.head?_append_of_ne_nil _ (spellChar_ne_nil c)]
      by_cases hc : c = '/'
      · have hslash : spellChar '/' = ['/'] := spellChar_of_lt (by decide)
        rw [hc, hslash]
        rfl
      · have hhead : (spellChar c).head? ≠ some '/' := fun hhead =>
          slash_notMem_spellChar hc (List.mem_of_head? hhead)
        rw [beq_eq_false_iff_ne.mpr hhead, beq_eq_false_iff_ne.mpr (by simpa using hc)]

theorem components_spell (h : Path.isAbsolute path = true) :
    Path.components (spell path) = (Path.components path).map spellComponent := by
  rw [Path.components_of_isAbsolute ((isAbsolute_spell path).trans h), meaning_spell,
    Path.components_of_isAbsolute h]
  rfl

theorem fileName?_spell_eq_some_iff : Path.fileName? (spell path) = some name ↔
    ∃ file, Path.fileName? path = some file ∧ spell file = name := by
  simp only [Path.fileName?_iff_meaning]
  rw [meaning_spell, List.getLast?_map, Option.map_eq_some_iff]
  constructor
  · rintro ⟨component, hlast, hname⟩
    cases component with
    | normal file => exact ⟨file, hlast, PathComponent.normal.inj hname⟩
    | _ => cases hname
  · rintro ⟨file, hlast, rfl⟩
    exact ⟨.normal file, hlast, rfl⟩

/-- An extension in ASCII is that of the text itself. -/
theorem extension?_spell_eq_some_iff {extension : String}
    (h : ∀ c ∈ extension.toList, c.toNat < 128) :
    Path.extension? (spell path) = some extension ↔ Path.extension? path = some extension := by
  simp only [Path.extension?_eq_some_iff, fileName?_spell_eq_some_iff]
  have hempty : spell "" = "" := rfl
  constructor
  · rintro ⟨stem, hstem, hdot, file, hfile, hspell⟩
    have hascii : ∀ c ∈ '.' :: extension.toList, c.toNat < 128 :=
      List.forall_mem_cons.mpr ⟨by decide, h⟩
    have hchars : spellChars file.toList = stem.toList ++ '.' :: extension.toList := by
      simpa [spell] using congrArg String.toList hspell
    obtain ⟨before, hbefore, hfront⟩ := exists_of_spellChars_eq_append hascii hchars
    refine ⟨String.ofList before, ?_, hdot, ?_⟩
    · rintro hnone
      obtain rfl : before = [] := by simpa using congrArg String.toList hnone
      exact hstem (String.toList_inj.mp hfront.symm)
    · rw [hfile, Option.some_inj, ← String.toList_inj, hbefore]
      simp
  · rintro ⟨stem, hstem, hdot, hfile⟩
    refine ⟨spell stem, fun hnone => hstem (spell_injective (hnone.trans hempty.symm)), hdot,
      _, hfile, ?_⟩
    have hpoint : spell "." = "." := spell_ascii (by simp)
    rw [spell_append, spell_append, spell_ascii h, hpoint]

end FilePath

namespace DocumentKind

/-- A document is of one kind, whether its path is taken as bytes or as a text. -/
theorem ofFilePath_ofText {path : String} (h : Path.isAbsolute path = true) :
    ofFilePath (.ofText path) = ofPath path := by
  have hextension : Path.extension? (FilePath.spell path) = some "gml" ↔
      Path.extension? path = some "gml" :=
    FilePath.extension?_spell_eq_some_iff (by simp)
  rw [ofFilePath, ofPath, FilePath.byteText_ofText, ofDecoded, ofDecoded,
    FilePath.components_spell h, List.filterMap_map]
  by_cases hgml : Path.extension? path = some "gml"
  · rw [if_neg (not_not_intro hgml), if_neg (not_not_intro (hextension.mpr hgml))]
    dsimp only
    congr 2
    refine List.filterMap_congr fun component _ => ?_
    cases component with
    | normal name =>
        rw [Function.comp_apply, FilePath.spellComponent]
        exact FilePath.nameText?_spell name
    | _ => rfl
  · rw [if_pos hgml, if_pos (mt hextension.mp hgml)]

end DocumentKind

end Gml
