import Gml.MacroLine
import Gml.Proofs.Text.Cutting

/-!
# Pieces of a text

A piece of a text stands at a byte offset, and cutting the text there gives the piece
back. A piece of a piece stands as far behind the start of the text as both offsets say.
-/
namespace Gml

namespace Text

theorem byteLength_toList (text : String) : byteLength text.toList = text.utf8ByteSize := by
  rw [← utf8ByteSize_ofList, String.ofList_toList]

theorem splitAtByte?_append (before rest : List Char) :
    splitAtByte? (byteLength before) (before ++ rest) = some (before, rest) := by
  induction before with
  | nil => cases rest <;> rfl
  | cons c before ih =>
      have hpos : c.utf8Size + byteLength before = c.utf8Size - 1 + byteLength before + 1 := by
        have hsize := c.utf8Size_pos
        omega
      rw [byteLength, hpos, List.cons_append, splitAtByte?, ← hpos, if_pos (Nat.le_add_right _ _),
        Nat.add_sub_cancel_left, ih]
      rfl

theorem isBoundary_append (before rest : List Char) :
    isBoundary (before ++ rest) (byteLength before) = true := by
  rw [isBoundary, splitAtByte?_append]
  rfl

theorem dropBytes?_append (before rest : List Char) :
    dropBytes? (byteLength before) (before ++ rest) = some rest := by
  rw [dropBytes?, splitAtByte?_append]
  rfl

theorem takeBytes?_append (piece rest : List Char) :
    takeBytes? (byteLength piece) (piece ++ rest) = some piece := by
  rw [takeBytes?, splitAtByte?_append]
  rfl

/-- The two parts of a cut are the text, and the first has as many bytes as were asked for. -/
theorem eq_append_of_splitAtByte? {cs before after : List Char} {offset : Nat}
    (h : splitAtByte? offset cs = some (before, after)) :
    cs = before ++ after ∧ byteLength before = offset := by
  fun_induction splitAtByte? offset cs generalizing before with
  | case1 cs =>
      cases h
      exact ⟨rfl, rfl⟩
  | case2 n => cases h
  | case3 n c cs hfits ih =>
      obtain ⟨⟨first, last⟩, hrest, heq⟩ := Option.map_eq_some_iff.mp h
      cases heq
      obtain ⟨rfl, hlength⟩ := ih hrest
      refine ⟨rfl, ?_⟩
      rw [byteLength, hlength]
      omega
  | case4 n c cs => cases h

/-- A boundary is where the text can be cut. -/
theorem isBoundary_iff {cs : List Char} {offset : Nat} : isBoundary cs offset = true ↔
    ∃ before after, cs = before ++ after ∧ byteLength before = offset := by
  constructor
  · intro h
    obtain ⟨⟨before, after⟩, hsplit⟩ := Option.isSome_iff_exists.mp h
    exact ⟨before, after, eq_append_of_splitAtByte? hsplit⟩
  · rintro ⟨before, after, rfl, rfl⟩
    exact isBoundary_append before after

/-- The piece stands in the text at the offset. -/
def StandsAt (piece : List Char) (offset : Nat) (cs : List Char) : Prop :=
  ∃ before after, cs = before ++ (piece ++ after) ∧ byteLength before = offset

namespace StandsAt

variable {piece cs : List Char} {offset : Nat}

theorem slice? (h : StandsAt piece offset cs) :
    Text.slice? cs offset (offset + byteLength piece) = some piece := by
  obtain ⟨before, after, rfl, rfl⟩ := h
  rw [Text.slice?, if_pos (Nat.le_add_right _ _), dropBytes?_append, Option.bind_some,
    Nat.add_sub_cancel_left, takeBytes?_append]

theorem isBoundary_start (h : StandsAt piece offset cs) : isBoundary cs offset = true := by
  obtain ⟨before, after, rfl, rfl⟩ := h
  exact isBoundary_append before _

theorem isBoundary_stop (h : StandsAt piece offset cs) :
    isBoundary cs (offset + byteLength piece) = true := by
  obtain ⟨before, after, rfl, rfl⟩ := h
  rw [← List.append_assoc, ← byteLength_append]
  exact isBoundary_append (before ++ piece) after

theorem trans {whole : List Char} {distance : Nat} (h : StandsAt piece offset cs)
    (hcs : StandsAt cs distance whole) : StandsAt piece (offset + distance) whole := by
  obtain ⟨before, after, rfl, rfl⟩ := h
  obtain ⟨front, back, rfl, rfl⟩ := hcs
  refine ⟨front ++ before, after ++ back, ?_, ?_⟩
  · simp only [List.append_assoc]
  · rw [byteLength_append, Nat.add_comm]

end StandsAt

/-- What is cut out of a text stands there. -/
theorem standsAt_of_slice? {cs piece : List Char} {start stop : Nat}
    (h : slice? cs start stop = some piece) :
    StandsAt piece start cs ∧ stop = start + byteLength piece := by
  obtain ⟨hle, hpiece⟩ := Option.ite_none_right_eq_some.mp h
  obtain ⟨rest, hdrop, htake⟩ := Option.bind_eq_some_iff.mp hpiece
  obtain ⟨⟨before, rest⟩, hsplit, rfl⟩ := Option.map_eq_some_iff.mp hdrop
  obtain ⟨⟨piece, after⟩, hcut, rfl⟩ := Option.map_eq_some_iff.mp htake
  obtain ⟨rfl, hbefore⟩ := eq_append_of_splitAtByte? hsplit
  obtain ⟨hrest, hlength⟩ := eq_append_of_splitAtByte? hcut
  refine ⟨⟨before, after, ?_, hbefore⟩, ?_⟩
  · exact congrArg (before ++ ·) hrest
  · dsimp only
    omega

theorem eq_append_of_dropWord? {word cs rest : List Char} (h : dropWord? word cs = some rest) :
    cs = word ++ rest := by
  induction word generalizing cs with
  | nil =>
      cases h
      rfl
  | cons w word ih =>
      cases cs with
      | nil => cases h
      | cons c cs =>
          rw [dropWord?] at h
          split at h
          next heq => rw [heq, ih h, List.cons_append]
          · cases h

end Text

namespace MacroLine

/-- The name is the end of the first word behind `#macro`, so it stands in front of what follows
that word. -/
theorem name_standsAt {line : String} {body config name : List Char}
    (hbody : Text.dropWord? "#macro".toList line.toList = some body)
    (hword : (Text.trimStart body).takeWhile (!Text.isBlank ·) = config ++ name) :
    let stop := line.utf8ByteSize -
      Text.byteLength ((Text.trimStart body).dropWhile (!Text.isBlank ·))
    Text.StandsAt name (stop - Text.byteLength name) line.toList ∧
      stop = stop - Text.byteLength name + Text.byteLength name := by
  have htrimmed : config ++ (name ++ (Text.trimStart body).dropWhile (!Text.isBlank ·)) =
      Text.trimStart body := by
    rw [← List.append_assoc, ← hword, List.takeWhile_append_dropWhile]
  have hline : line.toList = ("#macro".toList ++ body.takeWhile Text.isBlank ++ config) ++
      (name ++ (Text.trimStart body).dropWhile (!Text.isBlank ·)) := by
    rw [Text.eq_append_of_dropWord? hbody, List.append_assoc, List.append_assoc, htrimmed,
      Text.trimStart, List.takeWhile_append_dropWhile]
  have hsize : line.utf8ByteSize = Text.byteLength line.toList := (Text.byteLength_toList line).symm
  rw [hline, Text.byteLength_append, Text.byteLength_append name] at hsize
  refine ⟨⟨_, _, hline, ?_⟩, ?_⟩
  · omega
  · omega

/-- The name of a macro line stands where its span says. -/
theorem standsAt {line : String} {found : MacroLine} (h : parse? line = some found) :
    Text.StandsAt found.name.toList found.span.start line.toList ∧
      found.span.stop = found.span.start + Text.byteLength found.name.toList := by
  obtain ⟨body, hbody, h⟩ := Option.bind_eq_some_iff.mp h
  cases hsplit : Text.splitFirst? (· == ':') ((Text.trimStart body).takeWhile (!Text.isBlank ·)) with
  | none =>
      simp only [hsplit] at h
      split at h
      · cases h
      · cases h
        rw [String.toList_ofList]
        exact name_standsAt hbody (List.nil_append _).symm
  | some parts =>
      simp only [hsplit] at h
      split at h
      · cases h
      · cases h
        obtain ⟨colon, hword, -⟩ := Text.splitFirst?_eq_some_iff.mp hsplit
        rw [String.toList_ofList]
        exact name_standsAt hbody (hword.trans (List.append_cons _ _ _))

end MacroLine

end Gml
