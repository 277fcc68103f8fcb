import Gml.Proofs.Path.Bytes
import Gml.Proofs.Url.Files
import Gml.Server.State

/-!
# Addresses lead back to paths

The address of a file gives a path again, byte by byte. It means what the path of the file means,
so an editor that opens the file by its address has a document of the kind that the path says.
-/
namespace Gml

namespace Url

/-- The characters of parts of a path that each have a slash in front. -/
theorem toList_intercalate_slash (parts : List String) :
    ("/".intercalate ("" :: parts)).toList = parts.flatMap fun part => '/' :: part.toList := by
  have hcons : ∀ first, ("/".intercalate (first :: parts)).toList =
      first.toList ++ parts.flatMap fun part => '/' :: part.toList := by
    induction parts with
    | nil => simp
    | cons part parts ih =>
        intro first
        rw [String.intercalate_cons_of_ne_nil (List.cons_ne_nil _ _), String.toList_append,
          String.toList_append, ih, List.flatMap_cons, List.append_assoc]
        rfl
  exact hcons ""

theorem decodeBytes_segments (counting : List String) (rest : List Char) :
    Percent.decodeBytes ((counting.map Path.segment).flatMap ('/' :: ·) ++ rest) =
      (counting.flatMap fun part => '/' :: part.toList).flatMap String.utf8EncodeChar ++
        Percent.decodeBytes rest := by
  induction counting with
  | nil => rfl
  | cons part counting ih =>
      rw [List.map_cons, List.flatMap_cons, List.append_assoc, List.cons_append,
        Percent.decodeBytes_cons (by decide), Path.segment,
        Percent.decodeBytes_encode_append (by decide), ih]
      simp

theorem closeDrive_cases (bytes : List UInt8) :
    closeDrive bytes = bytes ∨ closeDrive bytes = bytes ++ [0x2F] := by
  unfold closeDrive
  split
  · split
    · exact .inr rfl
    · exact .inl rfl
  · exact .inl rfl

/-- The path of parts below the root. -/
def rooted (parts : List String) : String := "/".intercalate ("" :: parts)

theorem rooted_spec {parts : List String} (hne : parts ≠ [])
    (h : ∀ part ∈ parts, '/' ∉ part.toList) :
    Path.isAbsolute (rooted parts) = true ∧
      Path.components (rooted parts) = .root :: parts.filterMap Path.component? := by
  have habsolute : Path.isAbsolute (rooted parts) = true := by
    obtain ⟨part, rest, rfl⟩ := List.exists_cons_of_ne_nil hne
    rw [Path.isAbsolute, rooted, toList_intercalate_slash]
    rfl
  have hall : ∀ part ∈ "" :: parts, '/' ∉ part.toList :=
    List.forall_mem_cons.mpr ⟨by decide, h⟩
  refine ⟨habsolute, ?_⟩
  rw [Path.components_of_isAbsolute habsolute, Path.meaning, rooted,
    Path.parts_intercalate (List.cons_ne_nil _ _) hall, List.filterMap_cons_none rfl]

theorem ofText_rooted (parts : List String) : FilePath.ofText (rooted parts) =
    ⟨(parts.flatMap fun part => '/' :: part.toList).flatMap String.utf8EncodeChar⟩ := by
  rw [FilePath.ofText, Name.bytes_eq, rooted, toList_intercalate_slash]

/-- The address of a file leads back to a path that means the same. -/
theorem exists_filePath? {path : String} {url : Url} (h : ofFilePath? path = some url) :
    ∃ back, url.filePath? = some (.ofText back) ∧ Path.isAbsolute back = true ∧
      Path.components back = Path.components path := by
  obtain ⟨habsolute, hurl⟩ := Option.ite_none_right_eq_some.mp h
  obtain ⟨counting, hcomponents, hsegments, -, hslash⟩ := Path.exists_parts habsolute
  obtain ⟨parts, hne, hfree, hsame, hpath⟩ : ∃ parts : List String, parts ≠ [] ∧
      (∀ part ∈ parts, '/' ∉ part.toList) ∧
      parts.filterMap Path.component? = counting.filterMap Path.component? ∧
      url.path.toList = (parts.map Path.segment).flatMap ('/' :: ·) := by
    have hpath : url.path.toList = filePathText (counting.map Path.segment) := by
      rw [← hsegments, ← Option.some.inj hurl, String.toList_ofList]
      rfl
    cases counting with
    | nil => exact ⟨[""], List.cons_ne_nil _ _, by decide, rfl, hpath⟩
    | cons part rest => exact ⟨part :: rest, List.cons_ne_nil _ _, hslash, rfl, hpath⟩
  have hhere : url.isHere = true := by
    rw [← Option.some.inj hurl]
    rfl
  have hroot : Path.isAbsolute url.path = true := by
    obtain ⟨part, rest, rfl⟩ := List.exists_cons_of_ne_nil hne
    rw [Path.isAbsolute, hpath]
    rfl
  have hbytes : Percent.decodeBytes url.path.toList =
      (parts.flatMap fun part => '/' :: part.toList).flatMap String.utf8EncodeChar := by
    have hdecoded := decodeBytes_segments parts []
    rw [List.append_nil, Percent.decodeBytes, List.append_nil] at hdecoded
    rw [hpath, hdecoded]
  rw [filePath?, hhere, hroot, Bool.and_self, if_pos rfl, hbytes, hcomponents, ← hsame]
  rcases closeDrive_cases
    ((parts.flatMap fun part => '/' :: part.toList).flatMap String.utf8EncodeChar) with
    hplain | hclosed
  · exact ⟨rooted parts, by rw [hplain, ofText_rooted], rooted_spec hne hfree⟩
  · -- Behind a drive there is one more part, an empty one.
    have hfree' : ∀ part ∈ parts ++ [""], '/' ∉ part.toList := by
      simpa [or_imp, forall_and] using hfree
    have hspec := rooted_spec (List.append_ne_nil_of_left_ne_nil hne [""]) hfree'
    refine ⟨rooted (parts ++ [""]), ?_, hspec.1, ?_⟩
    · rw [hclosed, ofText_rooted, List.flatMap_append, List.flatMap_append]
      rfl
    · rw [hspec.2, List.filterMap_append]
      simp [Path.component?]

end Url

theorem DocumentKind.ofPath_eq_of_components {path path' : String}
    (h : Path.components path = Path.components path') : ofPath path = ofPath path' := by
  rw [ofPath, ofPath, ofDecoded, ofDecoded, Path.extension?, Path.extension?, Path.fileName?,
    Path.fileName?, h]

/-- The document at the address of a file is of the kind that the path of the file says. -/
theorem Url.documentKind_ofFilePath? {path : String} {url : Url} (h : ofFilePath? path = some url) :
    url.documentKind = .ofPath path := by
  obtain ⟨back, hback, habsolute, hcomponents⟩ := exists_filePath? h
  rw [documentKind, hback]
  exact (DocumentKind.ofFilePath_ofText habsolute).trans
    (DocumentKind.ofPath_eq_of_components hcomponents)

end Gml
