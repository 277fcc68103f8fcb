import Gml.Project.Discovery
import Gml.Proofs.Path

/-!
# Files and their addresses

A name that is escaped byte by byte can be read back, and no slash stands in it. So the
address of a file says what its path means, and two files with one address are one file.
-/
namespace Gml

namespace Percent

theorem value?_digits (b : UInt8) :
    Numeral.value? 16 [digit (b.toNat / 16), digit (b.toNat % 16)] = some b.toNat := by
  have hall : ∀ n < 256, Numeral.value? 16 [digit (n / 16), digit (n % 16)] = some n := by
    decide +kernel
  exact hall b.toNat b.toNat_lt

theorem decodeBytes_encodeByte (b : UInt8) (rest : List Char) :
    decodeBytes (encodeByte b ++ rest) = b :: decodeBytes rest := by
  have hcons : encodeByte b ++ rest =
      '%' :: digit (b.toNat / 16) :: digit (b.toNat % 16) :: rest := rfl
  rw [hcons, decodeBytes, value?_digits]
  exact congrArg (· :: decodeBytes rest) (UInt8.ofNat_toNat)

theorem decodeBytes_encodeBytes (bytes : List UInt8) (rest : List Char) :
    decodeBytes (bytes.flatMap encodeByte ++ rest) = bytes ++ decodeBytes rest := by
  induction bytes with
  | nil => rfl
  | cons b bytes ih =>
      rw [List.flatMap_cons, List.append_assoc, decodeBytes_encodeByte, ih, List.cons_append]

theorem decodeBytes_cons {c : Char} (h : c ≠ '%') (rest : List Char) :
    decodeBytes (c :: rest) = String.utf8EncodeChar c ++ decodeBytes rest := by
  rw [decodeBytes]
  rintro a b rest' rfl
  exact absurd rfl h

variable {escaped : Char → Bool} (hescaped : escaped '%' = true)
include hescaped

theorem decodeBytes_encodeChar (c : Char) (rest : List Char) :
    decodeBytes (encodeChar escaped c ++ rest) = String.utf8EncodeChar c ++ decodeBytes rest := by
  rw [encodeChar]
  split
  · exact decodeBytes_encodeBytes _ rest
  next hplain =>
      refine decodeBytes_cons ?_ rest
      rintro rfl
      rw [hescaped] at hplain
      exact hplain rfl

theorem decodeBytes_encode_append (cs rest : List Char) :
    decodeBytes (encode escaped cs ++ rest) =
      cs.flatMap String.utf8EncodeChar ++ decodeBytes rest := by
  induction cs with
  | nil => rfl
  | cons c cs ih =>
      rw [encode, List.flatMap_cons, List.append_assoc, decodeBytes_encodeChar hescaped,
        List.flatMap_cons, List.append_assoc]
      exact congrArg _ ih

theorem decodeBytes_encode (cs : List Char) :
    decodeBytes (encode escaped cs) = cs.flatMap String.utf8EncodeChar := by
  have happend := decodeBytes_encode_append hescaped cs []
  rw [List.append_nil, decodeBytes, List.append_nil] at happend
  exact happend

theorem encode_injective {cs cs' : List Char} (h : encode escaped cs = encode escaped cs') :
    cs = cs' := by
  have hbytes : cs.flatMap String.utf8EncodeChar = cs'.flatMap String.utf8EncodeChar := by
    rw [← decodeBytes_encode hescaped, h, decodeBytes_encode hescaped]
  have hutf8 : cs.utf8Encode = cs'.utf8Encode := congrArg List.toByteArray hbytes
  rw [← String.toByteArray_ofList, ← String.toByteArray_ofList, String.toByteArray_inj,
    String.ofList_inj] at hutf8
  exact hutf8

end Percent

theorem Percent.slash_notMem_encode {escaped : Char → Bool} (hescaped : escaped '/' = true)
    (cs : List Char) : '/' ∉ encode escaped cs := by
  have hdigit : ∀ n < 16, digit n ≠ '/' := by decide
  intro hmem
  obtain ⟨c, -, hc⟩ := List.mem_flatMap.mp hmem
  rw [encodeChar] at hc
  split at hc
  · obtain ⟨b, -, hb⟩ := List.mem_flatMap.mp hc
    have hlow : b.toNat < 256 := b.toNat_lt
    rcases List.mem_cons.mp hb with h | hb
    · exact absurd h (by decide)
    rcases List.mem_cons.mp hb with h | hb
    · exact hdigit _ (by omega) h.symm
    · exact hdigit _ (by omega) (List.mem_singleton.mp hb).symm
  next hplain =>
      rw [← List.mem_singleton.mp hc, hescaped] at hplain
      exact hplain rfl

/-! ### Segments -/

theorem takeWhile_segment {part : List Char} (h : '/' ∉ part) (parts : List (List Char)) :
    (part ++ parts.flatMap ('/' :: ·)).takeWhile (· != '/') = part := by
  have hpart : ∀ c ∈ part, (c != '/') = true := by
    rintro c hc
    rw [bne_iff_ne]
    rintro rfl
    exact h hc
  rw [List.takeWhile_append_of_pos hpart]
  cases parts with
  | nil => exact List.append_nil part
  | cons next parts => exact List.append_nil part

/-- Behind slashes, parts without slashes can be told apart. -/
theorem flatMap_slash_injective {parts parts' : List (List Char)} (h : ∀ part ∈ parts, '/' ∉ part)
    (h' : ∀ part ∈ parts', '/' ∉ part)
    (heq : parts.flatMap ('/' :: ·) = parts'.flatMap ('/' :: ·)) : parts = parts' := by
  induction parts generalizing parts' with
  | nil =>
      cases parts' with
      | nil => rfl
      | cons part' parts' => cases heq
  | cons part parts ih =>
      cases parts' with
      | nil => cases heq
      | cons part' parts' =>
          have htail : part ++ parts.flatMap ('/' :: ·) = part' ++ parts'.flatMap ('/' :: ·) := by
            rw [List.flatMap_cons, List.flatMap_cons] at heq
            exact (List.cons.inj heq).2
          have hpart : part = part' := by
            rw [← takeWhile_segment (h part List.mem_cons_self) parts, htail,
              takeWhile_segment (h' part' List.mem_cons_self)]
          subst hpart
          rw [ih (fun p hp => h p (List.mem_cons_of_mem _ hp))
            (fun p hp => h' p (List.mem_cons_of_mem _ hp)) (List.append_cancel_left htail)]

/-- The segment of a part of a path that counts. -/
def Path.segment (part : String) : List Char := Percent.encode Percent.inName part.toList

theorem Path.segment_injective {part part' : String} (h : segment part = segment part') :
    part = part' :=
  String.toList_injective (Percent.encode_injective (by decide) h)

theorem Path.componentSegment?_of_component? {part : String} {component : PathComponent}
    (h : component? part = some component) :
    Url.componentSegment? component = some (segment part) := by
  unfold component? at h
  split at h
  · cases h
  · cases h
  · cases h
    decide
  · cases h
    rfl

/-- Of some parts only those count that are components, and each of them has a segment. -/
theorem Path.exists_counting (parts : List String) :
    ∃ counting : List String, parts.filterMap component? = counting.filterMap component? ∧
      (parts.filterMap component?).filterMap Url.componentSegment? = counting.map segment ∧
      "" ∉ counting ∧ counting ⊆ parts := by
  induction parts with
  | nil => exact ⟨[], rfl, rfl, List.not_mem_nil, List.nil_subset _⟩
  | cons part parts ih =>
      obtain ⟨counting, hcomponents, hsegments, hempty, hsubset⟩ := ih
      cases hpart : component? part with
      | none =>
          rw [List.filterMap_cons_none hpart]
          exact ⟨counting, hcomponents, hsegments, hempty, List.subset_cons_of_subset part hsubset⟩
      | some component =>
          refine ⟨part :: counting, ?_, ?_, ?_, List.cons_subset_cons part hsubset⟩
          · rw [List.filterMap_cons_some hpart, List.filterMap_cons_some hpart, hcomponents]
          · rw [List.filterMap_cons_some hpart,
              List.filterMap_cons_some (componentSegment?_of_component? hpart), hsegments,
              List.map_cons]
          · rw [List.mem_cons, not_or]
            refine ⟨?_, hempty⟩
            rintro rfl
            cases hpart

/-- What an absolute path means is told by the parts that count. -/
theorem Path.exists_parts {path : String} (h : isAbsolute path = true) :
    ∃ counting : List String, components path = .root :: counting.filterMap component? ∧
      (components path).filterMap Url.componentSegment? = counting.map segment ∧
      "" ∉ counting ∧ ∀ part ∈ counting, '/' ∉ part.toList := by
  obtain ⟨cs, hcs⟩ : ∃ cs, path.toList = '/' :: cs := by
    rw [isAbsolute] at h
    cases hpath : path.toList with
    | nil => rw [hpath] at h; cases h
    | cons c cs =>
        rw [hpath] at h
        exact ⟨cs, by simpa using h⟩
  have hparts : parts path = "" :: (Text.splitAll (· == '/') cs).map String.ofList := by
    rw [parts, hcs]
    rfl
  have hne : path.isEmpty = false := by
    rw [String.isEmpty_eq_false_iff]
    rintro rfl
    cases hcs
  have hcomponents : components path =
      .root :: ((Text.splitAll (· == '/') cs).map String.ofList).filterMap component? := by
    rw [components, hparts]
    simp [hne]
  obtain ⟨counting, hcounting, hsegments, hempty, hsubset⟩ :=
    exists_counting ((Text.splitAll (· == '/') cs).map String.ofList)
  refine ⟨counting, ?_, ?_, hempty, fun part hpart hslash => ?_⟩
  · rw [hcomponents, hcounting]
  · rw [hcomponents, List.filterMap_cons_none rfl, hsegments]
  · obtain ⟨piece, hpiece, rfl⟩ := List.mem_map.mp (hsubset hpart)
    rw [String.toList_ofList] at hslash
    cases Text.eq_false_of_mem_splitAll hpiece hslash

namespace Url

/-- The path of the address of a file. -/
def filePathText (segments : List (List Char)) : List Char :=
  if segments.isEmpty then ['/'] else segments.flatMap ('/' :: ·)

theorem filePathText_injective {counting counting' : List String} (h : "" ∉ counting)
    (h' : "" ∉ counting')
    (heq : filePathText (counting.map Path.segment) = filePathText (counting'.map Path.segment)) :
    counting = counting' := by
  have hslash : ∀ counting : List String, ∀ part ∈ counting.map Path.segment, '/' ∉ part := by
    intro counting part hpart
    obtain ⟨name, -, rfl⟩ := List.mem_map.mp hpart
    exact Percent.slash_notMem_encode (by decide) _
  -- The path of the root is that of one empty segment, which no part that counts has.
  have hroot : ∀ counting : List String, "" ∉ counting →
      ['/'] ≠ (counting.map Path.segment).flatMap ('/' :: ·) := by
    intro counting hempty hflat
    have hsegments : [[]] = counting.map Path.segment := by
      refine flatMap_slash_injective ?_ (hslash counting) hflat
      simp
    obtain ⟨part, rfl, hpart⟩ := List.map_eq_singleton_iff.mp hsegments.symm
    have hname : part = "" := Path.segment_injective hpart
    exact hempty (hname ▸ List.mem_singleton_self part)
  cases counting with
  | nil =>
      cases counting' with
      | nil => rfl
      | cons part' rest' => exact absurd heq (hroot _ h')
  | cons part rest =>
      cases counting' with
      | nil => exact absurd heq.symm (hroot _ h)
      | cons part' rest' =>
          have hsegments := flatMap_slash_injective (hslash (part :: rest)) (hslash (part' :: rest')) heq
          exact (List.map_inj_right fun _ _ => Path.segment_injective).mp hsegments

theorem render_ofFilePath? {path : String} {url : Url} (h : ofFilePath? path = some url) :
    Path.isAbsolute path = true ∧ url.render = "file://" ++
      String.ofList (filePathText ((Path.components path).filterMap componentSegment?)) := by
  obtain ⟨habsolute, hurl⟩ := Option.ite_none_right_eq_some.mp h
  refine ⟨habsolute, ?_⟩
  rw [← Option.some.inj hurl]
  simp [render, Authority.render, filePathText]

/-- Two paths with one address mean the same. -/
theorem components_eq {path path' : String} {url url' : Url} (h : ofFilePath? path = some url)
    (h' : ofFilePath? path' = some url') (heq : url.render = url'.render) :
    Path.components path = Path.components path' := by
  obtain ⟨habsolute, hrender⟩ := render_ofFilePath? h
  obtain ⟨habsolute', hrender'⟩ := render_ofFilePath? h'
  obtain ⟨counting, hcomponents, hsegments, hempty, -⟩ := Path.exists_parts habsolute
  obtain ⟨counting', hcomponents', hsegments', hempty', -⟩ := Path.exists_parts habsolute'
  rw [hrender, hrender', String.append_right_inj, String.ofList_inj, hsegments, hsegments'] at heq
  rw [hcomponents, hcomponents', filePathText_injective hempty hempty' heq]

end Url

namespace Disk

variable {disk : Disk} {path path' text text' : String}

theorem exists_file_of_read? (h : disk.read? path = some text) :
    ∃ names, (Path.components path).foldlM disk.step [] = .ok names ∧
      disk.root.find? names = some (.file (some text)) := by
  rw [read?] at h
  split at h
  next found hnode =>
      subst h
      rw [node?] at hnode
      split at hnode
      next names hresolve =>
          refine ⟨names, ?_, (Option.filter_eq_some_iff.mp hnode).1⟩
          rw [resolve] at hresolve
          split at hresolve
          · exact hresolve
          · cases hresolve
      · cases hnode
  · cases h

/-- Where there is a file, its text depends on what the path means and on nothing else. -/
theorem read?_eq (hcomponents : Path.components path = Path.components path')
    (h : disk.read? path = some text) (h' : disk.read? path' = some text') : text = text' := by
  obtain ⟨names, hnames, hfile⟩ := exists_file_of_read? h
  obtain ⟨names', hnames', hfile'⟩ := exists_file_of_read? h'
  rw [hcomponents, hnames', Except.ok.injEq] at hnames
  subst hnames
  rw [hfile, Option.some.injEq, DiskNode.file.injEq, Option.some.injEq] at hfile'
  exact hfile'

end Disk

/-! ### The files of a project -/

namespace Discovery

variable {disk : Disk} {root : String} {file file' : SourceFile}

theorem ofFilePath?_path (h : file ∈ files disk root) : Url.ofFilePath? file.path = some file.url := by
  have hpath : ∀ {path : String} {kind : DocumentKind},
      SourceFile.ofPath? path kind = some file → Url.ofFilePath? file.path = some file.url := by
    intro path kind hfile
    obtain ⟨url, hurl, rfl⟩ := Option.map_eq_some_iff.mp hfile
    exact hurl
  unfold files at h
  split at h
  · obtain ⟨resource, -, hresource⟩ := List.mem_flatMap.mp h
    unfold resourceFiles at hresource
    split at hresource
    · dsimp only at hresource
      split at hresource
      · exact hpath (Option.mem_toList.mp hresource)
      · cases hresource
    · obtain ⟨path, -, hstem⟩ := List.mem_filterMap.mp hresource
      obtain ⟨stem, -, hfile⟩ := Option.bind_eq_some_iff.mp hstem
      exact hpath hfile
    · cases hresource
  · obtain ⟨path, -, hfile⟩ := List.mem_filterMap.mp h
    exact hpath hfile

/-- Two files of a project with one address have one text. -/
theorem text_eq (h : file ∈ files disk root) (h' : file' ∈ files disk root)
    (huri : file.uri = file'.uri) {text text' : String} (hread : disk.read? file.path = some text)
    (hread' : disk.read? file'.path = some text') : text = text' :=
  Disk.read?_eq (Url.components_eq (ofFilePath?_path h) (ofFilePath?_path h') huri) hread hread'

end Discovery

end Gml
