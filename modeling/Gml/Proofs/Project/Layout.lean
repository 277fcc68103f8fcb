import Gml.Proofs.Json.Members
import Gml.Proofs.Project.Listing
import Gml.Proofs.Url.Paths

/-!
# The standard layout of a project

A script lies in `scripts/name/name.gml` and an event of an object in `objects/name/event.gml`. A
manifest lists the two in either of its layouts and with either slash, and takes their names from
other places than a reader of paths does. Both find the same names, so a document is of one kind
whether an editor opens it or it is found below the root.
-/
namespace Gml

/-! ### Joining -/

namespace FilePath

/-- A path below another, as bytes; an absolute one stands for itself. -/
def join (base : FilePath) (path : String) : FilePath :=
  if Path.isAbsolute path || base.bytes.isEmpty then ofText path
  else if base.bytes.getLast? == some 0x2F then ⟨base.bytes ++ (ofText path).bytes⟩
  else ⟨base.bytes ++ 0x2F :: (ofText path).bytes⟩

theorem byteText_join (base : FilePath) (path : String) :
    (base.join path).byteText = Path.join base.byteText (spell path) := by
  have hempty : base.byteText.isEmpty = base.bytes.isEmpty := by
    rw [Bool.eq_iff_iff, String.isEmpty_iff, List.isEmpty_iff, byteText, String.ofList_eq_empty_iff,
      List.map_eq_nil_iff]
  have hlast : (base.byteText.toList.getLast? == some '/') = (base.bytes.getLast? == some 0x2F) := by
    rw [byteText, String.toList_ofList, List.getLast?_map]
    cases base.bytes.getLast? with
    | none => rfl
    | some b =>
        have hall : ∀ n < 256, (some (Char.ofNat (UInt8.ofNat n).toNat) == some '/') =
            (some (UInt8.ofNat n) == some 0x2F) := by decide +kernel
        have hbyte := hall b.toNat b.toNat_lt
        rwa [UInt8.ofNat_toNat] at hbyte
  have htext : ∀ bytes, (FilePath.mk (bytes ++ (ofText path).bytes)).byteText =
      (FilePath.mk bytes).byteText ++ spell path := by
    intro bytes
    rw [← byteText_ofText, byteText, List.map_append, String.ofList_append]
    rfl
  rw [join, Path.join, isAbsolute_spell, hempty, hlast]
  split
  · exact byteText_ofText path
  · split
    · exact htext base.bytes
    · have hslash := htext (base.bytes ++ [0x2F])
      rw [List.append_assoc, List.singleton_append] at hslash
      rw [hslash, byteText, List.map_append, String.ofList_append]
      rfl

theorem isAbsolute_join {base : FilePath} {path : String}
    (hbase : Path.isAbsolute base.byteText = true) (hpath : Path.isAbsolute path = false) :
    Path.isAbsolute (base.join path).byteText = true := by
  rw [byteText_join, Path.isAbsolute_join_eq_true hbase ((isAbsolute_spell path).trans hpath)]

theorem meaning_join (base : FilePath) {path : String} (hpath : Path.isAbsolute path = false) :
    Path.meaning (base.join path).byteText =
      Path.meaning base.byteText ++ (Path.meaning path).map spellComponent := by
  rw [byteText_join, Path.meaning_join _ ((isAbsolute_spell path).trans hpath), meaning_spell]

end FilePath

/-! ### The last three names -/

namespace DocumentKind

variable {category resource file stem : String} {front : List PathComponent}

theorem ofNames_script (name : String) : ofNames "scripts" name (name ++ ".gml") = .script name := by
  rw [ofNames, String.toList_append, Text.dropEnding?_append]
  simp

theorem ofNames_object (object stem : String) :
    ofNames "objects" object (stem ++ ".gml") = .objectEvent object stem := by
  rw [ofNames, String.toList_append, Text.dropEnding?_append]
  simp

/-- The kind of a document is told by the last three names of its path. -/
theorem ofFilePath_of_meaning {path : FilePath} (habsolute : Path.isAbsolute path.byteText = true)
    (hmeaning : Path.meaning path.byteText =
      front ++ [.normal category, .normal resource, .normal file].map FilePath.spellComponent)
    (hfile : Path.IsName file) (hgml : Path.extension? file = some "gml") :
    ofFilePath path = ofNames category resource file := by
  have hname : Path.fileName? path.byteText = some (FilePath.spell file) := by
    rw [Path.fileName?_iff_meaning, hmeaning, List.getLast?_append]
    rfl
  have hself : Path.fileName? (FilePath.spell file) = some (FilePath.spell file) :=
    FilePath.fileName?_spell_eq_some_iff.mpr ⟨file, hfile.fileName?, rfl⟩
  have hextension : Path.extension? path.byteText = some "gml" := by
    rw [← FilePath.extension?_spell_eq_some_iff (by simp), Path.extension?, hself] at hgml
    rw [Path.extension?, hname]
    exact hgml
  rw [ofFilePath, ofDecoded, if_neg (not_not_intro hextension),
    Path.components_of_isAbsolute habsolute, hmeaning]
  simp [FilePath.spellComponent, FilePath.nameText?_spell]

theorem ofPath_of_meaning {path : String} (habsolute : Path.isAbsolute path = true)
    (hmeaning : Path.meaning path = front ++ [.normal category, .normal resource, .normal file])
    (hfile : Path.IsName file) (hgml : Path.extension? file = some "gml") :
    ofPath path = ofNames category resource file := by
  have hspelled : Path.meaning (FilePath.ofText path).byteText =
      front.map FilePath.spellComponent ++
        [.normal category, .normal resource, .normal file].map FilePath.spellComponent := by
    rw [FilePath.byteText_ofText, FilePath.meaning_spell, hmeaning, List.map_append]
  have hroot : Path.isAbsolute (FilePath.ofText path).byteText = true := by
    rw [FilePath.byteText_ofText, FilePath.isAbsolute_spell, habsolute]
  rw [← ofFilePath_ofText habsolute]
  exact ofFilePath_of_meaning hroot hspelled hfile hgml

end DocumentKind

/-! ### Entries of a manifest -/

namespace Manifest

/-- A name without slashes of either kind. -/
structure IsBare (name : String) : Prop where
  ne_empty : name ≠ ""
  slashes : ∀ c ∈ name.toList, c ≠ '/' ∧ c ≠ '\\'

/-- One slash or more, of either kind. -/
structure IsSeparator (s : String) : Prop where
  ne_empty : s ≠ ""
  slashes : ∀ c ∈ s.toList, c = '/' ∨ c = '\\'

/-- Names, and a path in which slashes of either kind stand between them. -/
inductive Spells : List String → String → Prop
  | last {name : String} (hname : IsBare name) : Spells [name] name
  | more {name sep path : String} {names : List String} (hname : IsBare name)
      (hsep : IsSeparator sep) (hmore : Spells names path) :
      Spells (name :: names) (name ++ sep ++ path)

/-- Where the resources of a kind lie, and what the older layout calls the kind. -/
inductive Filed : ResourceKind → String → String → Prop
  | script : Filed .script "scripts" "GMScript"
  | object : Filed .object "objects" "GMObject"

/-- The names in the path of a resource in the standard layout. -/
def standardNames (category n : String) : List String := [category, n, n ++ ".yy"]

open Json in
/-- An entry of either layout for a resource of a kind and a name, among other members. -/
inductive Lists (kind : ResourceKind) (n : String) : Json → Prop
  | legacy {category type path : String} {members value : List (String × Json)} {id : Option Json}
      (hkind : Filed kind category type) (hpath : Spells (standardNames category n) path)
      (hvalue : Holds members "Value" (some (object value))) (hid : Holds members "id" id)
      (hkept : ∀ json ∈ id, json.isKept (nestingLimit - idDepth) = true)
      (hresource : Holds value "resourcePath" (some (text path)))
      (htype : Holds value "resourceType" (some (text type))) : Lists kind n (object members)
  | identified {category type path : String} {members id : List (String × Json)}
      {value : Option Json} (hkind : Filed kind category type)
      (hpath : Spells (standardNames category n) path)
      (hvalue : Holds members "Value" value) (hnull : ∀ json ∈ value, json = .null)
      (hid : Holds members "id" (some (object id)))
      (hkept : (object id).isKept (nestingLimit - idDepth) = true)
      (hname : (object id).get? "name" = some (text n))
      (hplace : (object id).get? "path" = some (text path)) : Lists kind n (object members)

variable {kind : ResourceKind} {n category type path : String} {names : List String}

/-- What stands between slashes of either kind. -/
def slashParts (cs : List Char) : List (List Char) :=
  (Text.splitAll (fun c => c == '/' || c == '\\') cs).filter (!·.isEmpty)

theorem IsBare.slashParts_append {name : String} (h : IsBare name) {rest parts : List (List Char)}
    {cs : List Char}
    (hcut : Text.splitAll (fun c => c == '/' || c == '\\') cs = name.toList :: rest)
    (hrest : rest.filter (!·.isEmpty) = parts) : slashParts cs = name.toList :: parts := by
  rw [slashParts, hcut, List.filter_cons, hrest, if_pos (by simpa using h.ne_empty)]

theorem IsBare.uncut {name : String} (h : IsBare name) :
    ∀ c ∈ name.toList, (c == '/' || c == '\\') = false := by
  intro c hc
  simpa using h.slashes c hc

/-- Between two slashes there is an empty part, which does not count. -/
theorem slashParts_slashes {slashes : List Char} (h : ∀ c ∈ slashes, c = '/' ∨ c = '\\')
    (cs : List Char) : slashParts (slashes ++ cs) = slashParts cs := by
  induction slashes with
  | nil => rfl
  | cons c slashes ih =>
      obtain ⟨hc, hmore⟩ := List.forall_mem_cons.mp h
      rw [slashParts, List.cons_append, Text.splitAll, if_pos (by simpa using hc)]
      exact ih hmore

theorem slashParts_of_spells (h : Spells names path) :
    slashParts path.toList = names.map String.toList := by
  induction h with
  | last hname => exact hname.slashParts_append (Text.splitAll_of_forall hname.uncut) rfl
  | @more name sep path names hname hsep _ ih =>
      obtain ⟨c, cs, hchars⟩ :=
        List.exists_cons_of_ne_nil (mt String.toList_eq_nil_iff.mp hsep.ne_empty)
      have hslashes := hsep.slashes
      rw [hchars] at hslashes
      obtain ⟨hc, hmore⟩ := List.forall_mem_cons.mp hslashes
      rw [String.toList_append, String.toList_append, List.append_assoc, hchars, List.cons_append]
      exact hname.slashParts_append (Text.splitAll_append hname.uncut (by simpa using hc) _)
        ((slashParts_slashes hmore path.toList).trans ih)

/-- Every way to write slashes comes to the same path. -/
theorem normalizeSlashes_of_spells (h : Spells names path) :
    normalizeSlashes path = "/".intercalate names := by
  have hparts := slashParts_of_spells h
  rw [slashParts] at hparts
  rw [normalizeSlashes, hparts, List.map_map]
  congr 1
  exact (List.map_congr_left fun name _ => String.ofList_toList).trans (List.map_id names)

/-! ### Names of resources -/

theorem isBare_of_isIdentifier (h : Name.isIdentifier n = true) :
    IsBare n ∧ ∀ c ∈ n.toList, c ≠ '.' := by
  obtain ⟨c, cs, hchars, hstart, hmore⟩ := (Name.isIdentifier_iff n).mp h
  have hall : ∀ d ∈ n.toList, Token.isIdentChar d = true := by
    rw [hchars]
    exact List.forall_mem_cons.mpr ⟨Token.isIdentChar_of_isIdentStart hstart, hmore⟩
  have hother : ∀ {e : Char}, Token.isIdentChar e = false → ∀ d ∈ n.toList, d ≠ e := by
    rintro e he d hd rfl
    rw [hall d hd] at he
    cases he
  refine ⟨⟨?_, fun d hd => ⟨hother (by decide) d hd, hother (by decide) d hd⟩⟩, hother (by decide)⟩
  rintro rfl
  cases hchars

theorem isName_of_isIdentifier (h : Name.isIdentifier n = true) : Path.IsName n := by
  obtain ⟨hbare, hdot⟩ := isBare_of_isIdentifier h
  obtain ⟨c, hlast⟩ := Option.isSome_iff_exists.mp
    (List.getLast?_isSome.mpr (mt String.toList_eq_nil_iff.mp hbare.ne_empty))
  exact Path.isName_of_getLast? (fun hslash => (hbare.slashes _ hslash).1 rfl) hlast
    (hdot c (List.mem_of_getLast? hlast))

/-- A resource in the standard layout. -/
def standard (kind : ResourceKind) (category n : String) : Resource :=
  { name := n, kind, path := "/".intercalate (standardNames category n) }

theorem isName_of_mem_standardNames (hkind : Filed kind category type)
    (hn : Name.isIdentifier n = true) : ∀ name ∈ standardNames category n, Path.IsName name := by
  have hname := isName_of_isIdentifier hn
  have hcategory : Path.IsName category := by
    cases hkind with
    | script => exact ⟨by decide, rfl⟩
    | object => exact ⟨by decide, rfl⟩
  have hown : Path.IsName (n ++ ".yy") :=
    Path.isName_of_getLast? (by simpa using hname.slash) (by simp) (by decide : 'y' ≠ '.')
  simp only [standardNames, List.forall_mem_cons, List.not_mem_nil, false_imp_iff, implies_true,
    and_true]
  exact ⟨hcategory, hname, hown⟩

theorem legacyResource?_of_spells (hkind : Filed kind category type)
    (hn : Name.isIdentifier n = true) (hpath : Spells (standardNames category n) path) :
    legacyResource? (path, type) = some (standard kind category n) := by
  have hnames := isName_of_mem_standardNames hkind hn
  have hfile : Path.fileName? ("/".intercalate (standardNames category n)) = some (n ++ ".yy") := by
    rw [Path.fileName?_iff_meaning, Path.meaning_intercalate hnames]
    rfl
  have hsplit : Path.splitExtension (n ++ ".yy") = (n, some "yy") := by
    refine Path.splitExtension_eq_some_iff.mpr ⟨?_, by decide, ?_⟩
    · exact (isBare_of_isIdentifier hn).1.ne_empty
    · rw [String.append_assoc]
      rfl
  rw [legacyResource?, normalizeSlashes_of_spells hpath, Path.fileStem?, hfile]
  cases hkind <;> simp [hsplit, standard]

open Json in
theorem identifiedResource?_of_spells (hkind : Filed kind category type)
    (hn : Name.isIdentifier n = true) (hpath : Spells (standardNames category n) path)
    {id : List (String × Json)} (hname : (object id).get? "name" = some (text n))
    (hplace : (object id).get? "path" = some (text path)) :
    identifiedResource? (object id) = some (standard kind category n) := by
  have hnames := isName_of_mem_standardNames hkind hn
  have hlast := holds_entries (Table.ofList id)
  simp only [← get?_object] at hlast
  obtain ⟨found, hfields, hfirst, hsecond⟩ := exists_two_fields (hlast "name") (hlast "path")
  rw [hname] at hfirst
  rw [hplace] at hsecond
  rw [object, identifiedResource?, lastMembers_object, hfields]
  simp only [Option.bind_eq_bind, Option.bind_some, Fields.required_eq, hfirst, hsecond, text,
    string?, normalizeSlashes_of_spells hpath, Path.components_intercalate hnames]
  cases hkind <;> rfl

open Json in
theorem exists_kept {id : Option Json}
    (h : ∀ json ∈ id, json.isKept (nestingLimit - idDepth) = true) :
    ∃ kept, (id.map (nullable? keptId?)).getD (some none) = some kept := by
  cases id with
  | none => exact ⟨none, rfl⟩
  | some json =>
      have hkept : keptId? json = some json := if_pos (h json rfl)
      rw [Option.map_some, Option.getD_some, nullable?.eq_def]
      split
      · exact ⟨none, rfl⟩
      · exact ⟨some json, by rw [hkept]; rfl⟩

open Json in
/-- Entries of either layout give one resource. -/
theorem entry?_of_lists (hn : Name.isIdentifier n = true) {value : Json} (h : Lists kind n value) :
    ∃ category type, Filed kind category type ∧
      entry? value = some (some (standard kind category n)) := by
  cases h with
  | @legacy category type path members value id hkind hpath hvalue hid hkept hresource htype =>
      obtain ⟨found, hfields, hlegacy, hidentity⟩ := exists_two_fields hvalue hid
      obtain ⟨found', hfields', hplace, hword⟩ := exists_two_fields hresource htype
      obtain ⟨kept, hread⟩ := exists_kept hkept
      have hvalue : nullable? legacyValue? (object value) = some (some (path, type)) := by
        have hlegacy : legacyValue? (object value) = some (path, type) := by
          simp [legacyValue?, hfields', hplace, hword, text, string?]
        rw [nullable?_object, hlegacy, Option.map_some]
      refine ⟨category, type, hkind, ?_⟩
      rw [ entry?, hfields]
      simp [hlegacy, hidentity, hvalue, hread, legacyResource?_of_spells hkind hn hpath]
  | @identified category type path members id value hkind hpath hvalue hnull hid hkept hname hplace =>
      obtain ⟨found, hfields, hlegacy, hidentity⟩ := exists_two_fields hvalue hid
      have hread : nullable? keptId? (object id) = some (some (object id)) := by
        have hobject : keptId? (object id) = some (object id) := if_pos hkept
        rw [nullable?_object, hobject, Option.map_some]
      have hnone : (value.map (nullable? legacyValue?)).getD (some none) = some none := by
        cases value with
        | none => rfl
        | some json => rw [hnull json rfl]; rfl
      refine ⟨category, type, hkind, ?_⟩
      rw [ entry?, hfields]
      simp [hlegacy, hidentity, hnone, hread,
        identifiedResource?_of_spells hkind hn hpath hname hplace]

end Manifest

/-! ### Where the files lie -/

namespace Manifest

variable {kind : ResourceKind} {n category type : String}

theorem directory_standard (hkind : Filed kind category type) (hn : Name.isIdentifier n = true) :
    Path.isAbsolute (standard kind category n).directory = false ∧
      Path.meaning (standard kind category n).directory = [.normal category, .normal n] := by
  have hnames := isName_of_mem_standardNames hkind hn
  have hfront : ∀ name ∈ (standardNames category n).dropLast, Path.IsName name := fun name hname =>
    hnames name ((List.dropLast_sublist _).subset hname)
  rw [Resource.directory, standard, Path.parent?_intercalate hnames]
  exact ⟨Path.isAbsolute_intercalate hfront, Path.meaning_intercalate hfront⟩

theorem scriptFile_standard (hkind : Filed kind category type) (hn : Name.isIdentifier n = true) :
    Path.isAbsolute (standard kind category n).scriptFile = false ∧
      Path.meaning (standard kind category n).scriptFile =
        [.normal category, .normal n, .normal (n ++ ".gml")] := by
  obtain ⟨hrelative, hmeaning⟩ := directory_standard hkind hn
  have hfile := Discovery.isName_append_gml (isName_of_isIdentifier hn).slash
  have hname : (standard kind category n).name = n := rfl
  rw [Resource.scriptFile, hname, Path.meaning_join _ hfile.isAbsolute, hmeaning, hfile.meaning]
  exact ⟨Path.isAbsolute_join_eq_false hrelative hfile.isAbsolute, rfl⟩

end Manifest

namespace DocumentKind

variable {category resource path file : String} {front : List PathComponent}

theorem ofPath_join {root : String} (hroot : Path.isAbsolute root = true)
    (hpath : Path.isAbsolute path = false)
    (hmeaning : Path.meaning root ++ Path.meaning path =
      front ++ [.normal category, .normal resource, .normal file])
    (hfile : Path.IsName file) (hgml : Path.extension? file = some "gml") :
    ofPath (Path.join root path) = ofNames category resource file := by
  exact ofPath_of_meaning (Path.isAbsolute_join_eq_true hroot hpath)
    ((Path.meaning_join root hpath).trans hmeaning) hfile hgml

theorem ofFilePath_join {root : FilePath} (hroot : Path.isAbsolute root.byteText = true)
    (hpath : Path.isAbsolute path = false)
    (hmeaning : Path.meaning root.byteText ++ (Path.meaning path).map FilePath.spellComponent =
      front ++ [.normal category, .normal resource, .normal file].map FilePath.spellComponent)
    (hfile : Path.IsName file) (hgml : Path.extension? file = some "gml") :
    ofFilePath (root.join path) = ofNames category resource file := by
  exact ofFilePath_of_meaning (FilePath.isAbsolute_join hroot hpath)
    ((FilePath.meaning_join root hpath).trans hmeaning) hfile hgml

end DocumentKind

namespace Manifest

variable {n file stem : String}

/-- The file of a script is of the kind of this script. -/
theorem kind_scriptFile (hn : Name.isIdentifier n = true) :
    (∀ root, Path.isAbsolute root = true →
      DocumentKind.ofPath (Path.join root (standard .script "scripts" n).scriptFile) = .script n) ∧
    ∀ root : FilePath, Path.isAbsolute root.byteText = true →
      DocumentKind.ofFilePath (root.join (standard .script "scripts" n).scriptFile) =
        .script n := by
  obtain ⟨hrelative, hmeaning⟩ := scriptFile_standard .script hn
  have hfile := Discovery.isName_append_gml (isName_of_isIdentifier hn).slash
  have hgml : Path.extension? (n ++ ".gml") = some "gml" := by
    refine Path.extension?_eq_some_iff.mpr
      ⟨n, (isBare_of_isIdentifier hn).1.ne_empty, by decide, ?_⟩
    rw [hfile.fileName?, String.append_assoc]
    rfl
  rw [← DocumentKind.ofNames_script]
  refine ⟨fun root hroot => ?_, fun root hroot => ?_⟩
  · exact DocumentKind.ofPath_join hroot hrelative (by rw [hmeaning]) hfile hgml
  · exact DocumentKind.ofFilePath_join hroot hrelative (by rw [hmeaning]) hfile hgml

/-- A code file in the directory of an object is of the kind of an event of this object. -/
theorem kind_event (hn : Name.isIdentifier n = true) (hfile : Path.IsName file)
    (hstem : file = stem ++ "." ++ "gml") (hgml : Path.extension? file = some "gml") :
    (∀ root, Path.isAbsolute root = true →
      DocumentKind.ofPath (Path.join (Path.join root (standard .object "objects" n).directory)
        file) = .objectEvent n stem) ∧
    ∀ root : FilePath, Path.isAbsolute root.byteText = true →
      DocumentKind.ofFilePath ((root.join (standard .object "objects" n).directory).join file) =
        .objectEvent n stem := by
  obtain ⟨hrelative, hmeaning⟩ := directory_standard .object hn
  have hkind : DocumentKind.ofNames "objects" n file = .objectEvent n stem := by
    rw [hstem, String.append_assoc]
    exact DocumentKind.ofNames_object n stem
  rw [← hkind]
  refine ⟨fun root hroot => ?_, fun root hroot => ?_⟩
  · have hnames : Path.meaning (Path.join root (standard .object "objects" n).directory) ++
        Path.meaning file =
          Path.meaning root ++ [.normal "objects", .normal n, .normal file] := by
      rw [Path.meaning_join root hrelative, hmeaning, hfile.meaning, List.append_assoc]
      rfl
    exact DocumentKind.ofPath_join (Path.isAbsolute_join_eq_true hroot hrelative)
      hfile.isAbsolute hnames hfile hgml
  · have hnames : Path.meaning (root.join (standard .object "objects" n).directory).byteText ++
        (Path.meaning file).map FilePath.spellComponent =
          Path.meaning root.byteText ++
            [.normal "objects", .normal n, .normal file].map FilePath.spellComponent := by
      rw [FilePath.meaning_join root hrelative, hmeaning, hfile.meaning, List.append_assoc]
      rfl
    exact DocumentKind.ofFilePath_join (FilePath.isAbsolute_join hroot hrelative)
      hfile.isAbsolute hnames hfile hgml

end Manifest

namespace Discovery

variable {disk : Disk} {root : String} {kind : ResourceKind} {n category type : String}
  {file : SourceFile}

theorem url_of_ofPath? {path : String} {kind : DocumentKind}
    (h : SourceFile.ofPath? path kind = some file) : Url.ofFilePath? path = some file.url := by
  obtain ⟨url, hurl, rfl⟩ := Option.map_eq_some_iff.mp h
  exact hurl

/-- What is found of a resource in the standard layout is of the kind that its path says. -/
theorem kind_of_mem (hdisk : disk.Plain) (hkind : Manifest.Filed kind category type)
    (hn : Name.isIdentifier n = true)
    (h : file ∈ resourceFiles disk root (Manifest.standard kind category n)) :
    file.kind = .ofPath file.path ∧ file.url.documentKind = file.kind := by
  suffices hsame : ∃ path kind, SourceFile.ofPath? path kind = some file ∧
      DocumentKind.ofPath path = kind by
    obtain ⟨path, _, hmade, rfl⟩ := hsame
    obtain ⟨hpath, hof⟩ := path_of_ofPath? hmade
    have hurl := Url.documentKind_ofFilePath? (url_of_ofPath? hmade)
    rw [hpath, hof, hurl]
    exact ⟨rfl, rfl⟩
  -- Only an absolute path has an address, so the root is absolute.
  have hroot : ∀ {path kind}, SourceFile.ofPath? path kind = some file →
      (Path.isAbsolute root = false → Path.isAbsolute path = false) →
        Path.isAbsolute root = true := by
    intro path kind hmade hrelative
    by_contra hroot
    have hpath := hrelative (Bool.eq_false_iff.mpr hroot)
    rw [(Url.render_ofFilePath? (url_of_ofPath? hmade)).1] at hpath
    cases hpath
  cases hkind with
  | script =>
      obtain ⟨-, hmem⟩ := List.mem_ite_nil_right.mp h
      have hmade := Option.mem_toList.mp hmem
      have habsolute := hroot hmade fun hrelative =>
        Path.isAbsolute_join_eq_false hrelative (Manifest.scriptFile_standard .script hn).1
      exact ⟨_, _, hmade, (Manifest.kind_scriptFile hn).1 root habsolute⟩
  | object =>
      obtain ⟨path, hmem, hmade⟩ := List.mem_filterMap.mp h
      obtain ⟨stem, hstem, hmade⟩ := Option.bind_eq_some_iff.mp hmade
      obtain ⟨name, rfl, hslash, hgml⟩ := exists_of_mem_withExtension hdisk hmem
      obtain ⟨hname, stem', hstem', hcut⟩ := Path.exists_stem hslash hgml
      have habsolute := hroot hmade fun hrelative =>
        Path.isAbsolute_join_eq_false
          (Path.isAbsolute_join_eq_false hrelative (Manifest.directory_standard .object hn).1)
          hname.isAbsolute
      obtain rfl : stem' = stem := by
        rw [Path.fileStem?_join _ hname, hstem'] at hstem
        exact Option.some.inj hstem
      exact ⟨_, _, hmade, (Manifest.kind_event hn hname hcut hgml).1 root habsolute⟩

/-- What there is of a resource is found: the file of a script and every code file in the
directory of an object, each at its path. -/
structure FindsAll (disk : Disk) (root : String) (resource : Resource) : Prop where
  script : resource.kind = .script → disk.exists? (Path.join root resource.scriptFile) = true →
    ∃ file ∈ resourceFiles disk root resource,
      file.path = Path.join root resource.scriptFile ∧ file.kind = .script resource.name
  events : resource.kind = .object →
    ∀ names, disk.list? (Path.join root resource.directory) = some names →
      ∀ name ∈ names, Path.extension? name = some "gml" →
        ∃ stem, Path.fileStem? name = some stem ∧
          ∃ file ∈ resourceFiles disk root resource,
            file.path = Path.join (Path.join root resource.directory) name ∧
              file.kind = .objectEvent resource.name stem

theorem exists_ofPath? {path : String} (h : Path.isAbsolute path = true) (kind : DocumentKind) :
    ∃ file, SourceFile.ofPath? path kind = some file := by
  rw [SourceFile.ofPath?, Url.ofFilePath?, if_pos h]
  exact ⟨_, rfl⟩

theorem findsAll (hdisk : disk.Plain) (hroot : Path.isAbsolute root = true) {resource : Resource}
    (hdirectory : Path.isAbsolute resource.directory = false)
    (hscript : Path.isAbsolute resource.scriptFile = false) : FindsAll disk root resource where
  script hkind hexists := by
    obtain ⟨file, hmade⟩ :=
      exists_ofPath? (Path.isAbsolute_join_eq_true hroot hscript) (.script resource.name)
    refine ⟨file, ?_, path_of_ofPath? hmade⟩
    simp [resourceFiles, hkind, hexists, hmade]
  events hkind names hlist name hname hgml := by
    obtain ⟨hisName, stem, hstem, -⟩ := Path.exists_stem (hdisk.slash_notMem hlist name hname) hgml
    have habsolute := Path.isAbsolute_join_eq_true
      (Path.isAbsolute_join_eq_true hroot hdirectory) hisName.isAbsolute
    obtain ⟨file, hmade⟩ := exists_ofPath? habsolute (.objectEvent resource.name stem)
    refine ⟨stem, hstem, file, ?_, path_of_ofPath? hmade⟩
    rw [resourceFiles, hkind]
    refine List.mem_filterMap.mpr ⟨_, List.mem_map.mpr ⟨name, ?_, rfl⟩, ?_⟩
    · rw [hlist, Option.getD_some]
      exact List.mem_filter.mpr ⟨hname, beq_iff_eq.mpr hgml⟩
    · rw [Path.fileStem?_join _ hisName, hstem]
      exact hmade

end Discovery

/-- An entry of either layout for a resource in its standard place gives the resource of this kind
and name. Below any root, the file of a script is of the kind of this script and every code file in
the directory of an object of that of an event, whether its path is taken as a text or as bytes, and
so are the files that are found, by their paths as well as by their addresses. Below an absolute
root all files that are there are found. -/
theorem standard_layout_is_agreed_on {kind : ResourceKind} {n : String} {value : Json}
    (hn : Name.isIdentifier n = true) (h : Manifest.Lists kind n value) :
    ∃ resource, Manifest.entry? value = some (some resource) ∧ resource.kind = kind ∧
      resource.name = n ∧
      (kind = .script →
        (∀ root, Path.isAbsolute root = true →
          DocumentKind.ofPath (Path.join root resource.scriptFile) = .script n) ∧
        ∀ root : FilePath, Path.isAbsolute root.byteText = true →
          DocumentKind.ofFilePath (root.join resource.scriptFile) = .script n) ∧
      (kind = .object → ∀ file, '/' ∉ file.toList → Path.extension? file = some "gml" →
        ∃ stem, Path.fileStem? file = some stem ∧
          (∀ root, Path.isAbsolute root = true →
            DocumentKind.ofPath (Path.join (Path.join root resource.directory) file) =
              .objectEvent n stem) ∧
          ∀ root : FilePath, Path.isAbsolute root.byteText = true →
            DocumentKind.ofFilePath ((root.join resource.directory).join file) =
              .objectEvent n stem) ∧
      ∀ (disk : Disk) (root : String), disk.Plain →
        (∀ file ∈ Discovery.resourceFiles disk root resource,
          file.kind = .ofPath file.path ∧ file.url.documentKind = file.kind) ∧
        (Path.isAbsolute root = true → Discovery.FindsAll disk root resource) := by
  obtain ⟨category, type, hkind, hentry⟩ := Manifest.entry?_of_lists hn h
  refine ⟨_, hentry, rfl, rfl, ?_, ?_, fun disk root hdisk =>
    ⟨fun file hfile => ?_, fun hroot => ?_⟩⟩
  · rintro rfl
    cases hkind
    exact Manifest.kind_scriptFile hn
  · rintro rfl file hslash hgml
    cases hkind
    obtain ⟨hfile, stem, hstem, hcut⟩ := Path.exists_stem hslash hgml
    exact ⟨stem, hstem, Manifest.kind_event hn hfile hcut hgml⟩
  · exact Discovery.kind_of_mem hdisk hkind hn hfile
  · exact Discovery.findsAll hdisk hroot (Manifest.directory_standard hkind hn).1
      (Manifest.scriptFile_standard hkind hn).1

open Json in
/-- A script in the older layout, with backslashes. -/
def jumpEntry : Json :=
  object [("Key", text "0e3a"), ("Value", object [("id", text "7c1b"),
    ("resourcePath", text "scripts\\jump\\jump.yy"), ("resourceType", text "GMScript")])]

/-- The file of this script, and nothing else. -/
def jumpDisk : Disk :=
  { root := .directory [("project", .directory [("scripts", .directory [("jump",
      .directory [("jump.gml", .file (some "return 1;"))])])])] }

theorem jump_is_agreed_on :
    Name.isIdentifier "jump" = true ∧ Manifest.Lists .script "jump" jumpEntry ∧ jumpDisk.Plain ∧
      ∃ resource, Manifest.entry? jumpEntry = some (some resource) ∧
        DocumentKind.ofPath (Path.join "/project" resource.scriptFile) = .script "jump" ∧
        ∃ file ∈ Discovery.resourceFiles jumpDisk "/project" resource,
          file.path = "/project/scripts/jump/jump.gml" ∧ file.kind = .script "jump" := by
  have hn : Name.isIdentifier "jump" = true := by decide +kernel
  have hsep : Manifest.IsSeparator "\\" := ⟨by simp, by simp⟩
  have hpath : Manifest.Spells (Manifest.standardNames "scripts" "jump")
      "scripts\\jump\\jump.yy" :=
    .more ⟨by simp, by simp⟩ hsep (.more ⟨by simp, by simp⟩ hsep
      (.last ⟨by simp, by simp⟩))
  have hlists : Manifest.Lists .script "jump" jumpEntry := by
    refine .legacy .script hpath rfl (?_ : Json.Holds _ "id" none) nofun rfl rfl
    rfl
  have hdisk : jumpDisk.Plain :=
    .single (by simp) (.single (by simp) (.single (by simp) (.single (by simp) (.file _))))
  obtain ⟨resource, hentry, hkind, hname, hscript, -, hfound⟩ :=
    standard_layout_is_agreed_on hn hlists
  have hfile : Path.join "/project" resource.scriptFile = "/project/scripts/jump/jump.gml" := by
    have hstandard : Manifest.entry? jumpEntry =
        some (some (Manifest.standard .script "scripts" "jump")) := by decide +kernel
    obtain rfl := Option.some.inj (Option.some.inj (hentry.symm.trans hstandard))
    decide +kernel
  obtain ⟨file, hmem, hat, hof⟩ := ((hfound jumpDisk "/project" hdisk).2 (by decide)).script hkind
    (by rw [hfile]; decide +kernel)
  rw [hfile] at hat
  rw [hname] at hof
  exact ⟨hn, hlists, hdisk, resource, hentry, (hscript rfl).1 "/project" (by decide), file, hmem,
    hat, hof⟩

end Gml
