import Gml.Proofs.Disk
import Gml.Proofs.Url.Files
import Mathlib.Data.List.Forall2
import Mathlib.Data.List.Nodup
import Mathlib.Data.List.Perm.Basic

/-!
# The files of a manifest

The file of a script and the events of an object lie in the directory of the resource. If no two
resources share a directory and the names of scripts lead no further, no file is listed twice.
-/
namespace Gml

/-- The name of the resource that a document belongs to. -/
def DocumentKind.resource? : DocumentKind → Option String
  | .script name => some name
  | .objectEvent object _ => some object
  | .other => none

namespace Manifest

/-- Names and directories of resources are different, and no path has a part of dots alone. -/
structure Distinct (manifest : Manifest) : Prop where
  names : (manifest.resources.map Resource.name).Nodup
  directories : (manifest.resources.map Resource.directory).Nodup
  undotted : ∀ resource ∈ manifest.resources, ∀ part ∈ Path.parts resource.path,
    part ≠ "." ∧ part ≠ ".."

/-- No name of a script leads out of the directory of the script. -/
def Flat (manifest : Manifest) : Prop :=
  ∀ resource ∈ manifest.resources, resource.kind = .script → '/' ∉ resource.name.toList

/-! ### Paths in a manifest -/

/-- Parts that are not empty, with a slash between them. -/
def Normal (path : String) : Prop :=
  ∃ names : List String, path = "/".intercalate names ∧
    ∀ name ∈ names, name ≠ "" ∧ '/' ∉ name.toList

theorem normal_normalizeSlashes (path : String) : Normal (normalizeSlashes path) := by
  refine ⟨_, rfl, List.forall_mem_map.mpr fun part hpart => ?_⟩
  obtain ⟨hpart, hkept⟩ := List.mem_filter.mp hpart
  rw [String.toList_ofList]
  refine ⟨?_, fun hslash => ?_⟩
  · rintro hempty
    have hnil : part = [] := by simpa using congrArg String.toList hempty
    rw [hnil] at hkept
    cases hkept
  · cases Text.eq_false_of_mem_splitAll hpart hslash

theorem normal_of_entry? {value : Json} {resource : Resource}
    (h : entry? value = some (some resource)) : Normal resource.path := by
  obtain ⟨fields, -, h⟩ := Option.bind_eq_some_iff.mp h
  obtain ⟨legacy, -, h⟩ := Option.bind_eq_some_iff.mp h
  obtain ⟨id, -, h⟩ := Option.bind_eq_some_iff.mp h
  cases legacy with
  | some legacy =>
      obtain ⟨path, type⟩ := legacy
      obtain ⟨name, -, h⟩ := Option.bind_eq_some_iff.mp (Option.some.inj h)
      cases h
      exact normal_normalizeSlashes path
  | none =>
      obtain ⟨id, -, h⟩ := Option.bind_eq_some_iff.mp (Option.some.inj h)
      obtain ⟨fields, -, h⟩ := Option.bind_eq_some_iff.mp h
      obtain ⟨name, -, h⟩ := Option.bind_eq_some_iff.mp h
      obtain ⟨path, -, h⟩ := Option.bind_eq_some_iff.mp h
      cases h
      exact normal_normalizeSlashes path

theorem mapM_eq_some_iff {α β : Type} {f : α → Option β} {items : List α} {results : List β} :
    items.mapM f = some results ↔ List.Forall₂ (fun item result => f item = some result) items
      results := by
  induction items generalizing results with
  | nil => simp [eq_comm]
  | cons item rest ih =>
      rw [List.mapM_cons, List.forall₂_cons_left_iff, Option.bind_eq_bind, Option.bind_eq_some_iff]
      refine exists_congr fun result => ?_
      rw [exists_and_left, Option.bind_eq_bind, Option.bind_eq_some_iff]
      refine and_congr_right fun _ => exists_congr fun others => and_congr ih ?_
      rw [Option.pure_def, Option.some.injEq, eq_comm]

theorem exists_of_mapM {α β : Type} {f : α → Option β} {items : List α} {results : List β}
    (h : items.mapM f = some results) {result : β} (hresult : result ∈ results) :
    ∃ item, f item = some result := by
  have hall := mapM_eq_some_iff.mp h
  clear h
  induction hall with
  | nil => cases hresult
  | cons hitem _ ih =>
      rcases List.mem_cons.mp hresult with rfl | hrest
      · exact ⟨_, hitem⟩
      · exact ih hrest

theorem normal_of_mem {manifest : Manifest} {text : String} (h : parse? text = some manifest)
    {resource : Resource} (hresource : resource ∈ manifest.resources) : Normal resource.path := by
  obtain ⟨value, -, h⟩ := Option.bind_eq_some_iff.mp h
  obtain ⟨fields, -, h⟩ := Option.bind_eq_some_iff.mp h
  obtain ⟨entries, hentries, h⟩ := Option.bind_eq_some_iff.mp h
  cases h
  have hentry : some resource ∈ entries := by simpa using hresource
  rw [Json.Fields.orElse] at hentries
  split at hentries
  · cases hentries
    cases hentry
  next list _ =>
      rw [Json.list?.eq_def] at hentries
      split at hentries
      · obtain ⟨value, hvalue⟩ := exists_of_mapM hentries hentry
        exact normal_of_entry? hvalue
      · cases hentries

/-- The directory of a resource is a chain of names. -/
theorem Distinct.exists_names {manifest : Manifest} (h : manifest.Distinct) {resource : Resource}
    (hresource : resource ∈ manifest.resources) (hnormal : Normal resource.path) :
    ∃ names : List String, resource.directory = "/".intercalate names ∧
      ∀ name ∈ names, Path.IsName name := by
  obtain ⟨names, hpath, hnames⟩ := hnormal
  have hundotted := h.undotted resource hresource
  rcases names with _ | ⟨first, rest⟩
  · refine ⟨[], ?_, List.forall_mem_nil _⟩
    rw [Resource.directory, hpath]
    rfl
  · rw [hpath, Path.parts_intercalate (List.cons_ne_nil _ _) fun name hname =>
      (hnames name hname).2] at hundotted
    have hall : ∀ name ∈ first :: rest, Path.IsName name := fun name hname =>
      ⟨(hnames name hname).2, Path.component?_eq_normal (hnames name hname).1
        (hundotted name hname).1 (hundotted name hname).2⟩
    refine ⟨(first :: rest).dropLast, ?_, fun name hname =>
      hall name ((List.dropLast_sublist _).subset hname)⟩
    rw [Resource.directory, hpath, Path.parent?_intercalate hall]

end Manifest

/-! ### Files of one resource -/

namespace Discovery

variable {disk : Disk} {root : String} {manifest : Manifest} {resource : Resource}
  {file other : SourceFile}

/-- Where a file of a resource lies. -/
def filePath (root : String) (resource : Resource) (name : String) : String :=
  match resource.kind with
  | .script => Path.join root (Path.join resource.directory name)
  | _ => Path.join (Path.join root resource.directory) name

theorem path_of_ofPath? {path : String} {kind : DocumentKind}
    (h : SourceFile.ofPath? path kind = some file) : file.path = path ∧ file.kind = kind := by
  obtain ⟨url, -, rfl⟩ := Option.map_eq_some_iff.mp h
  exact ⟨rfl, rfl⟩

theorem extension_append_gml {name extension : String}
    (h : (Path.splitExtension (name ++ ".gml")).2 = some extension) : extension = "gml" := by
  have hreverse : (name ++ ".gml").toList.reverse = 'l' :: 'm' :: 'g' :: '.' :: name.toList.reverse := by
    simp
  simp only [Path.splitExtension, hreverse] at h
  split at h
  · cases h
  · exact (Option.some.inj h).symm

theorem isName_append_gml {name : String} (h : '/' ∉ name.toList) :
    Path.IsName (name ++ ".gml") :=
  Path.isName_of_getLast? (by simpa using h) (by simp) (by decide : 'l' ≠ '.')

/-- The file of a resource at a path. -/
def fileAt? (resource : Resource) (path : String) : Option SourceFile :=
  match resource.kind with
  | .script => SourceFile.ofPath? path (.script resource.name)
  | .object => (Path.fileStem? path).bind fun stem =>
      SourceFile.ofPath? path (.objectEvent resource.name stem)
  | .other => none

theorem of_fileAt? {path : String} (h : fileAt? resource path = some file) :
    file.path = path ∧ file.kind.resource? = some resource.name := by
  unfold fileAt? at h
  split at h
  · obtain ⟨hpath, hkind⟩ := path_of_ofPath? h
    exact ⟨hpath, by rw [hkind]; rfl⟩
  · obtain ⟨stem, -, hfile⟩ := Option.bind_eq_some_iff.mp h
    obtain ⟨hpath, hkind⟩ := path_of_ofPath? hfile
    exact ⟨hpath, by rw [hkind]; rfl⟩
  · cases h

theorem fileAt?_of_mem (h : file ∈ resourceFiles disk root resource) :
    fileAt? resource file.path = some file := by
  unfold resourceFiles at h
  split at h
  next hkind =>
      dsimp only at h
      split at h
      · have hmade := Option.mem_toList.mp h
        rw [fileAt?, hkind, (path_of_ofPath? hmade).1]
        exact hmade
      · cases h
  next hkind =>
      obtain ⟨path, -, hmade⟩ := List.mem_filterMap.mp h
      obtain ⟨stem, -, hfile⟩ := Option.bind_eq_some_iff.mp hmade
      rw [fileAt?, hkind, (path_of_ofPath? hfile).1]
      exact hmade
  · cases h

/-- What is listed with an extension is a name in the directory. -/
theorem exists_of_mem_withExtension (hdisk : disk.Plain) {directory extension path : String}
    (h : path ∈ withExtension disk directory extension) :
    ∃ name, path = Path.join directory name ∧ '/' ∉ name.toList ∧
      Path.extension? name = some extension := by
  obtain ⟨name, hname, rfl⟩ := List.mem_map.mp h
  obtain ⟨hlisted, hextension⟩ := List.mem_filter.mp hname
  refine ⟨name, rfl, ?_, beq_iff_eq.mp hextension⟩
  cases hlist : disk.list? directory with
  | none => rw [hlist] at hlisted; cases hlisted
  | some names => rw [hlist] at hlisted; exact hdisk.slash_notMem hlist name hlisted

/-- A file of a resource lies in the directory of the resource. -/
theorem exists_name (hdisk : disk.Plain)
    (hscript : resource.kind = .script → '/' ∉ resource.name.toList)
    (h : file ∈ resourceFiles disk root resource) :
    ∃ name, Path.IsName name ∧ file.path = filePath root resource name ∧
      ∀ extension, (Path.splitExtension name).2 = some extension → extension = "gml" := by
  have hpath := (of_fileAt? (fileAt?_of_mem h)).1
  unfold resourceFiles at h
  split at h
  next hkind =>
      dsimp only at h
      split at h
      · refine ⟨resource.name ++ ".gml", isName_append_gml (hscript hkind), ?_,
          fun _ => extension_append_gml⟩
        rw [(path_of_ofPath? (Option.mem_toList.mp h)).1, filePath, hkind]
        rfl
      · cases h
  next hkind =>
      obtain ⟨path, hmem, hmade⟩ := List.mem_filterMap.mp h
      obtain ⟨stem, -, hfile⟩ := Option.bind_eq_some_iff.mp hmade
      obtain ⟨name, rfl, hslash, hextension⟩ := exists_of_mem_withExtension hdisk hmem
      obtain ⟨last, hlast, -⟩ := Option.bind_eq_some_iff.mp hextension
      have hisName := Path.isName_of_fileName? hslash hlast
      refine ⟨name, hisName, ?_, fun extension hsome => ?_⟩
      · rw [(path_of_ofPath? hfile).1, filePath, hkind]
      · rw [Path.extension?, hisName.fileName?, Option.bind_some, hsome] at hextension
        exact Option.some.inj hextension
  · cases h

/-- A file of a resource is known by its path. -/
theorem eq_of_path_eq (h : file ∈ resourceFiles disk root resource)
    (h' : other ∈ resourceFiles disk root resource) (hpath : other.path = file.path) :
    other = file := by
  have hother := fileAt?_of_mem h'
  rw [hpath, fileAt?_of_mem h] at hother
  exact (Option.some.inj hother).symm

/-! ### All files -/

theorem normal_of_manifest? (h : manifest? disk root = some manifest)
    (hresource : resource ∈ manifest.resources) : Manifest.Normal resource.path := by
  obtain ⟨path, -, h⟩ := Option.bind_eq_some_iff.mp h
  obtain ⟨text, -, h⟩ := Option.bind_eq_some_iff.mp h
  exact Manifest.normal_of_mem h hresource

theorem meaning_filePath {name : String} (hdirectory : Path.isAbsolute resource.directory = false)
    (hname : Path.IsName name) :
    Path.meaning (filePath root resource name) =
      Path.meaning root ++ (Path.meaning resource.directory ++ [.normal name]) := by
  have hjoin := Path.isAbsolute_join_eq_false hdirectory hname.isAbsolute
  unfold filePath
  split
  · rw [Path.meaning_join _ hjoin, Path.meaning_join _ hname.isAbsolute, hname.meaning]
  · rw [Path.meaning_join _ hname.isAbsolute, Path.meaning_join _ hdirectory, hname.meaning,
      List.append_assoc]

/-- No file is listed twice. -/
theorem eq_of_uri_eq (hdisk : disk.Plain) (hmanifest : manifest? disk root = some manifest)
    (hdistinct : manifest.Distinct) (hflat : manifest.Flat) (h : file ∈ files disk root)
    (h' : other ∈ files disk root) (huri : other.uri = file.uri) : other = file := by
  have hcomponents := Url.components_eq (ofFilePath?_path h') (ofFilePath?_path h) huri
  have habsolute : ∀ {file}, file ∈ files disk root → Path.isAbsolute file.path = true := fun hmem =>
    (Url.render_ofFilePath? (ofFilePath?_path hmem)).1
  rw [Path.components_of_isAbsolute (habsolute h'), Path.components_of_isAbsolute (habsolute h)]
    at hcomponents
  have hmeaning := (List.cons.inj hcomponents).2
  rw [files_of_manifest? hmanifest] at h h'
  obtain ⟨resource, hresource, hfile⟩ := List.mem_flatMap.mp h
  obtain ⟨resource', hresource', hother⟩ := List.mem_flatMap.mp h'
  obtain ⟨name, hname, hpath, -⟩ := exists_name hdisk (hflat resource hresource) hfile
  obtain ⟨name', hname', hpath', -⟩ := exists_name hdisk (hflat resource' hresource') hother
  obtain ⟨names, hdirectory, hnames⟩ :=
    hdistinct.exists_names hresource (normal_of_manifest? hmanifest hresource)
  obtain ⟨names', hdirectory', hnames'⟩ :=
    hdistinct.exists_names hresource' (normal_of_manifest? hmanifest hresource')
  have hrelative : Path.isAbsolute resource.directory = false :=
    hdirectory ▸ Path.isAbsolute_intercalate hnames
  have hrelative' : Path.isAbsolute resource'.directory = false :=
    hdirectory' ▸ Path.isAbsolute_intercalate hnames'
  rw [hpath, hpath', meaning_filePath hrelative hname, meaning_filePath hrelative' hname',
    List.append_cancel_left_eq] at hmeaning
  obtain ⟨hfront, hlast⟩ := List.append_inj' hmeaning rfl
  -- The directories mean the same, so they are one directory, and that of one resource.
  rw [hdirectory, hdirectory', Path.meaning_intercalate hnames, Path.meaning_intercalate hnames',
    List.map_inj_right fun _ _ => PathComponent.normal.inj] at hfront
  have hsame : resource' = resource := by
    refine List.inj_on_of_nodup_map hdistinct.directories hresource' hresource ?_
    rw [hdirectory, hdirectory', hfront]
  obtain rfl : name' = name := by simpa using hlast
  subst hsame
  exact eq_of_path_eq hfile hother (hpath'.trans hpath.symm)

/-! ### Two disks -/

theorem fileName?_filePath {name : String} (h : Path.IsName name) :
    Path.fileName? (filePath root resource name) = some name := by
  unfold filePath
  split
  · exact Path.fileName?_join root (Path.fileName?_join resource.directory h.fileName?)
  · exact Path.fileName?_join _ h.fileName?

theorem withExtension_eq {disk' : Disk} {place : List String} (h : disk.SameBut place disk')
    (directory extension : String) :
    withExtension disk' directory extension = withExtension disk directory extension := by
  rw [withExtension, withExtension, h.list?_eq]

/-- Texts do not matter where files are looked for. -/
theorem resourceFiles_eq {disk' : Disk} {place : List String} (h : disk.SameBut place disk')
    (root : String) : resourceFiles disk' root = resourceFiles disk root := by
  funext resource
  rw [resourceFiles, resourceFiles, withExtension_eq h]
  dsimp only
  rw [h.exists?_eq]

/-! ### Another order -/

/-- The files of a name are those of the resources of this name. -/
theorem filter_files (resources : List Resource) (name : String) :
    (resources.flatMap (resourceFiles disk root)).filter (·.kind.resource? == some name) =
      (resources.filter (·.name == name)).flatMap (resourceFiles disk root) := by
  have hname : ∀ resource, ∀ file ∈ resourceFiles disk root resource,
      (file.kind.resource? == some name) = (resource.name == name) := by
    intro resource file hfile
    rw [(of_fileAt? (fileAt?_of_mem hfile)).2]
    exact Option.some_beq_some
  induction resources with
  | nil => rfl
  | cons resource rest ih =>
      rw [List.flatMap_cons, List.filter_append, ih, List.filter_cons]
      cases hsame : resource.name == name with
      | true =>
          rw [if_pos rfl, List.flatMap_cons, List.filter_eq_self.mpr]
          exact fun file hfile => (hname resource file hfile).trans hsame
      | false =>
          rw [if_neg Bool.false_ne_true, List.filter_eq_nil_iff.mpr, List.nil_append]
          intro file hfile
          rw [hname resource file hfile, hsame]
          exact Bool.false_ne_true

end Discovery

/-- Where names are different, those resources of one name that there are have no order. -/
theorem Manifest.Distinct.filter_eq_of_perm {manifest manifest' : Manifest} (h : manifest.Distinct)
    (hperm : manifest'.resources.Perm manifest.resources) (name : String) :
    manifest'.resources.filter (·.name == name) = manifest.resources.filter (·.name == name) := by
  have hfiltered := hperm.filter (·.name == name)
  have hany : ∀ resources : List Resource, resources.Pairwise fun _ _ => True := fun _ =>
    List.pairwise_of_forall fun _ _ => trivial
  refine List.Perm.eq_of_pairwise ?_ (hany _) (hany _) hfiltered
  intro resource other hresource hother _ _
  obtain ⟨hmem, hname⟩ := List.mem_filter.mp (hfiltered.mem_iff.mp hresource)
  obtain ⟨hmem', hname'⟩ := List.mem_filter.mp hother
  exact List.inj_on_of_nodup_map h.names hmem hmem'
    ((beq_iff_eq.mp hname).trans (beq_iff_eq.mp hname').symm)

end Gml
