import Gml.Proofs.Project.Listing
import Gml.Proofs.Server.Outcomes
import Gml.Proofs.SymbolTable.Registering

/-!
# The order of resources

What a new server knows when it has read the files of a project does not depend on the order in
which the manifest lists the resources, if no file belongs to two of them.
-/
namespace Gml

/-! ### Two manifests -/

/-- The same disk but for the text of a file with the extension of manifests. -/
def Disk.SameButManifest (disk disk' : Disk) : Prop :=
  ∃ directory name, (Path.splitExtension name).2 = some "yyp" ∧
    disk.SameBut (directory ++ [name]) disk'

namespace Disk.SameButManifest

variable {disk disk' : Disk}

theorem read?_eq (h : disk.SameButManifest disk') {path name : String}
    (hname : Path.fileName? path = some name) (hother : (Path.splitExtension name).2 ≠ some "yyp") :
    disk'.read? path = disk.read? path := by
  obtain ⟨directory, manifest, hmanifest, hsame⟩ := h
  refine hsame.read?_eq fun hresolve => hother ?_
  have hlast := getLast?_of_resolve hresolve hname
  rw [List.getLast?_concat, Option.some.injEq] at hlast
  rw [← hlast, hmanifest]

theorem loadConfig_eq (h : disk.SameButManifest disk') (root : String) :
    Storage.loadConfig disk' root = Storage.loadConfig disk root := by
  have hisFile : disk'.isFile = disk.isFile := by
    obtain ⟨directory, manifest, -, hsame⟩ := h
    exact funext hsame.isFile_eq
  unfold Storage.loadConfig
  rw [hisFile]
  split
  next path hpath =>
      obtain ⟨name, hname, rfl⟩ := List.mem_map.mp (List.mem_of_find?_eq_some hpath)
      have hconfig : ∀ name ∈ ProjectConfig.fileNames, Path.fileName? name = some name ∧
          (Path.splitExtension name).2 = some "toml" := by
        simp only [ProjectConfig.fileNames, List.forall_mem_cons]
        exact ⟨⟨rfl, rfl⟩, ⟨rfl, rfl⟩, List.forall_mem_nil _⟩
      obtain ⟨hfile, htoml⟩ := hconfig name hname
      rw [h.read?_eq (Path.fileName?_join root hfile) (by rw [htoml]; decide)]
  next => rfl

/-- If the same manual is found on both disks, they differ in the manifest still when it is kept. -/
theorem loadManual (h : disk.SameButManifest disk') {config : ManualConfig}
    (hkept : Storage.keptManual? disk' config.cachePath = Storage.keptManual? disk config.cachePath)
    (hfresh : Storage.freshManual? disk' config = Storage.freshManual? disk config) :
    (Storage.loadManual disk' config).1 = (Storage.loadManual disk config).1 ∧
      (Storage.loadManual disk config).2.SameButManifest (Storage.loadManual disk' config).2 := by
  unfold Storage.loadManual
  rw [hkept, hfresh]
  split
  · exact ⟨rfl, h⟩
  · split
    next manual _ =>
        obtain ⟨directory, name, hname, hsame⟩ := h
        dsimp only
        have hsaved := hsame.save ((Path.parent? config.cachePath).getD "/") config.cachePath
          (some manual.render)
        exact ⟨rfl, directory, name, hname, hsaved⟩
    next => exact ⟨rfl, h⟩

/-- The same is read in the file of a resource. -/
theorem reading?_eq (h : disk.SameButManifest disk') (hdisk : disk.Plain) {root : String}
    {resource : Resource} (hscript : resource.kind = .script → '/' ∉ resource.name.toList)
    {file : SourceFile} (hfile : file ∈ Discovery.resourceFiles disk root resource) :
    file.reading? disk' = file.reading? disk := by
  obtain ⟨name, hname, hpath, hextension⟩ := Discovery.exists_name hdisk hscript hfile
  have hfileName : Path.fileName? file.path = some name :=
    hpath ▸ Discovery.fileName?_filePath hname
  have hother : (Path.splitExtension name).2 ≠ some "yyp" := by
    intro hmanifest
    exact absurd (hextension _ hmanifest) (by decide)
  rw [SourceFile.reading?, SourceFile.reading?, h.read?_eq hfileName hother]

end Disk.SameButManifest

theorem Disk.Plain.loadManual {disk : Disk} (h : disk.Plain) (config : ManualConfig) :
    (Storage.loadManual disk config).2.Plain := by
  unfold Storage.loadManual
  split
  · exact h
  · split
    next manual _ =>
        dsimp only
        exact h.save ((Path.parent? config.cachePath).getD "/") config.cachePath
          (some manual.render)
    next => exact h

/-! ### Two sessions -/

namespace Session

variable {session session' : Session} {root : FilePath} {manifest manifest' : Manifest}

/-- A cold start begins with the manual and with the files that are found. -/
theorem StartsCold.table_of_root (h : session.StartsCold) (hroot : session.server.root? = some root) :
    session.firstRun.1.session.server.index.table =
      (({} : SymbolTable).seedBuiltins (Storage.loadManual session.disk
        (Storage.loadConfig session.disk root.onDisk).manual).1).registerAll
          session.indexWorkspace.2.discovered := by
  obtain ⟨config, hconfig, -, htable⟩ := table_firstRun hroot
  have hnone : session.indexWorkspace.2.restoredTable? config = none := by
    rw [restoredTable?, h.snapshot config hconfig, Option.bind_none, ite_self]
  obtain ⟨-, -, hloaded⟩ := project_of_root hroot
  obtain rfl : config = Storage.loadConfig session.disk root.onDisk :=
    Option.some.inj (hconfig.symm.trans hloaded)
  rw [hnone, files_firstRun h.limit] at htable
  exact htable

/-- Two sessions with one project, whose manifest lists the resources in another order in the second
one. The same manual is found in both. -/
structure Reordered (session session' : Session) (root : FilePath) (manifest manifest' : Manifest) :
    Prop where
  folder : session.server.root? = some root
  folder' : session'.server.root? = some root
  disk : session.disk.SameButManifest session'.disk
  keptManual :
    let config := (Storage.loadConfig session.disk root.onDisk).manual
    Storage.keptManual? session'.disk config.cachePath =
      Storage.keptManual? session.disk config.cachePath
  freshManual :
    let config := (Storage.loadConfig session.disk root.onDisk).manual
    Storage.freshManual? session'.disk config = Storage.freshManual? session.disk config
  found : Discovery.manifest? session.indexWorkspace.2.disk root.onDisk = some manifest
  found' : Discovery.manifest? session'.indexWorkspace.2.disk root.onDisk = some manifest'
  perm : manifest'.resources.Perm manifest.resources

namespace Reordered

variable {file other : SourceFile}

theorem loaded (h : Reordered session session' root manifest manifest') :
    (Storage.loadManual session'.disk (Storage.loadConfig session'.disk root.onDisk).manual).1 =
        (Storage.loadManual session.disk (Storage.loadConfig session.disk root.onDisk).manual).1 ∧
      session.indexWorkspace.2.disk.SameButManifest session'.indexWorkspace.2.disk := by
  obtain ⟨hdisk, -, -⟩ := project_of_root h.folder
  obtain ⟨hdisk', -, -⟩ := project_of_root h.folder'
  rw [hdisk, hdisk', h.disk.loadConfig_eq]
  exact h.disk.loadManual h.keptManual h.freshManual

/-! ### The files -/

theorem discovered (h : Reordered session session' root manifest manifest') :
    session.indexWorkspace.2.discovered = manifest.resources.flatMap
        (Discovery.resourceFiles session.indexWorkspace.2.disk root.onDisk) ∧
      session'.indexWorkspace.2.discovered = manifest'.resources.flatMap
        (Discovery.resourceFiles session.indexWorkspace.2.disk root.onDisk) := by
  obtain ⟨-, hroot, -⟩ := project_of_root h.folder
  obtain ⟨-, hroot', -⟩ := project_of_root h.folder'
  obtain ⟨directory, name, -, hsame⟩ := h.loaded.2
  rw [discovered_of_root hroot, discovered_of_root hroot', Discovery.files_of_manifest? h.found,
    Discovery.files_of_manifest? h.found', Discovery.resourceFiles_eq hsame]
  exact ⟨rfl, rfl⟩

theorem mem_discovered_iff (h : Reordered session session' root manifest manifest') :
    file ∈ session'.indexWorkspace.2.discovered ↔ file ∈ session.indexWorkspace.2.discovered := by
  rw [h.discovered.1, h.discovered.2]
  exact (h.perm.flatMap_right _).mem_iff

/-- The files of one name come in the same order. -/
theorem filter_discovered (h : Reordered session session' root manifest manifest')
    (hdistinct : manifest.Distinct) (name : String) :
    session'.indexWorkspace.2.discovered.filter (·.kind.resource? == some name) =
      session.indexWorkspace.2.discovered.filter (·.kind.resource? == some name) := by
  rw [h.discovered.1, h.discovered.2, Discovery.filter_files, Discovery.filter_files,
    hdistinct.filter_eq_of_perm h.perm]

theorem plain (h : Reordered session session' root manifest manifest')
    (hdisk : session.disk.Plain) : session.indexWorkspace.2.disk.Plain := by
  rw [(project_of_root h.folder).1]
  exact hdisk.loadManual _

theorem eq_of_uri_eq (h : Reordered session session' root manifest manifest')
    (hdisk : session.disk.Plain) (hdistinct : manifest.Distinct) (hflat : manifest.Flat)
    (hfile : file ∈ session.indexWorkspace.2.discovered)
    (hother : other ∈ session.indexWorkspace.2.discovered) (huri : other.uri = file.uri) :
    other = file := by
  obtain ⟨-, hroot, -⟩ := project_of_root h.folder
  rw [discovered_of_root hroot] at hfile hother
  exact Discovery.eq_of_uri_eq (h.plain hdisk) h.found hdistinct hflat hfile hother huri

/-- At every address the same is read in both sessions. -/
theorem exists_reading (h : Reordered session session' root manifest manifest')
    (hdisk : session.disk.Plain) (hdistinct : manifest.Distinct) (hflat : manifest.Flat)
    (uri : Uri) : ∃ read,
      (∀ file ∈ session.indexWorkspace.2.discovered, file.uri = uri →
        file.reading? session.indexWorkspace.2.disk = read) ∧
      ∀ file ∈ session'.indexWorkspace.2.discovered, file.uri = uri →
        file.reading? session'.indexWorkspace.2.disk = read := by
  by_cases hsome : ∃ file ∈ session.indexWorkspace.2.discovered, file.uri = uri
  · obtain ⟨file, hfile, rfl⟩ := hsome
    have hone : ∀ other ∈ session.indexWorkspace.2.discovered, other.uri = file.uri →
        other = file := fun other hother =>
      h.eq_of_uri_eq hdisk hdistinct hflat hfile hother
    have hsame : file.reading? session'.indexWorkspace.2.disk =
        file.reading? session.indexWorkspace.2.disk := by
      have hlisted := hfile
      rw [h.discovered.1] at hlisted
      obtain ⟨resource, hresource, hof⟩ := List.mem_flatMap.mp hlisted
      exact h.loaded.2.reading?_eq (h.plain hdisk) (hflat resource hresource) hof
    refine ⟨file.reading? session.indexWorkspace.2.disk, fun other hother huri => ?_,
      fun other hother huri => ?_⟩
    · rw [hone other hother huri]
    · rw [hone other (h.mem_discovered_iff.mp hother) huri, hsame]
  · refine ⟨none, fun file hfile huri => ?_, fun file hfile huri => ?_⟩
    · exact absurd ⟨file, hfile, huri⟩ hsome
    · exact absurd ⟨file, h.mem_discovered_iff.mp hfile, huri⟩ hsome

/-! ### What is known -/

/-- Before the first file is read, the same is known in both sessions. -/
theorem start (h : Reordered session session' root manifest manifest') (hcold : session.StartsCold)
    (hcold' : session'.StartsCold) (hdisk : session.disk.Plain) (hdistinct : manifest.Distinct)
    (hflat : manifest.Flat) :
    let start := session.firstRun.1.session.server.index.table
    let start' := session'.firstRun.1.session.server.index.table
    (∀ name, start'.bearers name = start.bearers name) ∧
    (∀ uri, start'.scriptAt.get? uri = start.scriptAt.get? uri) ∧
    ∀ uri, start.Forgets uri ∧ start'.Forgets uri := by
  intro start start'
  obtain ⟨manual, hstart, hstart'⟩ : ∃ manual,
      start = (({} : SymbolTable).seedBuiltins manual).registerAll
        session.indexWorkspace.2.discovered ∧
      start' = (({} : SymbolTable).seedBuiltins manual).registerAll
        session'.indexWorkspace.2.discovered := by
    refine ⟨_, hcold.table_of_root h.folder, ?_⟩
    rw [← h.loaded.1]
    exact hcold'.table_of_root h.folder'
  have hbearers : ∀ name, start'.bearers name = start.bearers name := by
    intro name
    rw [hstart, hstart', SymbolTable.bearers_registerAll, SymbolTable.bearers_registerAll,
      h.filter_discovered hdistinct]
  have hmutual : start.scriptLinks.Mutual := by
    rw [hstart]
    exact SymbolTable.mutual_registerAll rfl rfl fun file hfile other hother =>
      h.eq_of_uri_eq hdisk hdistinct hflat hfile hother
  have hmutual' : start'.scriptLinks.Mutual := by
    rw [hstart']
    refine SymbolTable.mutual_registerAll rfl rfl fun file hfile other hother => ?_
    exact h.eq_of_uri_eq hdisk hdistinct hflat (h.mem_discovered_iff.mp hfile)
      (h.mem_discovered_iff.mp hother)
  have hforgets : ∀ uri files,
      ((({} : SymbolTable).seedBuiltins manual).registerAll files).Forgets uri := fun uri files =>
    (SymbolTable.drops_registerAll _ files).forgets ⟨rfl, rfl⟩
  refine ⟨hbearers, SymbolTable.scriptAt_eq_of_mutual hmutual hmutual' fun name =>
    congrArg SymbolTable.Bearers.script (hbearers name), fun uri => ?_⟩
  rw [hstart, hstart']
  exact ⟨hforgets uri _, hforgets uri _⟩

end Reordered

/-- Two new servers that find no snapshot read the files of a project without a limit, and the
manifest lists the resources in another order for the second. If the names of the resources are
different and so are their directories, the paths have no parts of dots alone and the names of
scripts no slashes, both know the same in the end: scripts with their documentation, objects with
their events, and at every address what was read there. -/
theorem manifest_order_irrelevant (hcold : session.StartsCold) (hcold' : session'.StartsCold)
    (h : Reordered session session' root manifest manifest') (hdisk : session.disk.Plain)
    (hdistinct : manifest.Distinct) (hflat : manifest.Flat) :
    let table := session.indexWorkspace.2.server.index.table
    let table' := session'.indexWorkspace.2.server.index.table
    (∀ name, table'.scripts.get? name = table.scripts.get? name ∧
      table'.objects.get? name = table.objects.get? name) ∧
    ∀ uri, table'.contribution? uri = table.contribution? uri ∧
      table'.hashes.get? uri = table.hashes.get? uri := by
  intro table table'
  obtain ⟨hbearers, hlinks, hforgets⟩ := h.start hcold hcold' hdisk hdistinct hflat
  -- In both sessions the same is read at an address, if any file lies there.
  have htakes : ∀ uri, ∃ read,
      SymbolTable.Takes uri read session.firstRun.1.session.server.index.table table ∧
      SymbolTable.Takes uri read session'.firstRun.1.session.server.index.table table' := by
    intro uri
    obtain ⟨read, hread, hread'⟩ := h.exists_reading hdisk hdistinct hflat uri
    have hlisted : uri ∈ session'.indexWorkspace.2.discovered.map SourceFile.uri ↔
        uri ∈ session.indexWorkspace.2.discovered.map SourceFile.uri := by
      simp only [List.mem_map, h.mem_discovered_iff]
    have htakes' := (hcold'.takes hread').1
    rw [if_congr hlisted rfl rfl] at htakes'
    exact ⟨_, (hcold.takes hread).1, htakes'⟩
  have hobjects : table.objects = session.firstRun.1.session.server.index.table.objects := by
    obtain ⟨read, hread, -⟩ := h.exists_reading hdisk hdistinct hflat ""
    exact (hcold.takes hread).2
  have hobjects' : table'.objects = session'.firstRun.1.session.server.index.table.objects := by
    obtain ⟨read, -, hread'⟩ := h.exists_reading hdisk hdistinct hflat ""
    exact (hcold'.takes hread').2
  refine ⟨fun name => ⟨?_, ?_⟩, fun uri => ?_⟩
  · refine SymbolTable.scripts_get?_eq fun uri => ?_
    obtain ⟨read, hread, hread'⟩ := htakes uri
    exact hread.scriptOf?_eq hread' (hlinks uri)
      (congrArg SymbolTable.Bearers.script (hbearers name))
  · rw [hobjects, hobjects']
    exact congrArg SymbolTable.Bearers.object (hbearers name)
  · obtain ⟨read, hread, hread'⟩ := htakes uri
    obtain ⟨hstart, hstart'⟩ := hforgets uri
    rw [hread.contribution, hread'.contribution, hread.hash, hread'.hash, hstart.1, hstart'.1,
      hstart.2, hstart'.2]
    exact ⟨rfl, rfl⟩

/-! ### Two resources -/

/-- A project with a manual, whose manifest has these entries. -/
def listedDisk (entries : List String) (objects scripts : List (String × DiskNode)) : Disk :=
  let manifest := "\x7b\"resources\":[" ++ ",".intercalate entries ++ "]\x7d"
  ⟨.directory [("p", .directory [
    (".gml-tools", .directory [("gmlDocs.json", .file (some plainManual))]),
    ("objects", .directory objects),
    ("p.yyp", .file (some manifest)),
    ("scripts", .directory scripts)])]⟩

/-- The text of this manifest. -/
def listedText (entries : List String) : String :=
  "\x7b\"resources\":[" ++ ",".intercalate entries ++ "]\x7d"

/-- The entry of a resource in a manifest. -/
def idEntry (name path : String) : String :=
  "\x7b\"id\":\x7b\"name\":\"" ++ name ++ "\",\"path\":\"" ++ path ++ "\"\x7d\x7d"

theorem sameButManifest_listedDisk (entries entries' : List String)
    (objects scripts : List (String × DiskNode)) :
    (listedDisk entries objects scripts).SameButManifest
      (listedDisk entries' objects scripts) := by
  refine ⟨["p"], "p.yyp", rfl, ?_⟩
  refine .directory rfl (fun other hother => ?_) rfl rfl
    (.directory rfl (fun other hother => ?_) rfl rfl (.file _ _))
  · simp [Table.find, Ne.symm hother]
  · simp [Table.find, Ne.symm hother]

theorem plain_listedDisk (entries : List String) {objects scripts : List (String × DiskNode)}
    (hobjects : (DiskNode.directory objects).Plain) (hscripts : (DiskNode.directory scripts).Plain) :
    (listedDisk entries objects scripts).Plain := by
  refine .directory (by simp) (List.forall_mem_singleton.mpr (.directory (by simp) ?_))
  simp only [List.forall_mem_cons]
  exact ⟨.single (by simp) (.file _), hobjects, .file _, hscripts, List.forall_mem_nil _⟩

/-- What is on the disk of such a project. -/
structure Lists (disk : Disk) (manifest : Manifest) : Prop where
  config : Storage.loadConfig disk sampleRoot.onDisk = .base "/p"
  manual : (Storage.keptManual? disk (ProjectConfig.base "/p").manual.cachePath).isSome = true
  snapshot : (Storage.loadSnapshot? disk (ProjectConfig.base "/p").indexing.cacheDir).isNone = true
  manifest : Discovery.manifest? disk sampleRoot.onDisk = some manifest

namespace Lists

variable {disk disk' : Disk}

theorem of_disk {text : String}
    (hconfig : Storage.loadConfig disk sampleRoot.onDisk = .base "/p")
    (hmanual : (Storage.keptManual? disk (ProjectConfig.base "/p").manual.cachePath).isSome = true)
    (hsnapshot : (Storage.loadSnapshot? disk (ProjectConfig.base "/p").indexing.cacheDir).isNone =
      true)
    (hpath : (Discovery.withExtension disk sampleRoot.onDisk "yyp").head? = some "/p/p.yyp")
    (htext : disk.read? "/p/p.yyp" = some text)
    (hreads : Manifest.parse? text = some manifest) : Lists disk manifest :=
  ⟨hconfig, hmanual, hsnapshot, (Discovery.manifest?_of_text _ hpath htext).trans hreads⟩

theorem found (h : Lists disk manifest) : (startedOn disk).indexWorkspace.2.disk = disk ∧
    (startedOn disk).indexWorkspace.2.server.config = some (.base "/p") := by
  obtain ⟨hdisk, -, hconfig⟩ := (startedOn disk).indexWorkspace_project sampleRoot (.base "/p")
    (root_startedOn disk) h.config h.manual
  exact ⟨hdisk, hconfig⟩

theorem discovered (h : Lists disk manifest) : (startedOn disk).indexWorkspace.2.discovered =
    manifest.resources.flatMap (Discovery.resourceFiles disk sampleRoot.onDisk) := by
  obtain ⟨-, hroot, -⟩ := project_of_root (root_startedOn disk)
  rw [discovered_of_root hroot, h.found.1, Discovery.files_of_manifest? h.manifest]

theorem startsCold (h : Lists disk manifest) : (startedOn disk).StartsCold := by
  obtain ⟨hdisk, hloaded⟩ := h.found
  refine ⟨fresh_startedOn disk, fun config hconfig => ?_, fun config hconfig => ?_⟩
  · rw [hloaded, Option.some.injEq] at hconfig
    rw [hdisk, ← hconfig]
    exact Option.isNone_iff_eq_none.mp h.snapshot
  · rw [hloaded, Option.some.injEq] at hconfig
    rw [← hconfig]
    rfl

/-- What is read in the last file of the manifest. -/
theorem contribution?_of_last (h : Lists disk manifest) {files : List SourceFile}
    {file : SourceFile} {text : String} (hfiles : manifest.resources.flatMap
      (Discovery.resourceFiles disk sampleRoot.onDisk) = files ++ [file])
    (hread : disk.read? file.path = some text) (hok : (parse text).ok = true) :
    (startedOn disk).indexWorkspace.2.server.index.table.contribution? file.uri =
      (file.reading text).contribution.stored := by
  rw [← h.found.1] at hread
  exact h.startsCold.contribution?_of_last (h.discovered.trans hfiles) hread hok

theorem reordered (h : Lists disk manifest) (h' : Lists disk' manifest')
    (hdisk : disk.SameButManifest disk') (hperm : manifest'.resources.Perm manifest.resources) :
    Reordered (startedOn disk) (startedOn disk') sampleRoot manifest manifest' := by
  have hconfig : Storage.loadConfig (startedOn disk).disk sampleRoot.onDisk = .base "/p" := h.config
  refine ⟨root_startedOn disk, root_startedOn disk', hdisk, ?_, ?_, ?_, ?_, hperm⟩
  · have hname : Path.fileName? (ProjectConfig.base "/p").manual.cachePath =
        some "gmlDocs.json" := rfl
    have hread : (startedOn disk').disk.read? (ProjectConfig.base "/p").manual.cachePath =
        (startedOn disk).disk.read? (ProjectConfig.base "/p").manual.cachePath :=
      hdisk.read?_eq hname (by decide)
    rw [hconfig]
    dsimp only
    rw [Storage.keptManual?, Storage.keptManual?, hread]
  · rw [hconfig]
    rfl
  · rw [h.found.1]
    exact h.manifest
  · rw [h'.found.1]
    exact h'.manifest

end Lists

/-- A script and an object with an event. -/
def pairDisk (entries : List String) : Disk :=
  listedDisk entries [("o", .directory [("Create_0.gml", .file (some "hp = 3;"))])]
    [("jump", .directory [("jump.gml", .file (some jumpText))])]

def jumpFirst : Disk :=
  pairDisk [idEntry "jump" "scripts/jump/jump.yy", idEntry "o" "objects/o/o.yy"]

def jumpLast : Disk :=
  pairDisk [idEntry "o" "objects/o/o.yy", idEntry "jump" "scripts/jump/jump.yy"]

/-- The entry of an object in the older layout. -/
def objectEntry (path : String) : String :=
  "\x7b\"Value\":\x7b\"resourcePath\":\"" ++ path ++ "\",\"resourceType\":\"GMObject\"\x7d\x7d"

/-- The code of a script whose name leads into the directory of an object. -/
def sharedDisk (entries : List String) : Disk :=
  listedDisk entries [] [("a", .directory [("b", .directory [("c.gml", .file (some "x = 3;"))])])]

def partFirst : Disk :=
  sharedDisk [idEntry "b/c" "scripts/a/a.yy", objectEntry "scripts/a/b/o.yy"]

def partLast : Disk :=
  sharedDisk [objectEntry "scripts/a/b/o.yy", idEntry "b/c" "scripts/a/a.yy"]

def partResource : Resource := ⟨"b/c", .script, "scripts/a/a.yy"⟩

def ownerResource : Resource := ⟨"o", .object, "scripts/a/b/o.yy"⟩

/-- What the manifests of these projects say. -/
theorem samples_read :
    Manifest.parse? (listedText [idEntry "jump" "scripts/jump/jump.yy",
        idEntry "o" "objects/o/o.yy"]) = some ⟨[jumpResource, objectResource]⟩ ∧
      Manifest.parse? (listedText [idEntry "o" "objects/o/o.yy",
        idEntry "jump" "scripts/jump/jump.yy"]) = some ⟨[objectResource, jumpResource]⟩ ∧
      Manifest.parse? (listedText [idEntry "b/c" "scripts/a/a.yy",
        objectEntry "scripts/a/b/o.yy"]) = some ⟨[partResource, ownerResource]⟩ ∧
      Manifest.parse? (listedText [objectEntry "scripts/a/b/o.yy",
        idEntry "b/c" "scripts/a/a.yy"]) = some ⟨[ownerResource, partResource]⟩ := by
  refine ⟨?_, ?_, ?_, ?_⟩ <;>
    rewrite [Manifest.parse?, Manifest.stripTrailingCommas, Json.read?_ofList] <;>
    decide +kernel

theorem sample_lists :
    Lists jumpFirst ⟨[jumpResource, objectResource]⟩ ∧
      Lists jumpLast ⟨[objectResource, jumpResource]⟩ ∧
      Lists partFirst ⟨[partResource, ownerResource]⟩ ∧
      Lists partLast ⟨[ownerResource, partResource]⟩ := by
  obtain ⟨hfirst, hlast, hpart, howner⟩ := samples_read
  refine ⟨.of_disk ?_ ?_ ?_ ?_ ?_ hfirst, .of_disk ?_ ?_ ?_ ?_ ?_ hlast,
    .of_disk ?_ ?_ ?_ ?_ ?_ hpart, .of_disk ?_ ?_ ?_ ?_ ?_ howner⟩ <;> decide +kernel

theorem distinct_samples :
    (Manifest.mk [jumpResource, objectResource]).Distinct ∧
      (Manifest.mk [partResource, ownerResource]).Distinct := by
  refine ⟨⟨?_, ?_, ?_⟩, ?_, ?_, ?_⟩ <;> decide

theorem manifest_order_irrelevant_for_pair :
    let table := (startedOn jumpFirst).indexWorkspace.2.server.index.table
    let table' := (startedOn jumpLast).indexWorkspace.2.server.index.table
    (∀ name, table'.scripts.get? name = table.scripts.get? name ∧
      table'.objects.get? name = table.objects.get? name) ∧
    ∀ uri, table'.contribution? uri = table.contribution? uri ∧
      table'.hashes.get? uri = table.hashes.get? uri := by
  obtain ⟨hfirst, hlast, -⟩ := sample_lists
  have hmanifests : jumpFirst.SameButManifest jumpLast := sameButManifest_listedDisk _ _ _ _
  have hflat : (Manifest.mk [jumpResource, objectResource]).Flat := by
    unfold Manifest.Flat
    decide
  refine manifest_order_irrelevant hfirst.startsCold hlast.startsCold
    (hfirst.reordered hlast hmanifests (.swap _ _ _)) ?_ distinct_samples.1 hflat
  exact plain_listedDisk _ (.single (by simp) (.single (by simp) (.file _)))
    (.single (by simp) (.single (by simp) (.file _)))

/-- The code as a file of the script or of the object. -/
def sharedFile (kind : DocumentKind) : SourceFile :=
  let path := "/p/scripts/a/b/c.gml"
  { path, url := { scheme := "file", authority := some {}, path }, kind }

def partFile : SourceFile := sharedFile (.script "b/c")

def ownerFile : SourceFile := sharedFile (.objectEvent "o" "c")

/-- The file belongs to both, and as a part of the object it has a variable of its own. -/
theorem shared_file_reads :
    [partResource, ownerResource].flatMap (Discovery.resourceFiles partFirst sampleRoot.onDisk) =
        [partFile] ++ [ownerFile] ∧
      [ownerResource, partResource].flatMap (Discovery.resourceFiles partLast sampleRoot.onDisk) =
        [ownerFile] ++ [partFile] ∧
      partFirst.read? ownerFile.path = some "x = 3;" ∧
      partLast.read? partFile.path = some "x = 3;" ∧ (parse "x = 3;").ok = true ∧
      (partFile.reading "x = 3;").contribution.stored ≠
        (ownerFile.reading "x = 3;").contribution.stored := by
  refine ⟨?_, ?_, ?_, ?_, ?_, ?_⟩ <;> decide +kernel

/-- A file that belongs to a script and to an object is read as a part of the one that comes last
in the manifest. -/
theorem manifest_order_matters_for_shared_file :
    let manifest : Manifest := ⟨[partResource, ownerResource]⟩
    (startedOn partFirst).StartsCold ∧ (startedOn partLast).StartsCold ∧
    Reordered (startedOn partFirst) (startedOn partLast) sampleRoot manifest
      ⟨[ownerResource, partResource]⟩ ∧
    partFirst.Plain ∧ manifest.Distinct ∧
    (startedOn partLast).indexWorkspace.2.server.index.table.contribution? partFile.uri ≠
      (startedOn partFirst).indexWorkspace.2.server.index.table.contribution? partFile.uri := by
  obtain ⟨-, -, hfirst, hlast⟩ := sample_lists
  obtain ⟨hfiles, hfiles', hread, hread', hok, hother⟩ := shared_file_reads
  have hmanifests : partFirst.SameButManifest partLast := sameButManifest_listedDisk _ _ _ _
  refine ⟨hfirst.startsCold, hlast.startsCold, hfirst.reordered hlast hmanifests (.swap _ _ _), ?_,
    distinct_samples.2, ?_⟩
  · exact plain_listedDisk _ (.directory nofun nofun)
      (.single (by simp) (.single (by simp) (.single (by simp) (.file _))))
  · have hevent := hfirst.contribution?_of_last hfiles hread hok
    have hscript := hlast.contribution?_of_last hfiles' hread' hok
    have huri : ownerFile.uri = partFile.uri := rfl
    rw [huri] at hevent
    rw [hevent, hscript]
    exact hother

end Session

end Gml
