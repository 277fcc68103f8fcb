import Gml.Glob
import Gml.Project.DocumentKind
import Gml.Project.Manifest
import Gml.Url

/-!
# Finding the files of a project

The manifest in the root directory says which resources there are and in which order.
Without a manifest that can be read, every code file below the root counts, in the
order of the paths, and its place says what it is.
-/
namespace Gml

structure SourceFile where
  path : String
  url : Url
  kind : DocumentKind
  deriving DecidableEq, Repr

namespace SourceFile

/-- The key of the file in the index. -/
def uri (file : SourceFile) : String := file.url.render

/-- A file at a path, if the path has an address. -/
def ofPath? (path : String) (kind : DocumentKind) : Option SourceFile :=
  (Url.ofFilePath? path).map fun url => ⟨path, url, kind⟩

end SourceFile

namespace Discovery

/-- The entries of a directory with an extension, in order. -/
def withExtension (disk : Disk) (directory extension : String) : List String :=
  (((disk.list? directory).getD []).filter fun name => Path.extension? name == some extension).map
    (Path.join directory)

/-- The manifest of the project in a directory: the first of the files that could be
one. -/
def manifest? (disk : Disk) (root : String) : Option Manifest := do
  let path ← (withExtension disk root "yyp").head?
  Manifest.parse? (← disk.read? path)

theorem manifest?_of_text {disk : Disk} {root text : String} (path : String)
    (hpath : (withExtension disk root "yyp").head? = some path)
    (htext : disk.read? path = some text) : manifest? disk root = Manifest.parse? text := by
  simp only [manifest?, hpath, htext, Option.bind_eq_bind, Option.bind_some]

/-- The code files of a resource: that of a script, if it is there, or all events of an
object. -/
def resourceFiles (disk : Disk) (root : String) (resource : Resource) : List SourceFile :=
  match resource.kind with
  | .script =>
      let path := Path.join root resource.scriptFile
      if disk.exists? path then (SourceFile.ofPath? path (.script resource.name)).toList else []
  | .object =>
      (withExtension disk (Path.join root resource.directory) "gml").filterMap fun path => do
        SourceFile.ofPath? path (.objectEvent resource.name (← Path.fileStem? path))
  | .other => []

/-- Every code file below a directory. The path of the directory is part of a pattern,
so that its name can stand for others. -/
def allFiles (disk : Disk) (root : String) : List SourceFile :=
  (Glob.find disk (Path.join (Path.join root "**") "*.gml")).filterMap fun path =>
    SourceFile.ofPath? path (.ofPath path)

def files (disk : Disk) (root : String) : List SourceFile :=
  match manifest? disk root with
  | some manifest => manifest.resources.flatMap (resourceFiles disk root)
  | none => allFiles disk root

theorem files_of_manifest? {disk : Disk} {root : String} {manifest : Manifest}
    (h : manifest? disk root = some manifest) :
    files disk root = manifest.resources.flatMap (resourceFiles disk root) := by
  unfold files
  rw [h]

end Discovery

end Gml
