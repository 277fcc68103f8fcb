import Gml.Json.Decode
import Gml.Lint.Calls
import Gml.Path
import Gml.Toml.Decode
import Gml.Toml.Read

/-!
# Settings

The settings of a project come from a file in its root directory. A file that cannot
be read, or that gives a setting a value of the wrong kind, counts as empty. Paths are
taken from the root and are kept as they are written. An editor may send settings too;
it knows one of them.
-/
namespace Gml

/-- Where the manual of the built-in functions is kept and what it is made from. -/
structure ManualConfig where
  cachePath : String
  /-- The markdown form; without it the bundled manual is used. -/
  sourcePath : Option String := none
  deriving DecidableEq, Repr

structure IndexingConfig where
  cacheEnabled : Bool := true
  cacheDir : String
  maxFiles : Option Nat := none
  deriving DecidableEq, Repr

structure ProjectConfig where
  manual : ManualConfig
  indexing : IndexingConfig
  /-- Sentences of a description to show; zero shows all. -/
  sentences : Nat := 1
  lint : LintSettings := {}
  deriving DecidableEq, Repr

namespace ProjectConfig

/-- The names of the file with the settings, the preferred one first. -/
def fileNames : List String := ["gml-tools.toml", ".gml-tools.toml"]

/-- The settings of a project without such a file. -/
def base (root : String) : ProjectConfig :=
  let data := Path.join root ".gml-tools"
  { manual := { cachePath := Path.join data "gmlDocs.json" }
    indexing := { cacheDir := Path.join data "index-cache" } }

open Toml.Value in
/-- The settings that a document makes out of others. -/
def update? (config : ProjectConfig) (root : String) (document : Toml.Value) :
    Option ProjectConfig := do
  let manual ← document.section? "manual" ["cache_path", "source_path"]
  let indexing ← document.section? "indexing" ["cache_enabled", "cache_dir", "max_files"]
  let hover ← document.section? "hover" ["documentation_sentences"]
  let diagnostics ← document.section? "diagnostics" ["warn_unresolved", "warn_arity"]
  let cachePath ← setting? manual "cache_path" text?
  let sourcePath ← setting? manual "source_path" text?
  let cacheEnabled ← setting? indexing "cache_enabled" bool?
  let cacheDir ← setting? indexing "cache_dir" text?
  let maxFiles ← setting? indexing "max_files" size?
  let sentences ← setting? hover "documentation_sentences" size?
  let warnUnresolved ← setting? diagnostics "warn_unresolved" bool?
  let warnArity ← setting? diagnostics "warn_arity" bool?
  return {
    manual := {
      cachePath := (cachePath.map (Path.join root)).getD config.manual.cachePath
      sourcePath := sourcePath.map (Path.join root) }
    indexing := {
      cacheEnabled := cacheEnabled.getD config.indexing.cacheEnabled
      cacheDir := (cacheDir.map (Path.join root)).getD config.indexing.cacheDir
      maxFiles }
    sentences := sentences.getD config.sentences
    lint := {
      warnUnresolved := warnUnresolved.getD config.lint.warnUnresolved
      warnArity := warnArity.getD config.lint.warnArity } }

def ofText (root contents : String) : ProjectConfig :=
  ((Toml.read? contents).bind ((base root).update? root)).getD (base root)

end ProjectConfig

structure ClientSettings where
  sentences : Option Nat
  deriving DecidableEq, Repr

namespace ClientSettings

/-- The name under which an editor keeps them among its other settings. -/
def sectionName : String := "gml-tools"

/-- Reads the settings of an editor, either all of them or the section alone. The
section is an object, or an array with the one setting. A value that does not fit
counts as none. -/
def ofJson (settings : Json) : ClientSettings :=
  let setting := match (settings.get? sectionName).getD settings with
    | .obj members => (Json.obj members).get? "numberOfDocumentationSentences"
    | .arr [item] => some item
    | _ => none
  ⟨setting.bind (Json.natBelow? Numeral.limit64)⟩

end ClientSettings

end Gml
