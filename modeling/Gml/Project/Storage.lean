import Gml.Disk
import Gml.Manual.Bundled
import Gml.Manual.Json
import Gml.Project.Config
import Gml.SymbolTable.Snapshot

/-!
# What a project keeps on disk

The manual is kept in JSON and made anew from markdown when that cannot be read; the
index is kept as a snapshot. Nothing here fails for good: what cannot be read is made
again or goes without, and what cannot be written is not kept.
-/
namespace Gml.Storage

def loadConfig (disk : Disk) (root : String) : ProjectConfig :=
  match (ProjectConfig.fileNames.map (Path.join root)).find? disk.isFile with
  | some path =>
      match disk.read? path with
      | some contents => .ofText root contents
      | none => .base root
  | none => .base root

/-! ### The manual -/

def keptManual? (disk : Disk) (path : String) : Option Manual :=
  (disk.read? path).bind fun contents => (Manual.read contents).toOption

/-- The manual made from the markdown of the project, or the bundled one. -/
def freshManual? (disk : Disk) (config : ManualConfig) : Option Manual :=
  match config.sourcePath with
  | some path => (disk.read? path).bind fun source => (Manual.ofMarkdown source).toOption
  | none => some Manual.bundled

/-- The manual of a project. One that was made anew is kept; if none can be made, it is
empty. -/
def loadManual (disk : Disk) (config : ManualConfig) : Manual × Disk :=
  match keptManual? disk config.cachePath with
  | some manual => (manual, disk)
  | none =>
      match freshManual? disk config with
      | some manual =>
          let directory := (Path.parent? config.cachePath).getD "/"
          (manual, disk.save directory config.cachePath (some manual.render))
      | none => ({}, disk)

/-! ### The index -/

def snapshotPath (directory : String) : String := Path.join directory "index.json"

/-- The snapshot in a directory, if it can be read and has the version of today. -/
def loadSnapshot? (disk : Disk) (directory : String) : Option Snapshot :=
  (disk.read? (snapshotPath directory)).bind fun contents => (Snapshot.read contents).toOption

def saveSnapshot (disk : Disk) (directory : String) (snapshot : Snapshot) : Disk :=
  disk.save directory (snapshotPath directory) (some snapshot.render)

end Gml.Storage
