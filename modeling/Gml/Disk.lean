import Gml.Path
import Gml.Table

/-!
# The disk

A tree of directories and files. A file holds a text, or bytes that are none. Entries
of a directory are kept in the order of their names, so that walking the tree meets
paths in their order, component by component. Paths are resolved name by name from
the root, and every step leads out of a directory that exists. Names and paths have a
greatest length, and the null character stands in none.
-/
namespace Gml

inductive DiskNode where
  /-- A file; `none` if its bytes are no text. -/
  | file (text : Option String)
  | directory (entries : List (String × DiskNode))
  deriving Inhabited

namespace DiskNode

def isFile : DiskNode → Bool
  | .file _ => true
  | .directory _ => false

def isDirectory (node : DiskNode) : Bool := !node.isFile

def entries : DiskNode → List (String × DiskNode)
  | .file _ => []
  | .directory entries => entries

def place (name : String) (node : DiskNode) : List (String × DiskNode) → List (String × DiskNode)
  | [] => [(name, node)]
  | (other, here) :: rest =>
      if name = other then (name, node) :: rest
      else if name < other then (name, node) :: (other, here) :: rest
      else (other, here) :: place name node rest

def find? : List String → DiskNode → Option DiskNode
  | [], node => some node
  | name :: names, node => (Table.find name node.entries).bind (find? names)

/-- Makes a directory in one that exists. -/
def makeDirectory? : List String → DiskNode → Option DiskNode
  | _, .file _ => none
  | [], .directory _ => none
  | [name], .directory entries =>
      if (Table.find name entries).isSome then none
      else some (.directory (place name (.directory []) entries))
  | name :: names, .directory entries => do
      let node ← makeDirectory? names (← Table.find name entries)
      return .directory (place name node entries)

/-- Writes a file into a directory that exists. -/
def write? (text : Option String) : List String → DiskNode → Option DiskNode
  | _, .file _ => none
  | [], .directory _ => none
  | [name], .directory entries =>
      if ((Table.find name entries).map isDirectory).getD false then none
      else some (.directory (place name (.file text) entries))
  | name :: names, .directory entries => do
      let node ← write? text names (← Table.find name entries)
      return .directory (place name node entries)

/-- Takes an entry away, with all that is below it. -/
def remove : List String → DiskNode → DiskNode
  | _, .file text => .file text
  | [], node => node
  | [name], .directory entries => .directory (entries.filter fun entry => entry.1 != name)
  | name :: names, .directory entries =>
      match Table.find name entries with
      | some node => .directory (place name (remove names node) entries)
      | none => .directory entries

mutual

/-- Everything below a node with the names that lead to it, parents first. -/
def descendants : DiskNode → List (List String × DiskNode)
  | .file _ => []
  | .directory entries => descendantsAll entries

def descendantsAll : List (String × DiskNode) → List (List String × DiskNode)
  | [] => []
  | (name, node) :: rest =>
      ([name], node) :: (descendants node).map (fun (names, node) => (name :: names, node))
        ++ descendantsAll rest

end

end DiskNode

structure Disk where
  root : DiskNode := .directory []
  deriving Inhabited

inductive DiskError where
  /-- A directory on the way is missing. -/
  | missing
  /-- Anything else. -/
  | refused
  deriving DecidableEq, Repr

namespace Disk

/-- The greatest length of a name, in bytes. -/
def longestName : Nat := 255

def longestPath : Nat := 4095

/-- Whether a disk looks at a path at all. -/
def isUsable (path : String) : Bool :=
  Path.isAbsolute path && path.utf8ByteSize ≤ longestPath && !path.toList.contains '\x00'

/-- The names that a component leads to from a directory. -/
def step (disk : Disk) (names : List String) (component : PathComponent) :
    Except DiskError (List String) :=
  match component, disk.root.find? names with
  | _, none => .error .missing
  | _, some (.file _) => .error .refused
  | .root, _ => .ok []
  | .here, _ => .ok names
  | .up, _ => .ok names.dropLast
  | .normal name, _ =>
      if name.utf8ByteSize ≤ longestName then .ok (names ++ [name]) else .error .refused

/-- The names from the root that an absolute path stands for. -/
def resolve (disk : Disk) (path : String) : Except DiskError (List String) :=
  if isUsable path then (Path.components path).foldlM disk.step [] else .error .refused

/-- Whether a path can only be that of a directory: it ends in a slash or a dot. -/
def namesDirectory (path : String) : Bool :=
  match (Path.parts path).getLast? with
  | some part => part.isEmpty || part == "." || part == ".."
  | none => false

def node? (disk : Disk) (path : String) : Option DiskNode :=
  match disk.resolve path with
  | .ok names => (disk.root.find? names).filter fun node => node.isDirectory || !namesDirectory path
  | .error _ => none

def exists? (disk : Disk) (path : String) : Bool := (disk.node? path).isSome

def isFile (disk : Disk) (path : String) : Bool := ((disk.node? path).map (·.isFile)).getD false

def isDirectory (disk : Disk) (path : String) : Bool :=
  ((disk.node? path).map (·.isDirectory)).getD false

def read? (disk : Disk) (path : String) : Option String :=
  match disk.node? path with
  | some (.file text) => text
  | _ => none

def list? (disk : Disk) (path : String) : Option (List String) :=
  match disk.node? path with
  | some (.directory entries) => some (entries.map Prod.fst)
  | _ => none

/-! ### Changes -/

/-- Whether the last part of a path, slashes aside, is a dot. -/
def endsInDot (path : String) : Bool :=
  ((Path.parts path).filter (!·.isEmpty)).getLast? == some "."

/-- Makes a directory in one that exists. A dot at the end of the path is looked for in
the directory that is to be made. -/
def makeDirectory (disk : Disk) (path : String) : Except DiskError Disk := do
  let names ← disk.resolve path
  if (disk.root.find? names).isSome then .error .refused
  else if endsInDot path then .error .missing
  else
    match disk.root.makeDirectory? names with
    | some root => .ok ⟨root⟩
    | none => .error .refused

/-- Makes the first of some paths, which lie one below the other, from the first one on
whose directory exists. What was made stays, even if it was in vain. -/
def makeAll : List String → Disk → Bool × Disk
  | [], disk => (false, disk)
  | path :: above, disk =>
      match disk.makeDirectory path with
      | .ok disk => (true, disk)
      | .error .refused => (disk.isDirectory path, disk)
      | .error .missing =>
          match makeAll above disk with
          | (false, disk) => (false, disk)
          | (true, disk) =>
              match disk.makeDirectory path with
              | .ok disk => (true, disk)
              | .error _ => (disk.isDirectory path, disk)

/-- Makes a directory and those above it, where they are missing. Says whether it is
there now. -/
def makeDirectories (disk : Disk) (path : String) : Bool × Disk := makeAll (Path.ancestors path) disk

def write? (disk : Disk) (path : String) (text : Option String) : Option Disk :=
  if namesDirectory path then none
  else
    match disk.resolve path with
    | .ok names => (disk.root.write? text names).map Disk.mk
    | .error _ => none

/-- Writes a file and makes the directories above it. What cannot be written is not
kept. -/
def save (disk : Disk) (directory path : String) (text : Option String) : Disk :=
  match disk.makeDirectories directory with
  | (true, disk) => (disk.write? path text).getD disk
  | (false, disk) => disk

def remove (disk : Disk) (path : String) : Disk :=
  match disk.resolve path with
  | .ok names => ⟨disk.root.remove names⟩
  | .error _ => disk

/-- Everything below a directory with the names that lead to it, in the order of the
paths. -/
def descendants (disk : Disk) (path : String) : List (List String × DiskNode) :=
  ((disk.node? path).map (·.descendants)).getD []

/-- The files below a directory by their paths from there, in the order of these
texts. -/
def files (disk : Disk) (path : String) : List String :=
  let found := (disk.descendants path).filter fun (_, node) => node.isFile
  (found.map fun (names, _) => "/".intercalate names).mergeSort fun a b => decide (a ≤ b)

end Disk

end Gml
