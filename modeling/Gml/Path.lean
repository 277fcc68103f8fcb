import Gml.Text.Blank

/-!
# Paths

Paths with `/` between their parts. A path is kept as it was written: joining does
not tidy it. Its components are what it means: empty parts and a `.` inside count
for nothing, a leading `/` is the root, and a leading `.` is a component of its own.
Paths are ordered by their components. A path that comes from outside may be bytes that
are no text.
-/
namespace Gml

inductive PathComponent where
  | root
  | here
  | up
  | normal (name : String)
  deriving DecidableEq, Repr

/-- Whether a component comes before another one: the root, then those without a name,
then names in their order. -/
def PathComponent.before : PathComponent → PathComponent → Bool
  | .normal a, .normal b => decide (a < b)
  | .normal _, _ => false
  | _, .normal _ => true
  | .up, _ => false
  | _, .up => true
  | .here, _ => false
  | _, .here => true
  | .root, .root => false

namespace Path

def parts (path : String) : List String :=
  (Text.splitAll (· == '/') path.toList).map String.ofList

/-- The component that a part behind the first slash stands for. -/
def component? : String → Option PathComponent
  | "" => none
  | "." => none
  | ".." => some .up
  | name => some (.normal name)

def components (path : String) : List PathComponent :=
  match parts path with
  | [] => []
  | first :: rest =>
      let head := match first with
        | "" => if path.isEmpty then [] else [.root]
        | "." => [.here]
        | part => (component? part).toList
      head ++ rest.filterMap component?

def isAbsolute (path : String) : Bool := path.toList.head? == some '/'

/-- A path below another; an absolute one stands for itself. -/
def join (base path : String) : String :=
  if isAbsolute path || base.isEmpty then path
  else if base.toList.getLast? == some '/' then base ++ path
  else base ++ "/" ++ path

/-- The parts without those at the end that count for nothing. The first part always
counts. -/
def trimParts (parts : List String) : List String :=
  match parts with
  | [] => []
  | first :: rest =>
      first :: (rest.reverse.dropWhile fun part => part.isEmpty || part == ".").reverse

/-- The path of some first parts of another. -/
def ofParts : List String → String
  | [""] => "/"
  | parts => "/".intercalate parts

/-- The path without its last component; the root and the empty path have none. -/
def parent? (path : String) : Option String :=
  match trimParts (parts path) with
  | [] => none
  | [part] => if part.isEmpty then none else some ""
  | parts => some (ofParts (trimParts parts.dropLast))

/-- The last component, if it is a name. -/
def fileName? (path : String) : Option String :=
  match (components path).getLast? with
  | some (.normal name) => some name
  | _ => none

/-- A file name before and behind its last dot. A dot at the front belongs to the
name. -/
def splitExtension (name : String) : String × Option String :=
  let cs := name.toList
  let after := (cs.reverse.takeWhile (· != '.')).reverse
  let before := cs.take (cs.length - after.length - 1)
  if after.length = cs.length || before.isEmpty then (name, none)
  else (String.ofList before, some (String.ofList after))

def fileStem? (path : String) : Option String := (fileName? path).map fun name => (splitExtension name).1

def extension? (path : String) : Option String := (fileName? path).bind fun name => (splitExtension name).2

/-- A path and those above it, the longest first, up to a number of steps. -/
def ancestorsFrom : Nat → String → List String
  | 0, path => [path]
  | rounds + 1, path =>
      path :: match parent? path with
        | some parent => ancestorsFrom rounds parent
        | none => []

def ancestors (path : String) : List String := ancestorsFrom path.length path

/-- Whether a list of components comes before another or is the same. -/
def componentsLe : List PathComponent → List PathComponent → Bool
  | [], _ => true
  | _ :: _, [] => false
  | a :: as, b :: bs => if a = b then componentsLe as bs else a.before b

/-- The order of paths. -/
def le (a b : String) : Bool := componentsLe (components a) (components b)

end Path

/-- A path as bytes. -/
structure FilePath where
  bytes : List UInt8
  deriving DecidableEq, Repr

namespace FilePath

def decode? (bytes : List UInt8) : Option String := String.fromUTF8? ⟨bytes.toArray⟩

/-- A path that no file can have. -/
def nowhere : String := "\x00"

/-- The path on disk. Names there are texts. -/
def onDisk (path : FilePath) : String := (decode? path.bytes).getD nowhere

/-- The path with one character for each byte. -/
def byteText (path : FilePath) : String :=
  String.ofList (path.bytes.map fun b => Char.ofNat b.toNat)

/-- The text of a name in the path with one character for each byte. -/
def nameText? (name : String) : Option String :=
  decode? (name.toList.map fun c => UInt8.ofNat c.toNat)

/-- The last name, if it is a text. -/
def fileName? (path : FilePath) : Option String := (Path.fileName? path.byteText).bind nameText?

/-- Whether a path leads below a directory, by their components. -/
def liesIn (path : FilePath) (directory : String) : Bool :=
  (Path.components directory).isPrefixOf (Path.components path.byteText)

end FilePath

end Gml
