import Gml.Json.Decode
import Gml.Json.Read
import Gml.Path

/-!
# Project manifests

A manifest lists the resources of a project in JSON, in one of two layouts. The
older one gives each resource a `Value` with its path and type; the newer one gives
it an `id` with name and path, and writes commas behind last elements, which are
removed before anything else is read.
-/
namespace Gml

inductive ResourceKind where
  | script
  | object
  | other
  deriving DecidableEq, Repr

def ResourceKind.label : ResourceKind → String
  | .script => "Script"
  | .object => "Object"
  | .other => "Other"

structure Resource where
  name : String
  kind : ResourceKind
  /-- Path of the resource's own file, relative to the project. -/
  path : String
  deriving DecidableEq, Repr

structure Manifest where
  resources : List Resource
  deriving DecidableEq, Repr

namespace Resource

/-- The directory that holds the resource, relative to the project. -/
def directory (resource : Resource) : String := (Path.parent? resource.path).getD ""

def scriptFile (resource : Resource) : String :=
  Path.join resource.directory (resource.name ++ ".gml")

end Resource

namespace Manifest

def scripts (manifest : Manifest) : List Resource :=
  manifest.resources.filter (·.kind == .script)

def objects (manifest : Manifest) : List Resource :=
  manifest.resources.filter (·.kind == .object)

/-- Where the removal of commas is in a text. -/
inductive CommaState where
  /-- Outside of strings, with the comma and the blanks behind it that are held back,
  the last one first. -/
  | outside (held : List Char)
  | inString
  | escaped

/-- Drops every comma that only blanks part from a closing bracket or brace. What is
inside of strings stays. -/
def dropCommas : CommaState → List Char → List Char
  | .outside held, [] => held.reverse
  | _, [] => []
  | .inString, c :: cs =>
      c :: dropCommas (if c = '\\' then .escaped else if c = '"' then .outside [] else .inString) cs
  | .escaped, c :: cs => c :: dropCommas .inString cs
  | .outside held, c :: cs =>
      if c = ',' then held.reverse ++ dropCommas (.outside [',']) cs
      else if c = '\x7d' || c = ']' then held.reverse.drop 1 ++ c :: dropCommas (.outside []) cs
      else if Text.isBlank c then
        if held.isEmpty then c :: dropCommas (.outside []) cs
        else dropCommas (.outside (c :: held)) cs
      else held.reverse ++ c :: dropCommas (if c = '"' then .inString else .outside []) cs

/-- A text without commas behind last elements. -/
def stripTrailingCommas (text : String) : String :=
  String.ofList (dropCommas (.outside []) text.toList)

/-- A path written with either slash. -/
def normalizeSlashes (path : String) : String :=
  "/".intercalate
    (((Text.splitAll (fun c => c == '/' || c == '\\') path.toList).filter (!·.isEmpty)).map
      String.ofList)

/-- Path and type of a resource in the older layout. -/
def legacyValue? (value : Json) : Option (String × String) := do
  let fields ← value.fields? ["resourcePath", "resourceType"]
  return (← fields.required "resourcePath" Json.string?,
    ← fields.required "resourceType" Json.string?)

def legacyResource? : String × String → Option Resource
  | (path, type) => do
      let path := normalizeSlashes path
      let name ← Path.fileStem? path
      let kind : ResourceKind :=
        if type = "GMScript" then .script else if type = "GMObject" then .object else .other
      return { name, kind, path }

/-- Name and path of a resource in the newer layout. -/
def identifiedResource? (id : Json) : Option Resource := do
  let id := match id with
    | .obj members => Json.obj (Json.lastMembers members)
    | id => id
  let fields ← id.fields? ["name", "path"]
  let name ← fields.required "name" Json.string?
  let path := normalizeSlashes (← fields.required "path" Json.string?)
  let kind : ResourceKind := match (Path.components path).head? with
    | some (.normal "scripts") => .script
    | some (.normal "objects") => .object
    | _ => .other
  return { name, kind, path }

/-- How many arrays and objects there are around the id of a resource. -/
def idDepth : Nat := 3

/-- Keeps an id as it is, whatever it is. -/
def keptId? (value : Json) : Option Json :=
  if value.isKept (Json.nestingLimit - idDepth) then some value else none

/-- A resource entry, which is nothing if it describes no resource. An entry that
cannot be decoded at all makes the manifest unreadable. -/
def entry? (value : Json) : Option (Option Resource) := do
  let fields ← value.fields? ["Value", "id"]
  let legacy ← fields.placed "Value" legacyValue?
  let id ← fields.placed "id" keptId?
  return match legacy with
    | some legacy => legacyResource? legacy
    | none => id.bind identifiedResource?

def ofJson? (value : Json) : Option Manifest := do
  let fields ← value.fields? ["resources"]
  let entries ← fields.orElse "resources" [] (Json.list? entry?)
  return ⟨entries.filterMap id⟩

/-- Reads a manifest of either layout. -/
def parse? (contents : String) : Option Manifest :=
  (Json.read? (stripTrailingCommas contents)).bind ofJson?

theorem parse?_ofList (cs : List Char) : parse? (String.ofList cs) =
    (Json.read? (String.ofList (dropCommas (.outside []) cs))).bind ofJson? := by
  rw [parse?, stripTrailingCommas, String.toList_ofList]

end Manifest

end Gml
