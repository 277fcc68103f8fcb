import Gml.Path

/-!
# Kinds of document

A code file is a script or an event of an object, depending on where it lies. Only
the last three names of its path matter.
-/
namespace Gml

inductive DocumentKind where
  /-- `scripts/name/name.gml` -/
  | script (name : String)
  /-- `objects/object/event.gml` -/
  | objectEvent (object event : String)
  | other
  deriving DecidableEq, Repr, Inhabited

namespace DocumentKind

/-- The kind of the file whose path ends in these names. -/
def ofNames (category resource file : String) : DocumentKind :=
  match Text.dropEnding? ".gml".toList file.toList with
  | none => .other
  | some stem =>
      let stem := String.ofList stem
      if category = "scripts" && stem = resource then .script resource
      else if category = "objects" then .objectEvent resource stem
      else .other

/-- The kind of the file at a path, where names that cannot be decoded do not count. -/
def ofDecoded (decode : String → Option String) (path : String) : DocumentKind :=
  if Path.extension? path ≠ some "gml" then .other
  else
    let names := (Path.components path).filterMap fun
      | .normal name => decode name
      | _ => none
    match names.reverse with
    | file :: resource :: category :: _ => ofNames category resource file
    | _ => .other

def ofPath (path : String) : DocumentKind := ofDecoded some path

def ofFilePath (path : FilePath) : DocumentKind := ofDecoded FilePath.nameText? path.byteText

def isScript : DocumentKind → Bool
  | .script _ => true
  | _ => false

def isObjectEvent : DocumentKind → Bool
  | .objectEvent _ _ => true
  | _ => false

end DocumentKind

end Gml
