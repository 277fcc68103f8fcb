import Gml.ContentHash
import Gml.Json.Print
import Gml.Json.Read
import Gml.Symbol.Json
import Gml.SymbolTable.Basic

/-!
# Snapshots

The symbol table without the built-ins, as it is kept on disk between two sessions.
A hash is only of use to the hash function that made it, so the name of that function
is kept too.
-/
namespace Gml

/-- One document: what it contributes and the hash of the text that this is read from. -/
structure SnapshotFile where
  uri : Uri
  contentHash : Option UInt64 := none
  contribution : Contribution := {}
  deriving DecidableEq, Repr

structure Snapshot where
  version : Nat
  hasher : String := ""
  scripts : List ScriptRecord
  objects : List ObjectRecord
  files : List SnapshotFile
  deriving DecidableEq, Repr

inductive SnapshotError where
  | malformed
  /-- The layout is that of another version. -/
  | versionMismatch (found : Nat)
  deriving DecidableEq, Repr

namespace Snapshot

def currentVersion : Nat := 1

end Snapshot

/-- The message of an error of this library; a malformed text has none. -/
def SnapshotError.message? : SnapshotError → Option String
  | .malformed => none
  | .versionMismatch found =>
      some s!"snapshot version {found} does not match expected {Snapshot.currentVersion}"

open Json

namespace SnapshotFile

def hashToJson (hash : UInt64) : Json := .natural hash.toNat

def hashOfJson? (value : Json) : Option UInt64 := (natBelow? Numeral.limit64 value).map Nat.toUInt64

def toJson (f : SnapshotFile) : Json :=
  .object <|
    [("uri", .text f.uri)]
      ++ member? "content_hash" hashToJson f.contentHash
      ++ [("contribution", f.contribution.toJson)]

def ofJson? (value : Json) : Option SnapshotFile := do
  let fields ← value.fields? ["uri", "content_hash", "contribution"]
  return {
    uri := ← fields.required "uri" string?
    contentHash := ← fields.optional "content_hash" hashOfJson?
    contribution := ← fields.orElse "contribution" {} Contribution.ofJson? }

end SnapshotFile

namespace Snapshot

def toJson (s : Snapshot) : Json :=
  .object [("version", .natural s.version), ("hasher", .text s.hasher),
    ("scripts", .arr (s.scripts.map ScriptRecord.toJson)),
    ("objects", .arr (s.objects.map ObjectRecord.toJson)),
    ("files", .arr (s.files.map SnapshotFile.toJson))]

def ofJson? (value : Json) : Option Snapshot := do
  let fields ← value.fields? ["version", "hasher", "scripts", "objects", "files"]
  return {
    version := ← fields.required "version" (natBelow? Numeral.limit32)
    hasher := ← fields.orElse "hasher" "" string?
    scripts := ← fields.required "scripts" (list? ScriptRecord.ofJson?)
    objects := ← fields.required "objects" (list? ObjectRecord.ofJson?)
    files := ← fields.required "files" (list? SnapshotFile.ofJson?) }

def render (s : Snapshot) : String := s.toJson.compact

/-- A snapshot of the current layout. -/
def checkVersion (s : Snapshot) : Except SnapshotError Snapshot :=
  if s.version = currentVersion then .ok s else .error (.versionMismatch s.version)

/-- Reads the kept form of any version. -/
def decode (contents : String) : Except SnapshotError Snapshot :=
  match (Json.read? contents).bind ofJson? with
  | some s => .ok s
  | none => .error .malformed

def read (contents : String) : Except SnapshotError Snapshot :=
  (decode contents).bind checkVersion

/-- The hash of a document, if it can be compared. -/
def contentHash? (s : Snapshot) (uri : Uri) : Option UInt64 :=
  if s.hasher = ContentHash.hasherName then
    (s.files.find? (·.uri == uri)).bind (·.contentHash)
  else none

end Snapshot

namespace SymbolTable

/-- Sorts texts and leaves one of each. -/
def sortUris (uris : List Uri) : List Uri := (uris.eraseDups).mergeSort fun a b => decide (a ≤ b)

/-- The documents that contribute or have a hash. -/
def knownDocuments (t : SymbolTable) : List Uri := sortUris (t.contributions.keys ++ t.hashes.keys)

def snapshot (t : SymbolTable) : Snapshot :=
  { version := Snapshot.currentVersion
    hasher := ContentHash.hasherName
    scripts := t.scripts.values
    objects := t.objects.values
    files := t.knownDocuments.map fun uri =>
      { uri, contentHash := t.hashes.get? uri, contribution := (t.contributions.get? uri).getD {} } }

def restoreFile (usable : Bool) (t : SymbolTable) (file : SnapshotFile) : SymbolTable :=
  let (_, t) := t.replaceContribution file.uri file.contribution
  match file.contentHash with
  | some hash => if usable then t.setHash file.uri hash else t
  | none => t

def restoreScript (t : SymbolTable) (script : ScriptRecord) : SymbolTable :=
  { t with
    scriptAt := t.scriptAt.set script.uri script.name
    scripts := t.scripts.set script.name script }

def restoreObject (t : SymbolTable) (object : ObjectRecord) : SymbolTable :=
  { t with
    objectAt := object.eventUris.foldl (fun table uri => table.set uri object.name) t.objectAt
    objects := t.objects.set object.name object }

/-- The table of a snapshot, without built-ins. -/
def ofSnapshot (s : Snapshot) : Except SnapshotError SymbolTable :=
  s.checkVersion.map fun s =>
    let usable := s.hasher == ContentHash.hasherName
    let t := s.files.foldl (restoreFile usable) {}
    let t := s.scripts.foldl restoreScript t
    s.objects.foldl restoreObject t

end SymbolTable

end Gml
