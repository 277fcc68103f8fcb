import Gml.Project.Discovery
import Gml.Server.Session

/-!
# Documents as resources

A document belongs to a script or to an object, which is registered with it. A table
that was restored from an earlier session is cut down to the files that are still
there.
-/
namespace Gml

namespace SymbolTable

/-- Registers the resource that a document belongs to; a second time changes nothing. -/
def register (t : SymbolTable) (uri : Uri) (kind : DocumentKind) : Except IndexError SymbolTable :=
  match kind with
  | .script name =>
      match t.scripts.get? name with
      | some script => if script.uri = uri then .ok t else .error (.alreadyExists name)
      | none => t.createScript name uri
  | .objectEvent object _ =>
      if t.objects.contains object then t.addEvent object uri
      else (t.createObject object).bind fun t => t.addEvent object uri
  | .other => .ok t

def registerIfPossible (t : SymbolTable) (uri : Uri) (kind : DocumentKind) : SymbolTable :=
  match t.register uri kind with
  | .ok t => t
  | .error _ => t

/-- A script comes under a name that can be given to it, and otherwise nothing changes. -/
theorem registerIfPossible_script (t : SymbolTable) (uri : Uri) (name : String) :
    t.registerIfPossible uri (.script name) =
      match t.checkNewName name with
      | .ok _ => { t with
          scripts := t.scripts.set name { name, uri }
          scriptAt := t.scriptAt.set uri name }
      | .error _ => t := by
  rw [registerIfPossible, register.eq_def]
  dsimp only
  cases hscript : t.scripts.get? name with
  | none =>
      dsimp only
      rw [createScript]
      cases t.checkNewName name with
      | ok => rfl
      | error e => rfl
  | some script =>
      cases hname : t.checkNewName name with
      | ok =>
          rw [(get?_of_checkNewName hname).1] at hscript
          cases hscript
      | error e =>
          by_cases huri : script.uri = uri
          · simp only [if_pos huri]
          · simp only [if_neg huri]

/-- An event comes to its object, which is made under a name that can be given to it. -/
theorem registerIfPossible_event (t : SymbolTable) (uri : Uri) (object event : String) :
    t.registerIfPossible uri (.objectEvent object event) =
      match t.objects.get? object, t.checkNewName object with
      | some record, _ => { t with
          objects := t.objects.set object (record.withEvent uri)
          objectAt := t.objectAt.set uri record.name }
      | none, .ok _ => { t with
          objects := (t.objects.set object { name := object }).set object
            (ObjectRecord.withEvent { name := object } uri)
          objectAt := t.objectAt.set uri object }
      | none, .error _ => t := by
  rw [registerIfPossible, register.eq_def]
  dsimp only
  rw [Table.contains]
  cases hobject : t.objects.get? object with
  | some record => rw [Option.isSome_some, if_pos rfl, addEvent_of_get? hobject]
  | none =>
      rw [Option.isSome_none, if_neg Bool.false_ne_true, createObject]
      cases t.checkNewName object with
      | error e => rfl
      | ok =>
          let made : SymbolTable := { t with objects := t.objects.set object { name := object } }
          have hmade : made.objects.get? object = some { name := object } := by
            dsimp only [made]
            rw [Table.get?_set, if_pos rfl]
          dsimp only [Except.map, Except.bind]
          rw [addEvent_of_get? hmade]

/-- Removes the scripts whose document is not among some files. -/
def pruneScripts (t : SymbolTable) (uris : List Uri) : SymbolTable :=
  let stale := t.scripts.values.filter fun script => !uris.contains script.uri
  stale.foldl (fun t script => ((t.deleteScript script.name).map Prod.snd).toOption.getD t) t

/-- Removes the objects that have no event among some files. -/
def pruneObjects (t : SymbolTable) (objects : List String) : SymbolTable :=
  let stale := t.objects.keys.filter fun name => !objects.contains name
  stale.foldl (fun t name => ((t.deleteObject name).map Prod.snd).toOption.getD t) t

/-- Forgets the documents that are not among some files. -/
def pruneDocuments (t : SymbolTable) (uris : List Uri) : SymbolTable :=
  let known := t.objects.values.flatMap (·.eventUris) ++ t.knownDocuments
  (known.filter fun uri => !uris.contains uri).foldl deleteRecordAt t

/-- Drops what does not belong to the files of a project. -/
def prune (t : SymbolTable) (files : List SourceFile) : SymbolTable :=
  let uris := files.map (·.uri)
  let objects := files.filterMap fun file =>
    match file.kind with
    | .objectEvent object _ => some object
    | _ => none
  ((t.pruneScripts uris).pruneObjects objects).pruneDocuments uris

def registerAll (t : SymbolTable) (files : List SourceFile) : SymbolTable :=
  files.foldl (fun t file => t.registerIfPossible file.uri file.kind) t

end SymbolTable

def Server.register (server : Server) (url : Url) : Server :=
  match server.document? url with
  | some document =>
      server.setTable (server.index.table.registerIfPossible url.render document.kind)
  | none => server

end Gml
