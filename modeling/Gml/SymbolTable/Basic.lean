import Gml.Name
import Gml.ScriptDoc
import Gml.Symbol.Record
import Gml.Table

/-!
# The symbol table

Scripts and objects are registered one by one. All else comes from the documents:
each has a contribution, which is replaced as a whole, and from the contributions
follow the sites of each variable, the definers of each macro and the documents
that use each name. Several documents may define one macro; the first to do so owns
the name, and the others wait in line.
-/
namespace Gml

structure SymbolTable where
  scripts : Table ScriptRecord := .empty
  /-- The script whose code a document is. -/
  scriptAt : Table String := .empty
  objects : Table ObjectRecord := .empty
  /-- The object whose event a document is. -/
  objectAt : Table String := .empty
  /-- The definers of a macro, the owner first. -/
  macros : Table (List MacroRecord) := .empty
  /-- The declarations of a variable. -/
  declarations : Table (List VariableRecord) := .empty
  users : Table (List Uri) := .empty
  contributions : Table Contribution := .empty
  hashes : Table UInt64 := .empty
  builtinFunctions : Table BuiltinFunction := .empty
  builtinVariables : Table BuiltinVariable := .empty
  deriving Inhabited

inductive IndexError where
  | alreadyExists (name : String)
  | invalidName (name : String)
  | unknownScript (name : String)
  | unknownObject (name : String)
  deriving DecidableEq, Repr

def IndexError.message : IndexError → String
  | .alreadyExists name => s!"resource '{name}' already exists"
  | .invalidName name => s!"invalid resource name '{name}'"
  | .unknownScript name => s!"unknown script '{name}'"
  | .unknownObject name => s!"unknown object '{name}'"

/-- A macro that is not the visible one of its name. -/
structure MacroConflict where
  record : MacroRecord
  /-- The document that owns the name; none if a script or an object bears it. -/
  owner : Option Uri
  deriving DecidableEq, Repr

namespace SymbolTable

/-- Takes over a manual in the place of the one before. Of two entries with one name
the later counts. -/
def seedBuiltins (t : SymbolTable) (manual : Manual) : SymbolTable :=
  { t with
    builtinFunctions := .ofList (manual.functions.map fun f => (f.name, f))
    builtinVariables := .ofList (manual.vars.map fun v => (v.name, v)) }

/-! ### Names -/

def variableSites (t : SymbolTable) (name : String) : List VariableRecord :=
  (t.declarations.get? name).getD []

/-- Whether a name is taken: by a resource, a macro, a built-in or a global variable. -/
def exists? (t : SymbolTable) (name : String) : Bool :=
  t.scripts.contains name || t.objects.contains name || t.macros.contains name
    || t.builtinFunctions.contains name || t.builtinVariables.contains name
    || (t.variableSites name).any (·.scope == .ofGame)

def checkNewName (t : SymbolTable) (name : String) : Except IndexError Unit :=
  if !Name.isIdentifier name || Name.isReserved name then .error (.invalidName name)
  else if t.exists? name then .error (.alreadyExists name)
  else .ok ()

theorem get?_of_checkNewName {t : SymbolTable} {name : String} (h : t.checkNewName name = .ok ()) :
    t.scripts.get? name = none ∧ t.objects.get? name = none := by
  rw [checkNewName] at h
  split at h
  · cases h
  · split at h
    · cases h
    next hfree => simp_all [exists?, Table.contains]

/-- What fails changes nothing, so that what holds before holds afterwards if it holds after
every success. -/
theorem attempt {ε : Type} {P : SymbolTable → Prop} {t : SymbolTable}
    {result : Except ε SymbolTable} (h : P t) (hok : ∀ t', result = .ok t' → P t') :
    P (result.toOption.getD t) := by
  cases result with
  | error e => exact h
  | ok t' => exact hok t' rfl

/-! ### Contributions -/

def contribution? (t : SymbolTable) (uri : Uri) : Option Contribution := t.contributions.get? uri

/-- Keeps the records of a list that satisfy `keep`; a list that gets empty goes. -/
def retain {β : Type} (table : Table (List β)) (keep : β → Bool) (name : String) : Table (List β) :=
  match table.get? name with
  | none => table
  | some records =>
      match records.filter keep with
      | [] => table.erase name
      | kept => table.set name kept

def append {β : Type} (table : Table (List β)) (name : String) (record : β) : Table (List β) :=
  table.set name ((table.get? name).getD [] ++ [record])

/-- Adds a record to its list unless it is there. -/
def addOnce (table : Table (List Uri)) (name : String) (uri : Uri) : Table (List Uri) :=
  if ((table.get? name).getD []).contains uri then table else append table name uri

/-- Where the macros of a document stand among the definers of their names. -/
def macroSlots (t : SymbolTable) (uri : Uri) (c : Contribution) : Table Nat :=
  c.macros.foldl
    (fun slots record =>
      match ((t.macros.get? record.name).getD []).findIdx? (·.location.uri == uri) with
      | some slot => slots.set record.name slot
      | none => slots)
    .empty

/-- Takes away what a document contributed, without touching its script. -/
def detach (t : SymbolTable) (uri : Uri) : SymbolTable :=
  match t.contributions.get? uri with
  | none => t
  | some c =>
      { t with
        contributions := t.contributions.erase uri
        declarations := c.declarations.foldl
          (fun table record => retain table (·.location.uri != uri) record.name) t.declarations
        macros := c.macros.foldl
          (fun table record => retain table (·.location.uri != uri) record.name) t.macros
        users := c.uses.foldl (fun table use => retain table (· != uri) use.name) t.users }

def insertAt {β : Type} : Nat → β → List β → List β
  | 0, b, bs => b :: bs
  | _ + 1, b, [] => [b]
  | n + 1, b, c :: bs => c :: insertAt n b bs

/-- Adds the macros of a document. The first of a name goes to the slot where the
document stood before, or to the end; each further one goes behind the one before. -/
def installMacros (slots : Table Nat) :
    List MacroRecord → Table Nat → Table (List MacroRecord) → Table (List MacroRecord)
  | [], _, macros => macros
  | record :: rest, inserted, macros =>
      let definers := (macros.get? record.name).getD []
      let slot := match inserted.get? record.name with
        | some previous => previous + 1
        | none => min ((slots.get? record.name).getD definers.length) definers.length
      installMacros slots rest (inserted.set record.name slot)
        (macros.set record.name (insertAt slot record definers))

/-- The macros of a contribution that are not the visible ones of their names. -/
def macroConflicts (t : SymbolTable) (c : Contribution) : List MacroConflict :=
  c.macros.filterMap fun record =>
    if t.scripts.contains record.name || t.objects.contains record.name then some ⟨record, none⟩
    else
      match (t.macros.get? record.name).bind List.head? with
      | some owner => if owner = record then none else some ⟨record, some owner.location.uri⟩
      | none => none

/-- Replaces what a document contributes and returns the macros that stay hidden. The
signature of its script is left alone. -/
def replaceContribution (t : SymbolTable) (uri : Uri) (c : Contribution) :
    List MacroConflict × SymbolTable :=
  let slots := match t.contributions.get? uri with
    | some old => t.macroSlots uri old
    | none => .empty
  let t := t.detach uri
  let t := { t with
    macros := installMacros slots c.macros .empty t.macros
    declarations := c.declarations.foldl (fun table record => append table record.name record) t.declarations
    users := c.uses.foldl (fun table use => addOnce table use.name uri) t.users }
  (t.macroConflicts c,
    if c.isEmpty then t else { t with contributions := t.contributions.set uri c })

/-! ### Scripts -/

/-- Gives a script the signature of its documentation. -/
def setScriptDoc (t : SymbolTable) (name : String) (doc : ScriptDoc) :
    Except IndexError SymbolTable :=
  match t.scripts.get? name with
  | none => .error (.unknownScript name)
  | some script =>
      let script := { script with signature := some (doc.signature name), doc := doc.description }
      .ok { t with scripts := t.scripts.set name script }

theorem exists_of_setScriptDoc {t t' : SymbolTable} {name : String} {doc : ScriptDoc}
    (h : t.setScriptDoc name doc = .ok t') :
    ∃ script, t.scripts.get? name = some script ∧ t' = { t with
      scripts := t.scripts.set name
        { script with signature := some (doc.signature name), doc := doc.description } } := by
  rw [setScriptDoc] at h
  split at h
  · cases h
  next script hscript =>
      cases h
      exact ⟨script, hscript, rfl⟩

/-- Takes the signature of a script away; it can then be called with any arguments. -/
def clearScriptDoc (t : SymbolTable) (name : String) : SymbolTable :=
  { t with scripts := t.scripts.modify name fun s => { s with signature := none, doc := none } }

/-- Takes away what a document contributed, the signature of its script included. -/
def clearContribution (t : SymbolTable) (uri : Uri) : SymbolTable :=
  let t := t.detach uri
  match t.scriptAt.get? uri with
  | some name => t.clearScriptDoc name
  | none => t

def setHash (t : SymbolTable) (uri : Uri) (hash : UInt64) : SymbolTable :=
  { t with hashes := t.hashes.set uri hash }

def removeDocument (t : SymbolTable) (uri : Uri) : SymbolTable :=
  let t := t.clearContribution uri
  { t with hashes := t.hashes.erase uri }

def createScript (t : SymbolTable) (name : String) (uri : Uri) : Except IndexError SymbolTable :=
  (t.checkNewName name).map fun _ =>
    { t with
      scriptAt := t.scriptAt.set uri name
      scripts := t.scripts.set name { name, uri } }

theorem eq_of_createScript {t t' : SymbolTable} {name : String} {uri : Uri}
    (h : t.createScript name uri = .ok t') :
    t.checkNewName name = .ok () ∧ t' = { t with
      scriptAt := t.scriptAt.set uri name
      scripts := t.scripts.set name { name, uri } } := by
  rw [createScript] at h
  cases hname : t.checkNewName name with
  | error e => rw [hname] at h; cases h
  | ok =>
      rw [hname] at h
      cases h
      exact ⟨rfl, rfl⟩

def scriptAt? (t : SymbolTable) (uri : Uri) : Option ScriptRecord :=
  (t.scriptAt.get? uri).bind t.scripts.get?

/-- Removes a script with all that its document contributed. -/
def deleteScript (t : SymbolTable) (name : String) : Except IndexError (ScriptRecord × SymbolTable) :=
  match t.scripts.get? name with
  | none => .error (.unknownScript name)
  | some script =>
      let t := { t with
        scripts := t.scripts.erase name
        scriptAt := t.scriptAt.erase script.uri }
      .ok (script, t.removeDocument script.uri)

theorem deleteScript_induction {P : SymbolTable → Prop} {t : SymbolTable} {name : String} (h : P t)
    (hremoved : ∀ script, t.scripts.get? name = some script →
      P ({ t with
        scripts := t.scripts.erase name
        scriptAt := t.scriptAt.erase script.uri }.removeDocument script.uri)) :
    P (((t.deleteScript name).map Prod.snd).toOption.getD t) := by
  rw [deleteScript]
  cases hscript : t.scripts.get? name with
  | none => exact h
  | some script => exact hremoved script hscript

/-! ### Objects -/

def createObject (t : SymbolTable) (name : String) : Except IndexError SymbolTable :=
  (t.checkNewName name).map fun _ => { t with objects := t.objects.set name { name } }

theorem eq_of_createObject {t t' : SymbolTable} {name : String}
    (h : t.createObject name = .ok t') :
    t.checkNewName name = .ok () ∧ t' = { t with objects := t.objects.set name { name } } := by
  rw [createObject] at h
  cases hname : t.checkNewName name with
  | error e => rw [hname] at h; cases h
  | ok =>
      rw [hname] at h
      cases h
      exact ⟨rfl, rfl⟩

/-- Makes a document an event of an object. -/
def addEvent (t : SymbolTable) (name : String) (uri : Uri) : Except IndexError SymbolTable :=
  match t.objects.get? name with
  | none => .error (.unknownObject name)
  | some object =>
      let eventUris :=
        if object.eventUris.contains uri then object.eventUris else object.eventUris ++ [uri]
      .ok { t with
        objects := t.objects.set name { object with eventUris }
        objectAt := t.objectAt.set uri object.name }

theorem addEvent_of_get? {t : SymbolTable} {name : String} {object : ObjectRecord}
    (h : t.objects.get? name = some object) (uri : Uri) :
    t.addEvent name uri = .ok { t with
      objects := t.objects.set name (object.withEvent uri)
      objectAt := t.objectAt.set uri object.name } := by
  rw [addEvent, h]
  rfl

theorem exists_of_addEvent {t t' : SymbolTable} {name : String} {uri : Uri}
    (h : t.addEvent name uri = .ok t') :
    ∃ object, t.objects.get? name = some object ∧ t' = { t with
      objects := t.objects.set name (object.withEvent uri)
      objectAt := t.objectAt.set uri object.name } := by
  cases hobject : t.objects.get? name with
  | none => rw [addEvent, hobject] at h; cases h
  | some object =>
      rw [addEvent_of_get? hobject] at h
      cases h
      exact ⟨object, rfl, rfl⟩

/-- Removes an object with all that its events contributed. -/
def deleteObject (t : SymbolTable) (name : String) : Except IndexError (ObjectRecord × SymbolTable) :=
  match t.objects.get? name with
  | none => .error (.unknownObject name)
  | some object =>
      let t := { t with objects := t.objects.erase name }
      .ok (object, object.eventUris.foldl
        (fun t uri => { t with objectAt := t.objectAt.erase uri }.removeDocument uri) t)

/-- An object goes first and then its events, one after the other. -/
theorem deleteObject_induction {P : SymbolTable → Prop} {t : SymbolTable} {name : String} (h : P t)
    (herased : P { t with objects := t.objects.erase name })
    (hevent : ∀ object, t.objects.get? name = some object → ∀ uri ∈ object.eventUris, ∀ t', P t' →
      P ({ t' with objectAt := t'.objectAt.erase uri }.removeDocument uri)) :
    P (((t.deleteObject name).map Prod.snd).toOption.getD t) := by
  rw [deleteObject]
  cases hobject : t.objects.get? name with
  | none => exact h
  | some object =>
      exact List.foldlRecOn object.eventUris _ herased fun t' ht' uri huri =>
        hevent object hobject uri huri t' ht'

/-- Forgets a document and its link to the object it is an event of. -/
def deleteRecordAt (t : SymbolTable) (uri : Uri) : SymbolTable :=
  let t := match t.objectAt.get? uri with
    | none => t
    | some object =>
        { t with
          objectAt := t.objectAt.erase uri
          objects := t.objects.modify object fun o =>
            { o with eventUris := o.eventUris.filter (· != uri) } }
  t.removeDocument uri

end SymbolTable

end Gml
