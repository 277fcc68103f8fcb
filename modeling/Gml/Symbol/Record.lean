import Gml.Manual.Basic
import Gml.Text.Position

/-!
# Symbol records

What the index knows about a name: the script or object that bears it, the places
where it is declared, and the places where it is used. A document is known by its
URI, and everything it says is its contribution.
-/
namespace Gml

/-- The address of a document, as the client writes it. -/
abbrev Uri := String

/-- A stretch of a document. -/
structure Location where
  uri : Uri
  start : Position
  stop : Position
  deriving DecidableEq, Repr, Inhabited

namespace Location

/-- The first character of a document. -/
def fileStart (uri : Uri) : Location := ⟨uri, ⟨0, 0⟩, ⟨0, 0⟩⟩

/-- By document, then by start, then by end. -/
def le (a b : Location) : Bool :=
  if a.uri = b.uri then
    if a.start = b.start then a.stop.le b.stop else a.start.le b.start
  else decide (a.uri < b.uri)

end Location

/-- Where a variable lives. -/
inductive Scope where
  | ofDocument
  | ofInstance
  | ofGame
  deriving DecidableEq, Repr, Inhabited

def Scope.label : Scope → String
  | .ofDocument => "local"
  | .ofInstance => "instance"
  | .ofGame => "global"

structure VariableRecord where
  name : String
  scope : Scope
  location : Location
  deriving DecidableEq, Repr, Inhabited

/-- A macro, with the place of its name. -/
structure MacroRecord where
  name : String
  value : String
  location : Location
  deriving DecidableEq, Repr, Inhabited

inductive UseKind where
  | declaration
  | read
  | write
  | call
  deriving DecidableEq, Repr, Inhabited

structure SymbolUse where
  name : String
  kind : UseKind
  location : Location
  deriving DecidableEq, Repr, Inhabited

/-- A script. Its signature comes from the comment at its top. -/
structure ScriptRecord where
  name : String
  uri : Uri
  signature : Option Signature := none
  doc : Option String := none
  deriving DecidableEq, Repr, Inhabited

/-- An object with the documents of its events, each once. -/
structure ObjectRecord where
  name : String
  eventUris : List Uri := []
  deriving DecidableEq, Repr, Inhabited

/-- An object gets an event, unless it has it. -/
def ObjectRecord.withEvent (object : ObjectRecord) (uri : Uri) : ObjectRecord :=
  { object with eventUris :=
      if object.eventUris.contains uri then object.eventUris else object.eventUris ++ [uri] }

/-- What one document says. -/
structure Contribution where
  declarations : List VariableRecord := []
  macros : List MacroRecord := []
  uses : List SymbolUse := []
  deriving DecidableEq, Repr, Inhabited

def Contribution.isEmpty (c : Contribution) : Bool :=
  c.declarations.isEmpty && c.macros.isEmpty && c.uses.isEmpty

/-- What a name can stand for. -/
inductive SymbolRecord where
  | script (record : ScriptRecord)
  | object (record : ObjectRecord)
  | macroDef (record : MacroRecord)
  | builtinFunction (record : BuiltinFunction)
  | builtinVariable (record : BuiltinVariable)
  | variable (record : VariableRecord)
  deriving DecidableEq, Repr

end Gml
