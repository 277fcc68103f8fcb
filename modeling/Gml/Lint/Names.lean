import Gml.Lint.Occurrence
import Gml.Project.DocumentKind
import Gml.Symbol.Record

/-!
# What a document contributes

Each occurrence of a name becomes one use, and the first declaration of a name in a
scope also becomes a record. `var` names and parameters belong to the document,
`globalvar` and `global.` names to the game. In an event of an object a plain
assignment to a name that is not the document's own makes an instance variable, except
in the body of a `with`, where the name may belong to another instance. A declared
function is global in a script and belongs to the instance in an event.
-/
namespace Gml

/-- Where a document is and how its offsets become positions. -/
structure DocumentView where
  uri : Uri
  kind : DocumentKind
  tree : Tree
  lines : LineIndex

def DocumentView.location (view : DocumentView) (span : Span) : Location :=
  ⟨view.uri, view.lines.position span.start, view.lines.position span.stop⟩

namespace Names

/-- What is known from the occurrences read so far. -/
structure State where
  /-- Names that belong to the document. -/
  own : List String := []
  declared : List (Scope × String) := []
  contribution : Contribution := {}

namespace State

def addUse (s : State) (name : String) (kind : UseKind) (location : Location) : State :=
  let c := s.contribution
  { s with contribution := { c with uses := c.uses ++ [⟨name, kind, location⟩] } }

def addMacro (s : State) (name value : String) (location : Location) : State :=
  let c := s.contribution
  { s with contribution := { c with macros := c.macros ++ [⟨name, value, location⟩] } }

def addVariable (s : State) (name : String) (scope : Scope) (location : Location) : State :=
  let c := s.contribution
  { s with
    declared := (scope, name) :: s.declared
    contribution := { c with declarations := c.declarations ++ [⟨name, scope, location⟩] } }

/-- A declaration counts once for a scope and a name; what follows only writes. -/
def declare (s : State) (name : String) (scope : Scope) (location : Location) : State :=
  if s.declared.contains (scope, name) then s.addUse name .write location
  else (s.addVariable name scope location).addUse name .declaration location

def addOwn (s : State) (name : String) : State := { s with own := name :: s.own }

def add (inEvent : Bool) (location : Span → Location) (s : State) (o : Occurrence) : State :=
  let place := location o.span
  match o.role with
  | .ownVariable => (s.addOwn o.name).declare o.name .ofDocument place
  | .globalVariable => s.declare o.name .ofGame place
  | .functionName => s.declare o.name (if inEvent then .ofInstance else .ofGame) place
  | .macroName value => (s.addMacro o.name value place).addUse o.name .declaration place
  | .assigned plain =>
      if plain && !s.own.contains o.name && inEvent && !o.inWith then
        s.declare o.name .ofInstance place
      else s.addUse o.name .write place
  | .assignedGlobal plain =>
      if plain then s.declare o.name .ofGame place else s.addUse o.name .write place
  | .assignedSelf plain =>
      if plain && inEvent && !o.inWith then s.declare o.name .ofInstance place
      else s.addUse o.name .write place
  | .read => s.addUse o.name .read place
  | .called => s.addUse o.name .call place

end State

def contribution (view : DocumentView) : Contribution :=
  ((view.tree.occurrences false false).foldl
    (State.add view.kind.isObjectEvent view.location) {}).contribution

end Names

end Gml
