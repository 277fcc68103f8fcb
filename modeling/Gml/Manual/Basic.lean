import Gml.Signature.Basic

/-!
# The manual

What is known about the functions and variables that come with the engine. The
source form is a markdown text where each heading starts an entry:

```text
# draw_sprite(sprite, subimg, x, y)
Draws a sprite at a position.
- sprite: The sprite index.
Returns: N/A

# room_speed
The speed of the current room in steps per second.
```

A heading with a parameter list is a function and a bare one is a variable. Lines
below a heading that is neither belong to no entry.
-/
namespace Gml

structure BuiltinFunction where
  name : String
  parameters : List Parameter
  variadic : Bool := false
  description : String := ""
  returns : Option String := none
  deriving DecidableEq, Repr, Inhabited

structure BuiltinVariable where
  name : String
  description : String := ""
  deriving DecidableEq, Repr, Inhabited

structure Manual where
  functions : List BuiltinFunction := []
  vars : List BuiltinVariable := []
  deriving DecidableEq, Repr, Inhabited

inductive ManualError where
  /-- There is no entry in the text. -/
  | empty
  /-- The text is no manual. -/
  | malformed
  deriving DecidableEq, Repr

/-- The message of an error of this library; a malformed text has none. -/
def ManualError.message? : ManualError → Option String
  | .empty => some "manual contains no entries"
  | .malformed => none

def BuiltinFunction.signature (function : BuiltinFunction) : Signature :=
  { Signature.ofParameters function.name function.parameters function.variadic with
    documentation := if function.description.isEmpty then none else some function.description
    returns := function.returns }

namespace Manual

def isEmpty (manual : Manual) : Bool := manual.functions.isEmpty && manual.vars.isEmpty

def nonempty (manual : Manual) : Except ManualError Manual :=
  if manual.isEmpty then .error .empty else .ok manual

/-- An entry whose lines are still being read. -/
structure Draft where
  name : String
  /-- A function has parameters, if only none. -/
  parameters : Option (List Parameter × Bool)
  description : List String := []
  returns : Option String := none

namespace Draft

/-- The entry that a heading starts, without its marks and blanks. -/
def ofHeading? (heading : List Char) : Option Draft :=
  match Text.splitFirst? (· == '(') heading with
  | some (name, rest) => do
      let inner ← Text.dropLast? ')' (Text.trimEnd rest)
      ofName? (Text.trim name) (some (Parameter.parseList inner))
  | none => ofName? heading none
where
  ofName? (name : List Char) (parameters : Option (List Parameter × Bool)) : Option Draft :=
    if name.isEmpty || !name.all Token.isIdentChar then none
    else some { name := String.ofList name, parameters }

/-- Documents the first parameter with a label. -/
def documentFirst (label documentation : String) : List Parameter → List Parameter
  | [] => []
  | p :: ps =>
      if p.label = label then { p with documentation := some documentation } :: ps
      else p :: documentFirst label documentation ps

/-- A line `- label: text` about one of the parameters. -/
def parameterLine? (draft : Draft) (line : List Char) : Option Draft := do
  let item ← Text.dropWord? ['-', ' '] line
  let (parameters, variadic) ← draft.parameters
  let (label, documentation) ← Text.splitFirst? (· == ':') item
  let label := String.ofList (Text.trim label)
  if parameters.any (·.label == label) then
    let documentation := String.ofList (Text.trim documentation)
    return { draft with parameters := some (documentFirst label documentation parameters, variadic) }
  else none

/-- Adds a line, which has no blanks around it. -/
def addLine (draft : Draft) (line : List Char) : Draft :=
  match Text.dropWord? "Returns:".toList line with
  | some returns =>
      let returns := String.ofList (Text.trim returns)
      if returns.isEmpty || returns == "N/A" then draft else { draft with returns := some returns }
  | none =>
      match draft.parameterLine? line with
      | some documented => documented
      | none =>
          if line.isEmpty then draft
          else { draft with description := draft.description ++ [String.ofList line] }

/-- The manual with the finished entry at the end. -/
def finish (draft : Draft) (manual : Manual) : Manual :=
  let description := " ".intercalate draft.description
  match draft.parameters with
  | some (parameters, variadic) =>
      { manual with functions := manual.functions ++
          [{ name := draft.name, parameters, variadic, description, returns := draft.returns }] }
  | none =>
      { manual with vars := manual.vars ++ [{ name := draft.name, description }] }

end Draft

def finishDraft (manual : Manual) (draft : Option Draft) : Manual :=
  match draft with
  | some draft => draft.finish manual
  | none => manual

/-- Reads one line: a heading ends the entry before it. -/
def addLine (state : Manual × Option Draft) (line : List Char) : Manual × Option Draft :=
  let (manual, draft) := state
  match Text.trim line with
  | '#' :: heading =>
      (finishDraft manual draft, Draft.ofHeading? (Text.trim (heading.dropWhile (· == '#'))))
  | line => (manual, draft.map (·.addLine line))

/-- The entries of the markdown form, which may be none. -/
def entries (contents : String) : Manual :=
  let (manual, draft) := (Text.lines contents.toList).foldl addLine ({}, none)
  finishDraft manual draft

def ofMarkdown (contents : String) : Except ManualError Manual := (entries contents).nonempty

end Manual

end Gml
