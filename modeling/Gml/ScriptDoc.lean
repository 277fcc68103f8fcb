import Gml.Signature.Basic

/-!
# Script documentation

The comment lines at the top of a script say how it is called. Two styles are read,
also mixed. One writes the call on the first line:

```text
scr_move(x, y, [speed])
Moves the caller.
```

and the other uses tags:

```text
@description Moves the caller.
@param {real} x
@param {real} [speed] Pixels per step.
@returns {bool}
```

A tag that cannot be read is reported and changes nothing. Lines come without the
slashes of the comment and with a place of the caller's choice, by which faults are
reported.
-/
namespace Gml

structure ScriptDoc where
  description : Option String := none
  parameters : List Parameter := []
  variadic : Bool := false
  returns : Option String := none
  deriving DecidableEq, Repr, Inhabited

inductive TagFault where
  | unclosedType (tag : String)
  | noParameterName
  | unclosedOptional (name : String)
  deriving DecidableEq, Repr

def TagFault.message : TagFault → String
  | .unclosedType tag => "unclosed '\x7b' in " ++ tag ++ " type"
  | .noParameterName => "@param is missing a parameter name"
  | .unclosedOptional name => "unclosed '[' in @param '" ++ name ++ "'"

namespace ScriptDoc

def signature (doc : ScriptDoc) (script : String) : Signature :=
  { Signature.ofParameters script doc.parameters doc.variadic with
    documentation := doc.description
    returns := doc.returns }

/-- Adds a parameter, in the place of one with the same label. -/
def putParameter (parameter : Parameter) (parameters : List Parameter) : List Parameter :=
  if parameters.any (·.label == parameter.label) then
    replaceFirst parameters
  else parameters ++ [parameter]
where
  replaceFirst : List Parameter → List Parameter
    | [] => []
    | p :: ps => if p.label = parameter.label then parameter :: ps else p :: replaceFirst ps

def addParameter (parameters : List Parameter) (parameter : Parameter) : List Parameter :=
  if parameters.any (·.label == parameter.label) then parameters else parameters ++ [parameter]

/-- Takes over the parameters of a written call. -/
def addSignature (doc : ScriptDoc) : Option (List Parameter × Bool) → ScriptDoc
  | some (parameters, variadic) =>
      { doc with
        parameters := parameters.foldl addParameter doc.parameters
        variadic := doc.variadic || variadic }
  | none => doc

/-- A word and what follows the blank behind it, without blanks around. -/
def splitWord (cs : List Char) : List Char × List Char :=
  match Text.splitFirst? Text.isBlank cs with
  | some (word, rest) => (word, Text.trim rest)
  | none => (cs, [])

/-- Takes a type in braces off the front. -/
def splitType (tag : String) (cs : List Char) : Except TagFault (Option String × List Char) :=
  match cs with
  | '\x7b' :: after =>
      match Text.splitFirst? (· == '\x7d') after with
      | some (typeName, rest) =>
          let typeName := String.ofList (Text.trim typeName)
          .ok (if typeName.isEmpty then none else some typeName, Text.trim rest)
      | none => .error (.unclosedType tag)
  | cs => .ok (none, cs)

/-- The label in a name, which is optional in brackets and may have a default there. -/
def readLabel (name : List Char) : Except TagFault (String × Bool) :=
  match name with
  | '[' :: inner =>
      match Text.dropLast? ']' inner with
      | some inner =>
          let label := match Text.splitFirst? (· == '=') inner with
            | some (label, _) => label
            | none => inner
          .ok (String.ofList (Text.trim label), true)
      | none => .error (.unclosedOptional (String.ofList name))
  | name => .ok (String.ofList name, false)

/-- `@param {type} name text` -/
def readParameter (doc : ScriptDoc) (rest : List Char) : Except TagFault ScriptDoc := do
  let (typeName, rest) ← splitType "@param" rest
  let (name, description) := splitWord rest
  if name.isEmpty then throw .noParameterName
  else if name == Parameter.dots then return { doc with variadic := true }
  else
    let (label, optional) ← readLabel name
    if label.isEmpty then throw .noParameterName
    else
      let documentation := if description.isEmpty then none else some (String.ofList description)
      return { doc with
        parameters := putParameter ⟨label, typeName, documentation, optional⟩ doc.parameters }

/-- `@returns {type}` or `@returns text` -/
def readReturns (doc : ScriptDoc) (rest : List Char) : Except TagFault ScriptDoc := do
  let (typeName, rest) ← splitType "@returns" rest
  let text := if rest.isEmpty then none else some (String.ofList rest)
  return { doc with returns := typeName.or text }

/-- What has been read: the description is still in pieces. -/
structure Draft where
  doc : ScriptDoc := {}
  pieces : List String := []

def Draft.addPiece (draft : Draft) (piece : List Char) : Draft :=
  if piece.isEmpty then draft else { draft with pieces := draft.pieces ++ [String.ofList piece] }

/-- Reads a tag behind its `@`. Unknown tags say nothing. -/
def Draft.readTag (draft : Draft) (tagged : List Char) : Except TagFault Draft :=
  let (tag, rest) := splitWord tagged
  match String.ofList tag with
  | "description" | "desc" => .ok (draft.addPiece rest)
  | "param" | "arg" | "argument" =>
      (draft.doc.readParameter rest).map fun doc => { draft with doc }
  | "return" | "returns" => (draft.doc.readReturns rest).map fun doc => { draft with doc }
  | "function" | "func" =>
      .ok { draft with doc := draft.doc.addSignature (Signature.parseLine? rest) }
  | _ => .ok draft

/-- Reads one line. Only the first line can be a written call. -/
def Draft.readLine (draft : Draft) (isFirst : Bool) (line : List Char) : Except TagFault Draft :=
  match Text.trim line with
  | '@' :: tagged => draft.readTag tagged
  | line =>
      match if isFirst then Signature.parseLine? line else none with
      | some written => .ok { draft with doc := draft.doc.addSignature (some written) }
      | none => .ok (draft.addPiece line)

def Draft.finish (draft : Draft) : ScriptDoc :=
  if draft.pieces.isEmpty then draft.doc
  else { draft.doc with description := some (" ".intercalate draft.pieces) }

/-- Reads lines onto a draft; a line with a fault leaves the draft as it is. -/
def readLines {α : Type} : Bool → Draft → List (List Char × α) → Draft × List (α × TagFault)
  | _, draft, [] => (draft, [])
  | isFirst, draft, (line, place) :: rest =>
      match draft.readLine isFirst line with
      | .ok draft => readLines false draft rest
      | .error fault =>
          let (draft, faults) := readLines false draft rest
          (draft, (place, fault) :: faults)

/-- The documentation in comment lines, and the faults by their places. -/
def parse {α : Type} (lines : List (List Char × α)) : ScriptDoc × List (α × TagFault) :=
  let (draft, faults) := readLines true {} lines
  (draft.finish, faults)

end ScriptDoc

end Gml
