import Gml.Text.Blank
import Gml.Token.Lexer

/-!
# Signatures

The parameters of something that can be called, and how many arguments fit. A
parameter list is written `a, [b], ...`: brackets mark an optional parameter and
the dots allow any number of further arguments.
-/
namespace Gml

structure Parameter where
  label : String
  typeName : Option String := none
  documentation : Option String := none
  optional : Bool := false
  deriving DecidableEq, Repr, Inhabited

structure Signature where
  /-- The whole signature as one writes it, such as `move(x, y, [speed])`. -/
  label : String
  parameters : List Parameter
  documentation : Option String := none
  returns : Option String := none
  minArgs : Nat
  /-- `none` where any number of arguments fits. -/
  maxArgs : Option Nat
  deriving DecidableEq, Repr, Inhabited

namespace Parameter

def render (parameter : Parameter) : String :=
  if parameter.optional then "[" ++ parameter.label ++ "]" else parameter.label

def ofPart (part : List Char) : Parameter :=
  match Text.dropWord? ['['] part with
  | some inner =>
      match Text.dropLast? ']' inner with
      | some label => { label := String.ofList (Text.trim label), optional := true }
      | none => { label := String.ofList part }
  | none => { label := String.ofList part }

/-- The parts of a list between its commas, without blanks around them and without
empty ones. -/
def parts (list : List Char) : List (List Char) :=
  ((Text.splitAll (· == ',') list).map Text.trim).filter (!·.isEmpty)

/-- Stands for any number of further arguments. -/
def dots : List Char := ['.', '.', '.']

/-- The parameters that a list writes, and whether it allows further arguments. -/
def parseList (list : List Char) : List Parameter × Bool :=
  (((parts list).filter (· != dots)).map ofPart, (parts list).contains dots)

end Parameter

namespace Signature

/-- The signature of a name with parameters. As many arguments are needed as there
are parameters before the first optional one. -/
def ofParameters (name : String) (parameters : List Parameter) (variadic : Bool) : Signature :=
  let rendered := parameters.map Parameter.render ++ (if variadic then ["..."] else [])
  { label := name ++ "(" ++ ", ".intercalate rendered ++ ")"
    parameters
    minArgs := (parameters.takeWhile (!·.optional)).length
    maxArgs := if variadic then none else some parameters.length }

def accepts (signature : Signature) (count : Nat) : Bool :=
  signature.minArgs ≤ count && match signature.maxArgs with
    | some most => count ≤ most
    | none => true

/-- The numbers of arguments that fit, in words. -/
def arityLabel (signature : Signature) : String :=
  match signature.maxArgs with
  | some most =>
      if most = signature.minArgs then toString most
      else s!"{signature.minArgs} to {most}"
  | none => s!"at least {signature.minArgs}"

/-- Reads `name(a, [b])`: the parameters of a written signature. -/
def parseLine? (line : List Char) : Option (List Parameter × Bool) := do
  let (name, rest) ← Text.splitFirst? (· == '(') line
  let name := Text.trim name
  if name.isEmpty || !name.all Token.isIdentChar then none
  else
    let inner ← Text.dropLast? ')' (Text.trimEnd rest)
    return Parameter.parseList inner

end Signature

end Gml
