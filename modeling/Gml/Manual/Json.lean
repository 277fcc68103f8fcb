import Gml.Json.Print
import Gml.Json.Read
import Gml.Manual.Basic
import Gml.Signature.Json

/-!
# The manual in JSON

The form in which a manual is kept on disk.
-/
namespace Gml

open Json

namespace BuiltinFunction

def toJson (f : BuiltinFunction) : Json :=
  .object <|
    [("name", .text f.name), ("parameters", .arr (f.parameters.map Parameter.toJson)),
      ("variadic", .bool f.variadic), ("description", .text f.description)]
      ++ member? "returns" .text f.returns

def ofJson? (value : Json) : Option BuiltinFunction := do
  let fields ← value.fields? ["name", "parameters", "variadic", "description", "returns"]
  return {
    name := ← fields.required "name" string?
    parameters := ← fields.required "parameters" (list? Parameter.ofJson?)
    variadic := ← fields.orElse "variadic" false bool?
    description := ← fields.orElse "description" "" string?
    returns := ← fields.optional "returns" string? }

end BuiltinFunction

namespace BuiltinVariable

def toJson (v : BuiltinVariable) : Json :=
  .object [("name", .text v.name), ("description", .text v.description)]

def ofJson? (value : Json) : Option BuiltinVariable := do
  let fields ← value.fields? ["name", "description"]
  return {
    name := ← fields.required "name" string?
    description := ← fields.orElse "description" "" string? }

end BuiltinVariable

namespace Manual

def toJson (m : Manual) : Json :=
  .object [("functions", .arr (m.functions.map BuiltinFunction.toJson)),
    ("variables", .arr (m.vars.map BuiltinVariable.toJson))]

def ofJson? (value : Json) : Option Manual := do
  let fields ← value.fields? ["functions", "variables"]
  return {
    functions := ← fields.orElse "functions" [] (list? BuiltinFunction.ofJson?)
    vars := ← fields.orElse "variables" [] (list? BuiltinVariable.ofJson?) }

def render (m : Manual) : String := m.toJson.indented

/-- Reads the kept form. A manual without entries is refused, so that a truncated one
is made again. -/
def read (contents : String) : Except ManualError Manual :=
  match (Json.read? contents).bind ofJson? with
  | some manual => manual.nonempty
  | none => .error .malformed

end Manual

end Gml
