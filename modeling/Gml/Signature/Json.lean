import Gml.Json.Decode
import Gml.Signature.Basic

/-!
# Signatures in JSON

Each record has an encoder and the decoder beside it that undoes it.
-/
namespace Gml

open Json

namespace Parameter

def toJson (p : Parameter) : Json :=
  .object <|
    [("label", .text p.label)]
      ++ member? "type_name" .text p.typeName
      ++ member? "documentation" .text p.documentation
      ++ [("optional", .bool p.optional)]

def ofJson? (value : Json) : Option Parameter := do
  let fields ← value.fields? ["label", "type_name", "documentation", "optional"]
  return {
    label := ← fields.required "label" string?
    typeName := ← fields.optional "type_name" string?
    documentation := ← fields.optional "documentation" string?
    optional := ← fields.orElse "optional" false bool? }

end Parameter

namespace Signature

def toJson (s : Signature) : Json :=
  .object <|
    [("label", .text s.label), ("parameters", .arr (s.parameters.map Parameter.toJson))]
      ++ member? "documentation" .text s.documentation
      ++ member? "returns" .text s.returns
      ++ [("min_args", .natural s.minArgs), ("max_args", .ofOption .natural s.maxArgs)]

def ofJson? (value : Json) : Option Signature := do
  let fields ← value.fields?
    ["label", "parameters", "documentation", "returns", "min_args", "max_args"]
  return {
    label := ← fields.required "label" string?
    parameters := ← fields.required "parameters" (list? Parameter.ofJson?)
    documentation := ← fields.optional "documentation" string?
    returns := ← fields.optional "returns" string?
    minArgs := ← fields.required "min_args" (natBelow? Numeral.limit64)
    maxArgs := ← fields.placed "max_args" (natBelow? Numeral.limit64) }

end Signature

end Gml
