import Gml.Signature.Json
import Gml.Symbol.Record

/-!
# Symbol records in JSON

Each record has an encoder and the decoder beside it that undoes it. Lines and
columns have 32 bits.
-/
namespace Gml

open Json

namespace Position

def toJson (p : Position) : Json := .object [("line", .natural p.line), ("col", .natural p.column)]

def ofJson? (value : Json) : Option Position := do
  let fields ← value.fields? ["line", "col"]
  return {
    line := ← fields.required "line" (natBelow? Numeral.limit32)
    column := ← fields.required "col" (natBelow? Numeral.limit32) }

end Position

namespace Location

def toJson (l : Location) : Json :=
  .object [("uri", .text l.uri), ("start", l.start.toJson), ("end", l.stop.toJson)]

def ofJson? (value : Json) : Option Location := do
  let fields ← value.fields? ["uri", "start", "end"]
  return {
    uri := ← fields.required "uri" string?
    start := ← fields.required "start" Position.ofJson?
    stop := ← fields.required "end" Position.ofJson? }

end Location

namespace Scope

def words : List (String × Scope) :=
  [("local", .ofDocument), ("instance", .ofInstance), ("global", .ofGame)]

def toJson (s : Scope) : Json := .text s.label

def ofJson? (value : Json) : Option Scope := value.word? words

end Scope

namespace UseKind

def word : UseKind → String
  | .declaration => "declaration"
  | .read => "read"
  | .write => "write"
  | .call => "call"

def words : List (String × UseKind) :=
  [("declaration", .declaration), ("read", .read), ("write", .write), ("call", .call)]

def toJson (k : UseKind) : Json := .text k.word

def ofJson? (value : Json) : Option UseKind := value.word? words

end UseKind

namespace VariableRecord

def toJson (r : VariableRecord) : Json :=
  .object [("name", .text r.name), ("scope", r.scope.toJson), ("location", r.location.toJson)]

def ofJson? (value : Json) : Option VariableRecord := do
  let fields ← value.fields? ["name", "scope", "location"]
  return {
    name := ← fields.required "name" string?
    scope := ← fields.required "scope" Scope.ofJson?
    location := ← fields.required "location" Location.ofJson? }

end VariableRecord

namespace MacroRecord

def toJson (r : MacroRecord) : Json :=
  .object [("name", .text r.name), ("value", .text r.value), ("location", r.location.toJson)]

def ofJson? (value : Json) : Option MacroRecord := do
  let fields ← value.fields? ["name", "value", "location"]
  return {
    name := ← fields.required "name" string?
    value := ← fields.required "value" string?
    location := ← fields.required "location" Location.ofJson? }

end MacroRecord

namespace SymbolUse

def toJson (u : SymbolUse) : Json :=
  .object [("name", .text u.name), ("kind", u.kind.toJson), ("location", u.location.toJson)]

def ofJson? (value : Json) : Option SymbolUse := do
  let fields ← value.fields? ["name", "kind", "location"]
  return {
    name := ← fields.required "name" string?
    kind := ← fields.required "kind" UseKind.ofJson?
    location := ← fields.required "location" Location.ofJson? }

end SymbolUse

namespace ScriptRecord

def toJson (r : ScriptRecord) : Json :=
  .object <|
    [("name", .text r.name), ("uri", .text r.uri)]
      ++ member? "signature" Signature.toJson r.signature
      ++ member? "doc" .text r.doc

def ofJson? (value : Json) : Option ScriptRecord := do
  let fields ← value.fields? ["name", "uri", "signature", "doc"]
  return {
    name := ← fields.required "name" string?
    uri := ← fields.required "uri" string?
    signature := ← fields.optional "signature" Signature.ofJson?
    doc := ← fields.optional "doc" string? }

end ScriptRecord

namespace ObjectRecord

def toJson (r : ObjectRecord) : Json :=
  .object [("name", .text r.name), ("event_uris", .texts r.eventUris)]

/-- An event that is written twice counts once, at its first place. -/
def ofJson? (value : Json) : Option ObjectRecord := do
  let fields ← value.fields? ["name", "event_uris"]
  let uris ← fields.required "event_uris" (list? string?)
  return {
    name := ← fields.required "name" string?
    eventUris := uris.foldl (fun kept uri => if kept.contains uri then kept else kept ++ [uri]) [] }

end ObjectRecord

namespace Contribution

def toJson (c : Contribution) : Json :=
  .object [("variables", .arr (c.declarations.map VariableRecord.toJson)),
    ("macros", .arr (c.macros.map MacroRecord.toJson)),
    ("uses", .arr (c.uses.map SymbolUse.toJson))]

def ofJson? (value : Json) : Option Contribution := do
  let fields ← value.fields? ["variables", "macros", "uses"]
  return {
    declarations := ← fields.orElse "variables" [] (list? VariableRecord.ofJson?)
    macros := ← fields.orElse "macros" [] (list? MacroRecord.ofJson?)
    uses := ← fields.orElse "uses" [] (list? SymbolUse.ofJson?) }

end Contribution

end Gml
