import Gml.Json.Basic
import Gml.Json.Number

/-!
# Decoding JSON

How a value becomes a record. A record is written as an object, where members with
unknown names do not matter and a known name stands once, or as an array of its
fields in order. Integers are natural numbers below a bound, `null` fits only
optional fields, and nesting is limited where a value is kept as it is.
-/
namespace Gml.Json

def natBelow? (limit : Nat) : Json → Option Nat
  | .natural n => if n < limit then some n else none
  | _ => none

def string? : Json → Option String
  | .str s => s
  | _ => none

def bool? : Json → Option Bool
  | .bool b => some b
  | _ => none

def list? {α : Type} (decode : Json → Option α) : Json → Option (List α)
  | .arr items => items.mapM decode
  | _ => none

def nullable? {α : Type} (decode : Json → Option α) : Json → Option (Option α)
  | .null => some none
  | value => (decode value).map some

/-- One of several words. A word may also be written as the name of an object's only
member with the value `null`. -/
def word? {α : Type} (words : List (String × α)) : Json → Option α
  | .str (some s) => words.lookup s
  | .obj [(some s, .null)] => words.lookup s
  | _ => none

/-- The fields of a record that were found, and whether they were given by place. -/
structure Fields where
  byPlace : Bool
  found : List (String × Json)

def hasRepeat : List String → Bool
  | [] => false
  | name :: names => names.contains name || hasRepeat names

def fields? (names : List String) : Json → Option Fields
  | .arr items => if items.length ≤ names.length then some ⟨true, names.zip items⟩ else none
  | .obj members => do
      let named ← members.mapM fun (name, value) => name.map (·, value)
      let found := named.filter fun (name, _) => names.contains name
      if hasRepeat (found.map Prod.fst) then none else some ⟨false, found⟩
  | _ => none

namespace Fields

def required {α : Type} (fields : Fields) (name : String) (decode : Json → Option α) : Option α :=
  (fields.found.lookup name).bind decode

/-- A field with a value of its own when it is not there. -/
def orElse {α : Type} (fields : Fields) (name : String) (absent : α) (decode : Json → Option α) :
    Option α :=
  match fields.found.lookup name with
  | none => some absent
  | some value => decode value

/-- A field that may be missing or `null`, in an array as well. -/
def optional {α : Type} (fields : Fields) (name : String) (decode : Json → Option α) :
    Option (Option α) :=
  fields.orElse name none (nullable? decode)

/-- A field that may be missing in an object or `null`; in an array its place is
taken. -/
def placed {α : Type} (fields : Fields) (name : String) (decode : Json → Option α) :
    Option (Option α) :=
  match fields.found.lookup name with
  | none => if fields.byPlace then none else some none
  | some value => nullable? decode value

end Fields

/-- The largest number of nested arrays and objects around a kept value. -/
def nestingLimit : Nat := 127

mutual

/-- Whether a value can be kept as it is: its strings are texts, its numbers are in
range and it is nested at most so deep. -/
def isKept (depth : Nat) : Json → Bool
  | .null => true
  | .bool _ => true
  | .natural n => isInRange (Nat.repr n)
  | .number text => isInRange text
  | .str s => s.isSome
  | .arr items => depth > 0 && areKept (depth - 1) items
  | .obj members => depth > 0 && membersKept (depth - 1) members

def areKept (depth : Nat) : List Json → Bool
  | [] => true
  | item :: items => isKept depth item && areKept depth items

def membersKept (depth : Nat) : List (Option String × Json) → Bool
  | [] => true
  | (name, value) :: members => name.isSome && isKept depth value && membersKept depth members

end

/-- The object with one member for each name, the last one given, in the order of the
first ones. -/
def lastMembers (members : List (Option String × Json)) : List (Option String × Json) :=
  members.foldl
    (fun kept (name, value) =>
      if kept.any (·.1 == name) then
        kept.map fun (n, v) => if n == name then (n, value) else (n, v)
      else kept ++ [(name, value)])
    []

end Gml.Json
