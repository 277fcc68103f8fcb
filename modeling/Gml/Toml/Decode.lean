import Gml.Numeral
import Gml.Toml.Basic

/-!
# Decoding TOML

How a value becomes a section of settings. A section is a table, where entries with
unknown names do not matter, or an array with a value for each of its settings in
order. A date counts as a section without settings.
-/
namespace Gml.Toml.Value

def text? : Value → Option String
  | .text s => some s
  | _ => none

def bool? : Value → Option Bool
  | .bool b => some b
  | _ => none

/-- A natural number of 64 bits. -/
def size? : Value → Option Nat
  | .integer n => if 0 ≤ n && n.toNat < Numeral.limit64 then some n.toNat else none
  | _ => none

def settings? (names : List String) : Value → Option (List (String × Value))
  | .table _ entries => some entries
  | .array items | .tables items =>
      if names.length ≤ items.length then some (names.zip items) else none
  | .moment => some []
  | _ => none

/-- The section of a document with a name; a missing one has no settings. -/
def section? (document : Value) (name : String) (names : List String) :
    Option (List (String × Value)) :=
  match document.get? name with
  | some value => value.settings? names
  | none => some []

def setting? {α : Type} (settings : List (String × Value)) (name : String)
    (decode : Value → Option α) : Option (Option α) :=
  match Table.find name settings with
  | some value => (decode value).map some
  | none => some none

end Gml.Toml.Value
