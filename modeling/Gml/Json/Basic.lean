/-!
# JSON values

A value keeps what a reader can still ask about its text. A number without sign,
fraction and exponent is a natural number; every other number keeps its text. A
string is `none` where an escape stands for half of a surrogate pair: such a string
is fine in a place nobody reads and is no text anywhere else. Members keep their
order and may repeat a name.
-/
namespace Gml

inductive Json where
  | null
  | bool (b : Bool)
  | natural (n : Nat)
  | number (text : String)
  | str (text : Option String)
  | arr (items : List Json)
  | obj (members : List (Option String × Json))
  deriving Inhabited

namespace Json

def text (s : String) : Json := .str (some s)

def object (members : List (String × Json)) : Json :=
  .obj (members.map fun (name, value) => (some name, value))

def texts (items : List String) : Json := .arr (items.map text)

def int : Int → Json
  | .ofNat n => .natural n
  | .negSucc n => .number ("-" ++ Nat.repr (n + 1))

/-- `null` for a missing value. -/
def ofOption {α : Type} (encode : α → Json) : Option α → Json
  | none => .null
  | some a => encode a

/-- A member that is left out when there is no value. -/
def member? {α : Type} (name : String) (encode : α → Json) : Option α → List (String × Json)
  | none => []
  | some a => [(name, encode a)]

/-- The value of the last member with a name. -/
def get? (name : String) : Json → Option Json
  | .obj members => (members.reverse.find? fun (key, _) => key == some name).map Prod.snd
  | _ => none

end Json

end Gml
