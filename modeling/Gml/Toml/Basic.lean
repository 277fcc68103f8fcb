import Gml.Table

/-!
# TOML values

A document is a table, and tables are defined piece by piece: by headers, by dotted
keys and in braces. Each table remembers how it came to be, since that decides what
may still be added to it. Of dates and times only their presence is kept.
-/
namespace Gml.Toml

/-- How a table came to be. -/
inductive Origin where
  /-- It has a header of its own, or it is the document. -/
  | header
  /-- It stands in the header of a table below it. -/
  | implied
  /-- It stands in a dotted key. -/
  | dotted
  /-- It is written in braces. -/
  | braces
  deriving DecidableEq, Repr

inductive Value where
  | text (s : String)
  | integer (n : Int)
  | float
  | bool (b : Bool)
  | moment
  | array (items : List Value)
  /-- Tables under repeated double headers. -/
  | tables (items : List Value)
  | table (origin : Origin) (entries : List (String × Value))
  deriving Inhabited

namespace Value

def emptyDocument : Value := .table .header []

def get? (t : Value) (key : String) : Option Value :=
  match t with
  | .table _ entries => Table.find key entries
  | _ => none

/-- A table with an entry in the place of the one before. -/
def set (t : Value) (key : String) (value : Value) : Value :=
  match t with
  | .table origin entries => .table origin (Table.setIn key value entries)
  | other => other

/-- Changes the table that a key on the way stands for. A table in braces is closed,
and a dotted key does not reach into a table with a header. Among tables under
repeated headers the last is meant. -/
def enter (dotted : Bool) (change : Value → Option Value) : Option Value → Option Value
  | none => change (.table (if dotted then .dotted else .implied) [])
  | some (.table origin entries) =>
      if origin = .braces || (dotted && origin = .header) then none
      else change (.table origin entries)
  | some (.tables items) => do
      let last ← items.getLast?
      let changed ← change last
      return .tables (items.dropLast ++ [changed])
  | some _ => none

/-- Changes the table at the end of a path. Tables that are missing on the way are
made. -/
def descend (dotted : Bool) (change : Value → Option Value) : List String → Value → Option Value
  | [], t => change t
  | key :: path, t => (enter dotted (descend dotted change path) (t.get? key)).map (t.set key)

/-- Adds an entry. A key stands once in its table. A dotted key does not reach into a
table with a header or in braces, and makes the table it fills one of its own. -/
def insert (dotted : Bool) (key : String) (value : Value) : Value → Option Value
  | .table origin entries =>
      let closed := dotted && (origin = .header || origin = .braces)
      if closed || (Table.find key entries).isSome then none
      else some (.table (if dotted then .dotted else origin) (entries ++ [(key, value)]))
  | _ => none

/-- Adds an entry under a key that may be dotted. -/
def insertAt (t : Value) (path : List String) (key : String) (value : Value) : Option Value :=
  descend true (insert (!path.isEmpty) key value) path t

/-- Opens the table of a header, which was not defined before. -/
def openTable (path : List String) (key : String) (document : Value) : Option Value :=
  descend false
    (fun parent =>
      match parent.get? key with
      | none => some (parent.set key (.table .header []))
      | some (.table .implied entries) => some (parent.set key (.table .header entries))
      | some _ => none)
    path document

def openNextTable (path : List String) (key : String) (document : Value) : Option Value :=
  descend false
    (fun parent =>
      match parent.get? key with
      | none => some (parent.set key (.tables [.table .header []]))
      | some (.tables items) => some (parent.set key (.tables (items ++ [.table .header []])))
      | some _ => none)
    path document

end Value

end Gml.Toml
