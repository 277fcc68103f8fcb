import Gml.Json.Basic

/-!
# Printing JSON

Two layouts: compact, without any blank, and indented by two blanks a level, where
an empty array or object stays on its line. Only quotes, backslashes and control
characters are escaped.
-/
namespace Gml.Json

def hexDigit (n : Nat) : Char :=
  if n < 10 then Char.ofNat ('0'.toNat + n) else Char.ofNat ('a'.toNat + (n - 10))

/-- A character as it stands in a string literal. -/
def escapeChar (c : Char) : List Char :=
  if c == '"' then ['\\', '"']
  else if c == '\\' then ['\\', '\\']
  else if c == '\n' then ['\\', 'n']
  else if c == '\r' then ['\\', 'r']
  else if c == '\t' then ['\\', 't']
  else if c == '\x08' then ['\\', 'b']
  else if c == '\x0c' then ['\\', 'f']
  else if c.toNat < 0x20 then
    ['\\', 'u', '0', '0', hexDigit (c.toNat / 16), hexDigit (c.toNat % 16)]
  else [c]

/-- A string literal. The string with a lone surrogate is written as one. -/
def quote : Option String → List Char
  | some s => '"' :: s.toList.flatMap escapeChar ++ ['"']
  | none => "\"\\ud800\"".toList

def scalar : Json → List Char
  | .bool true => "true".toList
  | .bool false => "false".toList
  | .natural n => (Nat.repr n).toList
  | .number text => text.toList
  | .str s => quote s
  | _ => "null".toList

mutual

/-- A value without any blank, before what follows it. -/
def compactOnto : Json → List Char → List Char
  | .arr items, rest => '[' :: compactItems items (']' :: rest)
  | .obj members, rest => '\x7b' :: compactMembers members ('\x7d' :: rest)
  | .null, rest => scalar .null ++ rest
  | .bool b, rest => scalar (.bool b) ++ rest
  | .natural n, rest => scalar (.natural n) ++ rest
  | .number text, rest => scalar (.number text) ++ rest
  | .str s, rest => scalar (.str s) ++ rest

def compactItems : List Json → List Char → List Char
  | [], rest => rest
  | [item], rest => compactOnto item rest
  | item :: items, rest => compactOnto item (',' :: compactItems items rest)

def compactMembers : List (Option String × Json) → List Char → List Char
  | [], rest => rest
  | [(name, value)], rest => quote name ++ ':' :: compactOnto value rest
  | (name, value) :: members, rest =>
      quote name ++ ':' :: compactOnto value (',' :: compactMembers members rest)

end

/-- A line end and the blanks of a level. -/
def newline (level : Nat) : List Char := '\n' :: List.replicate (2 * level) ' '

mutual

/-- A value over several lines, before what follows it. -/
def indentOnto (level : Nat) : Json → List Char → List Char
  | .arr [], rest => '[' :: ']' :: rest
  | .arr (item :: items), rest =>
      '[' :: newline (level + 1)
        ++ indentOnto (level + 1) item (indentItems level items (newline level ++ ']' :: rest))
  | .obj [], rest => '\x7b' :: '\x7d' :: rest
  | .obj ((name, value) :: members), rest =>
      '\x7b' :: newline (level + 1) ++ quote name ++ ':' :: ' '
        :: indentOnto (level + 1) value
            (indentMembers level members (newline level ++ '\x7d' :: rest))
  | .null, rest => scalar .null ++ rest
  | .bool b, rest => scalar (.bool b) ++ rest
  | .natural n, rest => scalar (.natural n) ++ rest
  | .number text, rest => scalar (.number text) ++ rest
  | .str s, rest => scalar (.str s) ++ rest

/-- The items after the first one. -/
def indentItems (level : Nat) : List Json → List Char → List Char
  | [], rest => rest
  | item :: items, rest =>
      ',' :: newline (level + 1)
        ++ indentOnto (level + 1) item (indentItems level items rest)

/-- The members after the first one. -/
def indentMembers (level : Nat) : List (Option String × Json) → List Char → List Char
  | [], rest => rest
  | (name, value) :: members, rest =>
      ',' :: newline (level + 1) ++ quote name ++ ':' :: ' '
        :: indentOnto (level + 1) value (indentMembers level members rest)

end

def compact (value : Json) : String := String.ofList (compactOnto value [])

def indented (value : Json) : String := String.ofList (indentOnto 0 value [])

end Gml.Json
