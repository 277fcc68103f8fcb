import Gml.Toml.Scalar

/-!
# Reading TOML

A document is read line by line into one table. Any fault makes the whole document
unreadable.
-/
namespace Gml.Toml

def isBareChar (c : Char) : Bool := c.isAlphanum || c == '_' || c == '-'

def readKeyPart (cs : List Char) : Option (String × List Char) :=
  match cs.takeWhile isBareChar with
  | [] => readLine? cs
  | bare => some (String.ofList bare, cs.dropWhile isBareChar)

/-- The parts of a dotted key. Every round takes a part. -/
def readKeyParts : Nat → List Char → Option (List String × List Char)
  | 0, _ => none
  | rounds + 1, cs => do
      let (part, rest) ← readKeyPart cs
      match skipSpace rest with
      | '.' :: more =>
          let (parts, rest) ← readKeyParts rounds (skipSpace more)
          return (part :: parts, rest)
      | rest => return ([part], rest)

/-- The levels that a value may have, and the parts that a key may have. -/
def nestingLimit : Nat := 80

/-- A key: the path to its table and its last part. Blanks around it are skipped. -/
def readKey (cs : List Char) : Option ((List String × String) × List Char) := do
  let (parts, rest) ← readKeyParts (cs.length + 1) (skipSpace cs)
  let last ← parts.getLast?
  if parts.length ≤ nestingLimit then some ((parts.dropLast, last), rest) else none

/-- What follows a comment, if there is one. -/
def skipComment : List Char → List Char
  | '#' :: rest => rest.dropWhile fun c => c != '\n' && c != '\r'
  | cs => cs

/-- Skips blanks, comments and line ends. Every round takes a line. -/
def skipLines : Nat → List Char → List Char
  | 0, cs => cs
  | rounds + 1, cs =>
      let cs := skipComment (skipSpace cs)
      match lineEnd? cs with
      | some rest => skipLines rounds rest
      | none => cs

/-- How to read a value of a lower level. -/
abbrev ValueReader := List Char → Option (Value × List Char)

/-- The items of an array behind its bracket, with a comma between two and, if one
likes, behind the last. -/
def readItems (readValue : ValueReader) : Nat → List Char → Option (List Value × List Char)
  | 0, _ => none
  | rounds + 1, cs =>
      match skipLines cs.length cs with
      | ']' :: rest => some ([], rest)
      | cs => do
          let (item, rest) ← readValue cs
          match skipLines rest.length rest with
          | ',' :: rest =>
              let (items, rest) ← readItems readValue rounds rest
              return (item :: items, rest)
          | ']' :: rest => return ([item], rest)
          | _ => none

/-- The value behind a key. What may stand around the mark between them depends on the
place. -/
def readAssigned (readValue : ValueReader) (skip : List Char → List Char) (cs : List Char) :
    Option (Value × List Char) :=
  match skip cs with
  | '=' :: rest => readValue (skip rest)
  | _ => none

/-- The entries of a table in braces, laid out like the items of an array. Keys are
written on one line. -/
def readEntries (readValue : ValueReader) : Nat → Value → List Char → Option (Value × List Char)
  | 0, _, _ => none
  | rounds + 1, table, cs =>
      match skipLines cs.length cs with
      | '\x7d' :: rest => some (table, rest)
      | cs => do
          let ((path, key), rest) ← readKey cs
          let (value, rest) ← readAssigned readValue (fun cs => skipLines cs.length cs) rest
          let table ← table.insertAt path key value
          match skipLines rest.length rest with
          | ',' :: rest => readEntries readValue rounds table rest
          | '\x7d' :: rest => some (table, rest)
          | _ => none

/-- A value. Arrays and tables in braces take one level each. -/
def readValue : Nat → ValueReader
  | _, '"' :: rest => (readString? ('"' :: rest)).map fun (s, rest) => (.text s, rest)
  | _, '\'' :: rest => (readString? ('\'' :: rest)).map fun (s, rest) => (.text s, rest)
  | levels + 1, '[' :: rest =>
      (readItems (readValue levels) (rest.length + 1) rest).map fun (items, rest) =>
        (.array items, rest)
  | levels + 1, '\x7b' :: rest =>
      readEntries (readValue levels) (rest.length + 1) (.table .braces []) rest
  | _, cs =>
      let (word, rest) := readWord cs
      (wordValue? word).map (·, rest)

/-- A document so far, and the path of the header that the entries stand under. -/
structure Draft where
  document : Value := .emptyDocument
  header : List String := []

/-- The rest behind a line that has been read, which holds nothing more but a comment. -/
def endLine? (cs : List Char) : Option (List Char) :=
  match skipComment (skipSpace cs) with
  | [] => some []
  | cs => lineEnd? cs

/-- Reads a line that is not empty. -/
def readExpression (draft : Draft) : List Char → Option (Draft × List Char)
  | '[' :: '[' :: rest => do
      let ((path, key), rest) ← readKey rest
      let rest ← mark? ']' (← mark? ']' rest)
      return (⟨← draft.document.openNextTable path key, path ++ [key]⟩, rest)
  | '[' :: rest => do
      let ((path, key), rest) ← readKey rest
      let rest ← mark? ']' rest
      return (⟨← draft.document.openTable path key, path ++ [key]⟩, rest)
  | cs => do
      let ((path, key), rest) ← readKey cs
      let (value, rest) ← readAssigned (readValue nestingLimit) skipSpace rest
      let document ← draft.document.descend false (·.insertAt path key value) draft.header
      return ({ draft with document }, rest)

/-- Reads the lines of a document. Every round takes one. -/
def readLines : Nat → Draft → List Char → Option Value
  | 0, _, _ => none
  | rounds + 1, draft, cs =>
      match skipLines cs.length cs with
      | [] => some draft.document
      | cs => do
          let (draft, rest) ← readExpression draft (skipSpace cs)
          readLines rounds draft (← endLine? rest)

/-- Reads a document. A byte order mark at its front does not count. -/
def read? (text : String) : Option Value :=
  let cs := match text.toList with
    | '\uFEFF' :: rest => rest
    | cs => cs
  if isPlain cs then readLines (cs.length + 1) {} cs else none

end Gml.Toml
