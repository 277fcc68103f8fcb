import Gml.Server.State
import Gml.Server.Message
import Gml.Signature.Json
import Gml.Text.Word

/-!
# Questions of an editor

What is shown when the pointer rests on a name, where a name is defined and used, how a
word can be completed and which argument of a call is being written. There is no answer
as long as the workspace is being read.
-/
namespace Gml

structure Hover where
  /-- The text to show, in markdown. -/
  text : String
  /-- The name it is about. -/
  range : TextRange
  deriving DecidableEq, Repr

structure CompletionItem where
  label : String
  kind : CompletionKind
  detail : Option String
  /-- What to sort by instead of the label. -/
  sortText : Option String
  deriving DecidableEq, Repr

structure SignatureHelp where
  signature : Signature
  /-- The argument that is being written. -/
  argument : Nat
  deriving DecidableEq, Repr

/-! ### Calls around an offset -/

namespace Tree

/-- Whether an offset is between the parentheses of a list of arguments. A list without
an end goes on to the end of the text. -/
def enclosesOffset (arguments : Tree) (offset : Nat) : Bool :=
  match arguments.childTokens.dropWhile (·.kind != .lParen) with
  | [] => false
  | start :: rest =>
      decide (start.span.stop ≤ offset) &&
        match rest.find? (·.kind == .rParen) with
        | some stop => decide (offset ≤ stop.span.start)
        | none => true

/-- The lists of arguments in a tree, each with the node it belongs to. -/
def argumentLists (tree : Tree) : List (Tree × Tree) :=
  tree.preorder.flatMap fun parent =>
    (parent.children.filter (·.hasKind .argList)).map (parent, ·)

/-- Where a tree starts; a tree without tokens starts nowhere in particular. -/
def startOffset (tree : Tree) : Nat := (tree.leaves.head?.map (·.span.start)).getD 0

/-- Of some lists of arguments the one that starts last. -/
def lastStarting : List (Tree × Tree) → Option (Tree × Tree)
  | [] => none
  | here :: rest =>
      match lastStarting rest with
      | none => some here
      | some other => if other.2.startOffset < here.2.startOffset then some here else some other

/-- The name of the function whose arguments hold an offset, if it is called by a name,
and the number of the argument. -/
def enclosingCall? (tree : Tree) (offset : Nat) : Option (String × Nat) := do
  let (call, arguments) ←
    lastStarting (tree.argumentLists.filter fun (_, arguments) => arguments.enclosesOffset offset)
  if !call.hasKind .callExpr then none
  else
    let callee ← call.nodes.head?
    let name ← callee.referenceIdent?
    let commas := arguments.childTokens.filter fun token =>
      token.kind == .comma && decide (token.span.stop ≤ offset)
    return (name.text, commas.length)

end Tree

namespace Document

def offsetAt? (document : Document) (position : Position) : Option Nat :=
  Text.offsetAt? document.content.toList position

/-- The name at a position, and where it stands. -/
def nameAt? (document : Document) (position : Position) : Option (String × Span) := do
  Text.wordAt? document.content.toList (← document.offsetAt? position)

/-- The tree of the content. The parse that is kept is an old one while the document is
dirty. -/
def currentTree (document : Document) : Tree :=
  match document.parsed, document.dirty with
  | some parsed, false => parsed.parse.tree
  | _, _ => (Gml.parse document.content).tree

end Document

/-- The location with its address in normal form, if it is one. -/
def Location.normal? (location : Location) : Option Location :=
  (Url.parse? location.uri).map fun url => { location with uri := url.render }

namespace Server

def hover? (server : Server) (url : Url) (position : Position) : Option Hover := do
  let document ← server.document? url
  let (name, span) ← document.nameAt? position
  let text ← (← server.index.query (·.hoverText name server.sentences))
  let cs := document.content.toList
  return ⟨text, Text.positionAt cs span.start, Text.positionAt cs span.stop⟩

/-- The places where a name is defined; the document's own definitions hide all
others. -/
def definitions? (server : Server) (url : Url) (position : Position) : Option (List Location) := do
  let document ← server.document? url
  let (name, _) ← document.nameAt? position
  let found ← server.index.query fun t =>
    match t.localDefinitions url.render name with
    | [] => t.definitions name
    | own => own
  match found.filterMap Location.normal? with
  | [] => none
  | locations => some locations

/-- The places where a name is used, with or without those that define it. -/
def references? (server : Server) (url : Url) (position : Position) (withDefinitions : Bool) :
    Option (List Location) := do
  let document ← server.document? url
  let (name, _) ← document.nameAt? position
  let found ← server.index.query fun t =>
    let uses := t.references name
    if withDefinitions then uses
    else uses.filter fun location => !(t.definitions name).contains location
  return found.filterMap Location.normal?

/-- The names that a document declares for itself and that start with a text. -/
def localNames (t : SymbolTable) (uri : Uri) (start : String) : List String :=
  match t.contribution? uri with
  | none => []
  | some contribution =>
      (contribution.declarations.filter fun site =>
        site.scope == .ofDocument && SymbolTable.startsWith site.name start).map (·.name)

/-- An item for a name of the whole project. Built-in names are sorted behind the others
that start alike. -/
def completionItem (entry : CompletionEntry) : CompletionItem :=
  { label := entry.label
    kind := entry.kind
    detail := entry.detail
    sortText := match entry.kind with
      | .function | .builtinVariable => some ("1" ++ entry.label)
      | _ => none }

/-- The words that the one before a position can become. -/
def completions? (server : Server) (url : Url) (position : Position) :
    Option (List CompletionItem) := do
  let document ← server.document? url
  let offset ← document.offsetAt? position
  let start := Text.wordBefore document.content.toList offset
  server.index.query fun t =>
    let names := (localNames t url.render start).eraseDups
    let own := names.map fun name => ⟨name, .variable, some "local variable", none⟩
    own ++ ((t.completions start).filter fun entry => !names.contains entry.label).map completionItem

def signatureHelp? (server : Server) (url : Url) (position : Position) : Option SignatureHelp := do
  let document ← server.document? url
  let offset ← document.offsetAt? position
  let (name, argument) ← document.currentTree.enclosingCall? offset
  let signature ← (← server.index.query (·.signature? name))
  return ⟨signature, argument⟩

end Server

/-! ### JSON -/

def markdownJson (text : String) : Json :=
  .object [("kind", .text "markdown"), ("value", .text text)]

def Hover.toJson (hover : Hover) : Json :=
  .object [("contents", markdownJson hover.text), ("range", hover.range.toEditorJson)]

def Location.toEditorJson (location : Location) : Json :=
  .object [("uri", .text location.uri),
    ("range", TextRange.toEditorJson ⟨location.start, location.stop⟩)]

/-- One location stands for itself, several are a list. -/
def definitionsJson : List Location → Json
  | [location] => location.toEditorJson
  | locations => .arr (locations.map Location.toEditorJson)

def CompletionKind.number : CompletionKind → Nat
  | .function | .script => 3
  | .object => 7
  | .macroDef => 21
  | .variable | .builtinVariable => 6

def CompletionItem.toJson (item : CompletionItem) : Json :=
  .object ([("label", .text item.label), ("kind", .natural item.kind.number)]
    ++ Json.member? "detail" .text item.detail ++ Json.member? "sortText" .text item.sortText)

def SignatureHelp.toJson (help : SignatureHelp) : Json :=
  let signature := help.signature
  let parameters := signature.parameters.map fun p =>
    Json.object ([("label", .text p.label)]
      ++ Json.member? "documentation" .text p.documentation)
  let information := Json.object (
    [("label", .text signature.label)]
      ++ Json.member? "documentation" markdownJson signature.documentation
      ++ (if parameters.isEmpty then [] else [("parameters", Json.arr parameters)])
      ++ [("activeParameter", .natural help.argument)])
  .object [("signatures", .arr [information]), ("activeSignature", .natural 0),
    ("activeParameter", .natural help.argument)]

end Gml
