import Gml.Manual.Sentences
import Gml.SymbolTable.Basic

/-!
# Questions to the symbol table

What a name stands for, where it is defined and used, and what an editor shows about
it. A name is looked for among scripts, objects, macros, built-ins and variables, in
this order; the variables of a single document are not visible from elsewhere.
-/
namespace Gml

inductive CompletionKind where
  | function
  | script
  | object
  | macroDef
  | variable
  | builtinVariable
  deriving DecidableEq, Repr

def CompletionKind.label : CompletionKind → String
  | .function => "Function"
  | .script => "Script"
  | .object => "Object"
  | .macroDef => "Macro"
  | .variable => "Variable"
  | .builtinVariable => "BuiltinVariable"

structure CompletionEntry where
  label : String
  kind : CompletionKind
  detail : Option String
  deriving DecidableEq, Repr

namespace SymbolTable

def visibleMacro? (t : SymbolTable) (name : String) : Option MacroRecord :=
  (t.macros.get? name).bind List.head?

/-- The first declaration of a variable that is visible everywhere. -/
def sharedVariable? (t : SymbolTable) (name : String) : Option VariableRecord :=
  (t.variableSites name).find? (·.scope != .ofDocument)

def lookup (t : SymbolTable) (name : String) : Option SymbolRecord :=
  (t.scripts.get? name).map .script
    <|> (t.objects.get? name).map .object
    <|> (t.visibleMacro? name).map .macroDef
    <|> (t.builtinFunctions.get? name).map .builtinFunction
    <|> (t.builtinVariables.get? name).map .builtinVariable
    <|> (t.sharedVariable? name).map .variable

def sortLocations (locations : List Location) : List Location := locations.mergeSort Location.le

/-- The places where a name is defined for all documents. -/
def definitions (t : SymbolTable) (name : String) : List Location :=
  match t.scripts.get? name, t.objects.get? name, t.visibleMacro? name with
  | some script, _, _ => [.fileStart script.uri]
  | none, some object, _ => object.eventUris.map .fileStart
  | none, none, some record => [record.location]
  | none, none, none =>
      sortLocations
        (((t.variableSites name).filter (·.scope != .ofDocument)).map (·.location))

/-- The places where a document declares a name for itself. -/
def localDefinitions (t : SymbolTable) (uri : Uri) (name : String) : List Location :=
  ((t.variableSites name).filter fun site =>
    site.scope == .ofDocument && site.location.uri == uri).map (·.location)

/-- The signature of a script or of a built-in function. -/
def signature? (t : SymbolTable) (name : String) : Option Signature :=
  match t.scripts.get? name with
  | some script => script.signature
  | none => (t.builtinFunctions.get? name).map (·.signature)

/-- Every use of a name, by document and place. -/
def references (t : SymbolTable) (name : String) : List Location :=
  let uses := ((t.users.get? name).getD []).flatMap fun uri =>
    ((t.contributions.get? uri).map (·.uses)).getD []
  sortLocations ((uses.filter (·.name == name)).map (·.location))

/-! ### Texts for an editor -/

def codeBlock (code : String) : String := "```gml\n" ++ code ++ "\n```"

def withDoc (text : String) (doc : Option String) : String :=
  match doc with
  | some doc => if doc.isEmpty then text else text ++ "\n\n" ++ doc
  | none => text

/-- What is shown about a record. Descriptions from the manual are cut to some
sentences, where zero stands for all. -/
def describe (sentences : Nat) : SymbolRecord → String
  | .script script =>
      let label := match script.signature with
        | some signature => signature.label
        | none => script.name ++ "()"
      withDoc (codeBlock label ++ "\nscript") script.doc
  | .object object =>
      codeBlock object.name ++ s!"\nobject with {object.eventUris.length} event(s)"
  | .macroDef record => codeBlock ("#macro " ++ record.name ++ " " ++ record.value)
  | .builtinFunction function =>
      let returns := match function.returns with
        | some returns => "\nReturns: " ++ returns
        | none => ""
      withDoc (codeBlock function.signature.label ++ returns)
        (some (Sentences.first function.description sentences))
  | .builtinVariable record =>
      withDoc (codeBlock record.name ++ "\nbuilt-in variable")
        (some (Sentences.first record.description sentences))
  | .variable record => codeBlock record.name ++ "\n" ++ record.scope.label ++ " variable"

def hoverText (t : SymbolTable) (name : String) (sentences : Nat) : Option String :=
  (t.lookup name).map (describe sentences)

/-- Every name that something is known about, as it would be offered; a name that
occurs again later in the list is hidden there. -/
def candidates (t : SymbolTable) : List CompletionEntry :=
  t.scripts.values.map (fun s => ⟨s.name, .script, s.signature.map (·.label)⟩)
    ++ t.objects.values.map (fun o => ⟨o.name, .object, none⟩)
    ++ t.macros.values.filterMap (fun definers =>
        definers.head?.map fun record => ⟨record.name, .macroDef, some record.value⟩)
    ++ t.builtinFunctions.values.map (fun f => ⟨f.name, .function, some f.signature.label⟩)
    ++ t.builtinVariables.values.map (fun v => ⟨v.name, .builtinVariable, none⟩)
    ++ t.declarations.keys.filterMap (fun name =>
        (t.sharedVariable? name).map fun site =>
          ⟨name, .variable, some (site.scope.label ++ " variable")⟩)

/-- Keeps the first entry of each label. -/
def dedupe : List String → List CompletionEntry → List CompletionEntry
  | _, [] => []
  | seen, entry :: rest =>
      if seen.contains entry.label then dedupe seen rest
      else entry :: dedupe (entry.label :: seen) rest

def startsWith (label start : String) : Bool := start.toList.isPrefixOf label.toList

/-- The names that start with a text, sorted. -/
def completions (t : SymbolTable) (start : String) : List CompletionEntry :=
  (dedupe [] (t.candidates.filter fun entry => startsWith entry.label start)).mergeSort
    fun a b => decide (a.label ≤ b.label)

end SymbolTable

end Gml
