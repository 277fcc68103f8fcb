import Gml.Diagnostic
import Gml.Lint.Names
import Gml.SymbolTable.Query

/-!
# Checking calls

A call by name is checked against what the name stands for. A name that stands for
nothing is reported, unless the document itself declares it or the workspace is still
being read; a known signature has to accept the number of arguments.
-/
namespace Gml

/-- Whether all documents are known yet. -/
inductive LintMode where
  | bootstrap
  | full
  deriving DecidableEq, Repr

structure LintSettings where
  warnUnresolved : Bool := true
  warnArity : Bool := true
  deriving DecidableEq, Repr

namespace Calls

inductive Target where
  /-- Something that can be called; the signature may be unknown. -/
  | known (signature : Option Signature)
  | unknown
  deriving DecidableEq

def target (t : SymbolTable) (name : String) : Target :=
  match t.builtinFunctions.get? name, t.scripts.get? name with
  | some function, _ => .known (some function.signature)
  | none, some script => .known script.signature
  | none, none =>
      if (t.visibleMacro? name).isSome || (t.variableSites name).any (·.scope != .ofDocument) then
        .known none
      else .unknown

def declaredBy : Tree → List String
  | .node .name children => ((Tree.findLeaf? .ident children).map Token.text).toList
  | .node .macroDecl children =>
      (((Tree.findLeaf? .macroLine children).bind fun token => MacroLine.parse? token.text).map
        MacroLine.name).toList
  | .node .assignStmt children =>
      (((children.filter Tree.isNode).head?.bind Tree.referenceIdent?).map Token.text).toList
  | _ => []

def declaredNames (tree : Tree) : List String := tree.preorder.flatMap declaredBy

/-- A call by name: the called identifier and the number of arguments. -/
structure Call where
  callee : Token
  arguments : Nat

def callOf? (tree : Tree) : Option Call := do
  let callee ← if tree.hasKind .callExpr then tree.nodes.head? else none
  let token ← callee.referenceIdent?
  let arguments := match tree.nodes.find? (Tree.hasKind .argList) with
    | some list => list.nodes.length
    | none => 0
  return ⟨token, arguments⟩

def calls (tree : Tree) : List Call := tree.preorder.filterMap callOf?

def report (code : DiagnosticCode) (call : Call) (message : String) : Diagnostic :=
  ⟨code, .calls, call.callee.span, message⟩

def check (t : SymbolTable) (mode : LintMode) (settings : LintSettings) (declared : List String)
    (call : Call) : Option Diagnostic :=
  let name := call.callee.text
  match target t name with
  | .known (some signature) =>
      if settings.warnArity && !signature.accepts call.arguments then
        some (report .wrongArgumentCount call
          s!"'{name}' expects {signature.arityLabel} argument(s), found {call.arguments}")
      else none
  | .known none => none
  | .unknown =>
      if !declared.contains name && mode == .full && settings.warnUnresolved then
        some (report .unresolvedFunction call s!"unresolved function or script '{name}'")
      else none

def diagnostics (t : SymbolTable) (mode : LintMode) (settings : LintSettings) (tree : Tree) :
    List Diagnostic :=
  (calls tree).filterMap (check t mode settings (declaredNames tree))

end Calls

end Gml
