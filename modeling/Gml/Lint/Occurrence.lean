import Gml.MacroLine
import Gml.Tree.Basic

/-!
# Occurrences of names

The places of a tree where a name is declared, assigned or used, in the order in which
they take effect: a variable comes into being after its own initial value is read.
What an occurrence means depends on the document and on what came before it; here is
only what can be seen from the tree.
-/
namespace Gml

inductive Role where
  /-- Declared by `var` or as a parameter. -/
  | ownVariable
  | globalVariable
  | functionName
  | macroName (value : String)
  /-- The target of an assignment, which is plain unless it also reads the target. -/
  | assigned (plain : Bool)
  /-- `global.name` as such a target. -/
  | assignedGlobal (plain : Bool)
  /-- `self.name` as such a target. -/
  | assignedSelf (plain : Bool)
  | read
  | called
  deriving DecidableEq, Repr

structure Occurrence where
  name : String
  span : Span
  role : Role
  /-- Inside the body of a `with`, where names may belong to another instance. -/
  inWith : Bool
  deriving DecidableEq, Repr

namespace Tree

/-- The occurrence of a name at a token, if there is one. -/
def occurrence (role : Role) (inWith : Bool) : Option Token → List Occurrence
  | some token => [⟨token.text, token.span, role, inWith⟩]
  | none => []

def macroOccurrence (inWith : Bool) (children : List Tree) : List Occurrence :=
  match findLeaf? .macroLine children with
  | none => []
  | some token =>
      match MacroLine.parse? token.text with
      | none => []
      | some line => [⟨line.name, line.span.shift token.start, .macroName line.value, inWith⟩]

/-- The names among siblings, each in the same role. -/
def nameOccurrences (role : Role) (inWith : Bool) (children : List Tree) : List Occurrence :=
  (children.filter (hasKind .name)).flatMap fun name =>
    occurrence role inWith (name.childToken? .ident)

/-- Whether an assignment replaces its target without reading it. -/
def isPlainAssignment (children : List Tree) : Bool :=
  (findLeaf? .assign children).isSome || (findLeaf? .colonAssign children).isSome

/-- The word before the dot of `global.name` or `self.name`. -/
def fieldBase? (tree : Tree) : Option TokenKind :=
  match tree.nodes.head? with
  | none => none
  | some base =>
      if base.hasKind .nameRef then
        match base.leaves.head? with
        | some token =>
            if token.kind = .kwGlobal || token.kind = .kwSelf then some token.kind else none
        | none => none
      else none

def fieldName? (tree : Tree) : Option Token :=
  (tree.nodes.find? (hasKind .name)).bind (childToken? .ident)

/-- The occurrence that the target of an assignment is, unless the target is an
expression like any other. -/
def targetOccurrence? (plain inWith : Bool) (target : Tree) : Option (List Occurrence) :=
  if target.hasKind .nameRef then
    some (occurrence (.assigned plain) inWith (target.childToken? .ident))
  else if target.hasKind .fieldExpr then
    match fieldBase? target, fieldName? target with
    | some .kwGlobal, some name => some (occurrence (.assignedGlobal plain) inWith (some name))
    | some .kwSelf, some name => some (occurrence (.assignedSelf plain) inWith (some name))
    | _, _ => none
  else none

mutual

/-- The occurrences in a tree. A name that is called plays another part than one that
is only read. -/
def occurrences (inWith isCallee : Bool) : Tree → List Occurrence
  | .leaf _ => []
  | .node .varStmt children => declaratorOccurrences inWith children
  | .node .globalVarStmt children => nameOccurrences .globalVariable inWith children
  | .node .macroDecl children => macroOccurrence inWith children
  | .node .functionDecl children => functionOccurrences inWith true children
  | .node .functionExpr children => functionOccurrences inWith false children
  | .node .assignStmt children =>
      assignmentOccurrences inWith (isPlainAssignment children) children
  | .node .withStmt children => withOccurrences inWith children
  | .node .callExpr children => callOccurrences inWith children
  | .node .nameRef children =>
      occurrence (if isCallee then .called else .read) inWith (findLeaf? .ident children)
  | .node _ children => allOccurrences inWith children

def allOccurrences (inWith : Bool) : List Tree → List Occurrence
  | [] => []
  | tree :: trees => occurrences inWith false tree ++ allOccurrences inWith trees

/-- The first node is called. -/
def callOccurrences (inWith : Bool) : List Tree → List Occurrence
  | [] => []
  | tree :: trees =>
      if tree.isNode then occurrences inWith true tree ++ allOccurrences inWith trees
      else callOccurrences inWith trees

/-- The first node says for whom the others are. -/
def withOccurrences (inWith : Bool) : List Tree → List Occurrence
  | [] => []
  | tree :: trees =>
      if tree.isNode then occurrences inWith false tree ++ allOccurrences true trees
      else withOccurrences inWith trees

/-- The first node is assigned to. -/
def assignmentOccurrences (inWith plain : Bool) : List Tree → List Occurrence
  | [] => []
  | tree :: trees =>
      if tree.isNode then
        (match targetOccurrence? plain inWith tree with
          | some target => target
          | none => occurrences inWith false tree)
          ++ allOccurrences inWith trees
      else assignmentOccurrences inWith plain trees

/-- Each declarator first reads its initial value. -/
def declaratorOccurrences (inWith : Bool) : List Tree → List Occurrence
  | [] => []
  | .leaf _ :: trees => declaratorOccurrences inWith trees
  | .node _ children :: trees =>
      (match children.find? (hasKind .name) with
        | none => []
        | some name =>
            initialOccurrences inWith children
              ++ occurrence .ownVariable inWith (name.childToken? .ident))
        ++ declaratorOccurrences inWith trees

/-- What is not a declared name. -/
def initialOccurrences (inWith : Bool) : List Tree → List Occurrence
  | [] => []
  | tree :: trees =>
      (if tree.hasKind .name then [] else occurrences inWith false tree)
        ++ initialOccurrences inWith trees

/-- The parts of a function; only a declared one has a name that others can use. -/
def functionOccurrences (inWith declared : Bool) : List Tree → List Occurrence
  | [] => []
  | .leaf _ :: trees => functionOccurrences inWith declared trees
  | .node .paramList parameters :: trees =>
      parameterOccurrences inWith parameters ++ functionOccurrences inWith declared trees
  | tree :: trees =>
      (if declared && tree.hasKind .name then
          occurrence .functionName inWith (tree.childToken? .ident)
        else occurrences inWith false tree)
        ++ functionOccurrences inWith declared trees

def parameterOccurrences (inWith : Bool) : List Tree → List Occurrence
  | [] => []
  | tree :: trees =>
      (if tree.hasKind .name then occurrence .ownVariable inWith (tree.childToken? .ident)
        else occurrences inWith false tree)
        ++ parameterOccurrences inWith trees

end

end Tree

end Gml
