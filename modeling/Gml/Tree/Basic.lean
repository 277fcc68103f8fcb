import Gml.Token.Lexer
import Gml.Tree.Kind

/-!
# Trees

A tree keeps every token of its text, blanks and comments included, so the
leaves from left to right are the tokens and their texts joined are the text.
-/
namespace Gml

inductive Tree where
  | leaf (token : Token)
  | node (kind : NodeKind) (children : List Tree)
  deriving Inhabited

namespace Tree

mutual

def leaves : Tree → List Token
  | .leaf token => [token]
  | .node _ children => leavesAll children

def leavesAll : List Tree → List Token
  | [] => []
  | tree :: trees => leaves tree ++ leavesAll trees

end

mutual

/-- The tree itself and everything below it, parents before children and left
before right. -/
def preorder : Tree → List Tree
  | .leaf token => [.leaf token]
  | .node kind children => .node kind children :: preorderAll children

def preorderAll : List Tree → List Tree
  | [] => []
  | tree :: trees => preorder tree ++ preorderAll trees

end

def text (tree : Tree) : String := String.join (tree.leaves.map Token.text)

def isNode : Tree → Bool
  | .leaf _ => false
  | .node _ _ => true

def children : Tree → List Tree
  | .leaf _ => []
  | .node _ children => children

def nodes (tree : Tree) : List Tree := tree.children.filter isNode

def hasKind (kind : NodeKind) : Tree → Bool
  | .leaf _ => false
  | .node k _ => k == kind

/-- The first token of a kind in a list of siblings. -/
def findLeaf? (kind : TokenKind) : List Tree → Option Token
  | [] => none
  | .leaf token :: rest => if token.kind = kind then some token else findLeaf? kind rest
  | .node _ _ :: rest => findLeaf? kind rest

def childToken? (kind : TokenKind) (tree : Tree) : Option Token := findLeaf? kind tree.children

def childTokens (tree : Tree) : List Token :=
  tree.children.filterMap fun
    | .leaf token => some token
    | .node _ _ => none

/-- The identifier of a name in an expression; the words `self`, `other` and the
like are such names too and have none. -/
def referenceIdent? (tree : Tree) : Option Token :=
  if tree.hasKind .nameRef then tree.childToken? .ident else none

/-- One line of a listing: how deep an element is, its kind, its bytes, and the
text of a token. -/
structure Entry where
  depth : Nat
  kind : ElementKind
  span : Span
  text : Option String

mutual

/-- Every element in preorder, for a tree that starts at a byte offset, and the offset
behind the tree. A node without tokens is empty where it stands. -/
def entriesFrom (depth offset : Nat) : Tree → List Entry × Nat
  | .leaf token =>
      let stop := offset + token.text.utf8ByteSize
      ([⟨depth, .token token.kind, ⟨offset, stop⟩, some token.text⟩], stop)
  | .node kind children =>
      let (below, stop) := entriesFromAll (depth + 1) offset children
      (⟨depth, .node kind, ⟨offset, stop⟩, none⟩ :: below, stop)

def entriesFromAll (depth offset : Nat) : List Tree → List Entry × Nat
  | [] => ([], offset)
  | tree :: trees =>
      let (here, middle) := entriesFrom depth offset tree
      let (rest, stop) := entriesFromAll depth middle trees
      (here ++ rest, stop)

end

def listing (tree : Tree) : List Entry := (tree.entriesFrom 0 0).1

end Tree

end Gml
