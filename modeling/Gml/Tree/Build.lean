import Gml.Tree.Basic
import Gml.Tree.Event

/-!
# Building a tree

The builder puts the blanks and comments back that the grammar never sees. They
stay outside of nodes: what stands before a node or a token goes into the node
around it, and a node that ends leaves the rest to its parent. Only the root takes
what remains at the end.
-/
namespace Gml

/-- An open node with its children so far, the last one first. -/
structure OpenNode where
  kind : NodeKind
  reversed : List Tree

/-- A tree under construction. -/
structure TreeBuilder where
  pending : List Token
  /-- The open nodes, the innermost first. -/
  openNodes : List OpenNode
  root : Option Tree := none

namespace TreeBuilder

/-- Adds a finished tree to the innermost open node; without one it is the root. -/
def add (b : TreeBuilder) (tree : Tree) : TreeBuilder :=
  match b.openNodes with
  | [] => { b with root := some tree }
  | top :: rest => { b with openNodes := ⟨top.kind, tree :: top.reversed⟩ :: rest }

/-- Places a token that is already taken off the pending ones. -/
def place (b : TreeBuilder) (tokens : List Token) (pending : List Token) : TreeBuilder :=
  tokens.foldl (fun b token => b.add (.leaf token)) { b with pending }

/-- Places the blanks and comments that come next. -/
def placeTrivia (b : TreeBuilder) : TreeBuilder :=
  b.place (b.pending.takeWhile (·.kind.isTrivia)) (b.pending.dropWhile (·.kind.isTrivia))

/-- Places the next token under the kind that the grammar saw. -/
def placeToken (b : TreeBuilder) (kind : TokenKind) : TreeBuilder :=
  b.place ((b.pending.take 1).map fun token => { token with kind }) (b.pending.drop 1)

def enter (b : TreeBuilder) (kinds : List NodeKind) : TreeBuilder :=
  { b with openNodes := (kinds.map fun kind => ⟨kind, []⟩).reverse ++ b.openNodes }

def leave (b : TreeBuilder) : TreeBuilder :=
  match b.openNodes with
  | [] => b
  | top :: rest => { b with openNodes := rest }.add (.node top.kind top.reversed.reverse)

/-- Runs the steps after the first one. The last step closes the root, which takes
what is left of the blanks and comments. -/
def run : List BuildStep → TreeBuilder → TreeBuilder
  | [], b => b
  | .enter kinds :: rest, b => run rest (b.placeTrivia.enter kinds)
  | .token kind :: rest, b => run rest (b.placeTrivia.placeToken kind)
  | [.leave], b => b.placeTrivia.leave
  | .leave :: rest, b => run rest b.leave

end TreeBuilder

/-- The tree of an event list over the tokens of a text. The first event opens the
root before any blank or comment. -/
def Tree.build (events : Array Event) (tokens : List Token) : Tree :=
  let b : TreeBuilder := ⟨tokens, [], none⟩
  let b := match Event.steps events with
    | .enter kinds :: rest => TreeBuilder.run rest (b.enter kinds)
    | steps => TreeBuilder.run steps b
  b.root.getD (.node .sourceFile [])

end Gml
