import Gml.Proofs.Parse.Lossless
import Gml.Proofs.Parser.Productions
import Gml.Proofs.Tree.Preorder

/-!
# Trees of texts without errors

A text that parses without an error has a tree in which every node has the children that
the production of its kind asks for, once blanks and comments are left out. So whoever
reads the tree can find the parts of a construct by their places.
-/
namespace Gml

namespace Tree

def isTrivia : Tree → Bool
  | .leaf token => token.kind.isTrivia
  | .node _ _ => false

mutual

/-- A tree without the blanks and comments inside of it. -/
def bare : Tree → Tree
  | .leaf token => .leaf token
  | .node kind children => .node kind (bareAll children)

def bareAll : List Tree → List Tree
  | [] => []
  | tree :: trees => if tree.isTrivia then bareAll trees else bare tree :: bareAll trees

end

theorem bareAll_append (trees others : List Tree) :
    bareAll (trees ++ others) = bareAll trees ++ bareAll others := by
  induction trees with
  | nil => rfl
  | cons tree trees ih =>
      rw [List.cons_append, bareAll, bareAll, ih]
      split
      · rfl
      · rfl

theorem bareAll_leadingTrivia (tokens : List Token) : bareAll (leadingTrivia tokens) = [] := by
  unfold leadingTrivia
  induction tokens with
  | nil => rfl
  | cons token tokens ih =>
      rw [List.takeWhile_cons]
      split
      next htrivia => rw [List.map_cons, bareAll, isTrivia, if_pos htrivia, ih]
      · rfl

/-- Without blanks and comments a woven tree is the tree that the grammar found. -/
theorem bareAll_weaveAll (trees : List Tree) (tokens more : List Token)
    (h : meaningful tokens = leavesAll trees ++ more) :
    bareAll (weaveAll trees tokens).1 = trees := by
  match trees with
  | [] => rfl
  | .leaf token :: trees =>
      obtain ⟨rest, hafter, hrest⟩ := afterTrivia_eq_cons h
      have hmeans : token.kind.isTrivia = false := by
        have hmem : token ∈ meaningful tokens := by
          rw [h]
          exact List.mem_cons_self
        simpa using (List.mem_filter.mp hmem).2
      have ih := bareAll_weaveAll trees rest more hrest
      simp only [weaveAll, weave, hafter, List.take_succ_cons, List.take_zero, List.map_cons,
        List.map_nil, List.drop_succ_cons, List.drop_zero, bareAll_append, bareAll_leadingTrivia,
        ih, bareAll, bare, isTrivia, hmeans]
      rfl
  | .node kind children :: trees =>
      rw [← meaningful_afterTrivia, leavesAll, leaves, List.append_assoc] at h
      have hinside := bareAll_weaveAll children (afterTrivia tokens) _ h
      have ih := bareAll_weaveAll trees _ more
        (leavesAll_weaveAll children (afterTrivia tokens) _ h).2
      simp only [weaveAll, weave, bareAll_append, bareAll_leadingTrivia, bareAll, bare, isTrivia,
        hinside, ih]
      rfl

theorem bare_weaveRoot (kind : NodeKind) (trees : List Tree) (tokens : List Token)
    (h : meaningful tokens = leavesAll trees) :
    (weaveRoot kind trees tokens).bare = .node kind trees := by
  have hinside := bareAll_weaveAll trees tokens [] (by simpa using h)
  simp only [weaveRoot, bare, bareAll_append, bareAll_leadingTrivia, hinside, List.append_nil]

mutual

/-- What holds of a tree without blanks and comments is found at every node of the tree. -/
theorem production_of_mem_preorder {tree : Tree} (h : tree.bare.WellShaped) {kind : NodeKind}
    {children : List Tree} (hmem : .node kind children ∈ tree.preorder) :
    bareAll children ∈ kind.production := by
  match tree with
  | .leaf token =>
      rw [preorder, List.mem_singleton] at hmem
      cases hmem
  | .node _ _ =>
      cases h with
      | node hproduction hchildren =>
          rw [preorder] at hmem
          rcases List.mem_cons.mp hmem with heq | hbelow
          · cases heq
            exact hproduction
          · exact production_of_mem_preorderAll hchildren hbelow

theorem production_of_mem_preorderAll {trees : List Tree}
    (h : ∀ tree ∈ bareAll trees, tree.WellShaped) {kind : NodeKind} {children : List Tree}
    (hmem : .node kind children ∈ preorderAll trees) : bareAll children ∈ kind.production := by
  match trees with
  | [] => cases hmem
  | tree :: trees =>
      rw [bareAll] at h
      rw [preorderAll] at hmem
      split at h
      next htrivia =>
          rcases List.mem_append.mp hmem with hfirst | hrest
          · cases tree with
            | leaf token =>
                rw [preorder, List.mem_singleton] at hfirst
                cases hfirst
            | node _ _ => cases htrivia
          · exact production_of_mem_preorderAll h hrest
      next =>
          rcases List.mem_append.mp hmem with hfirst | hrest
          · exact production_of_mem_preorder (h _ List.mem_cons_self) hfirst
          · refine production_of_mem_preorderAll (fun other hother => ?_) hrest
            exact h other (List.mem_cons_of_mem _ hother)

end

mutual

theorem WellShaped.leaves_ne_error {tree : Tree} (h : tree.WellShaped) :
    ∀ token ∈ tree.leaves, token.kind ≠ .error := by
  match tree with
  | .leaf token =>
      cases h with
      | leaf hfits =>
          intro other hother
          rw [leaves, List.mem_singleton] at hother
          rw [hother]
          exact hfits
  | .node _ _ =>
      cases h with
      | node _ hchildren => exact leavesAll_ne_error hchildren

theorem leavesAll_ne_error {trees : List Tree} (h : ∀ tree ∈ trees, tree.WellShaped) :
    ∀ token ∈ leavesAll trees, token.kind ≠ .error := by
  match trees with
  | [] => nofun
  | tree :: trees =>
      intro token htoken
      rw [leavesAll] at htoken
      rcases List.mem_append.mp htoken with hfirst | hrest
      · exact (h tree List.mem_cons_self).leaves_ne_error token hfirst
      · exact leavesAll_ne_error (fun other hother => h other (List.mem_cons_of_mem tree hother))
          token hrest

end

end Tree

theorem Grammar.read_yields (p : Parser) : p.Yields NodeKind.sourceFile.production p.read :=
  Parser.parses_repeatWhile (fun q hq _ => parses_topLevelStatement (ofDepth_fits p.rounds) q hq) p
    (Nat.lt_succ_self _)

end Gml
