import Gml.Proofs.Tree.Spelling
import Gml.Tree.Build
import Mathlib.Data.List.TakeWhile

/-!
# Weaving blanks and comments into a tree

The builder is compared with a recursion over the tree that the grammar found. Both
put blanks and comments in front of the node or token that they precede. If the
tokens that mean something are the leaves of that tree, every token of the text comes
back exactly once and in its place.
-/
namespace Gml

namespace Tree

/-- Blanks and comments at the front of a list of tokens, as leaves. -/
def leadingTrivia (tokens : List Token) : List Tree :=
  (tokens.takeWhile (·.kind.isTrivia)).map .leaf

/-- The tokens from the first one on that means something. -/
def afterTrivia (tokens : List Token) : List Token := tokens.dropWhile (·.kind.isTrivia)

mutual

/-- A tree with the blanks and comments before it and inside of it, and the tokens that
are left. The texts of the leaves come from the tokens, the kinds from the tree. -/
def weave : Tree → List Token → List Tree × List Token
  | .leaf token, tokens =>
      (leadingTrivia tokens ++
        ((afterTrivia tokens).take 1).map fun t => .leaf { t with kind := token.kind },
        (afterTrivia tokens).drop 1)
  | .node kind children, tokens =>
      let (inside, rest) := weaveAll children (afterTrivia tokens)
      (leadingTrivia tokens ++ [.node kind inside], rest)

def weaveAll : List Tree → List Token → List Tree × List Token
  | [], tokens => ([], tokens)
  | tree :: trees, tokens =>
      let (first, middle) := weave tree tokens
      let (others, rest) := weaveAll trees middle
      (first ++ others, rest)

end

/-- A whole tree: the root takes what is left at the end. -/
def weaveRoot (kind : NodeKind) (children : List Tree) (tokens : List Token) : Tree :=
  let (inside, rest) := weaveAll children tokens
  .node kind (inside ++ leadingTrivia rest)

theorem leadingTrivia_afterTrivia (tokens : List Token) :
    leadingTrivia (afterTrivia tokens) = [] := by
  unfold leadingTrivia afterTrivia
  induction tokens with
  | nil => rfl
  | cons token tokens ih => by_cases h : token.kind.isTrivia <;> simp_all

theorem afterTrivia_afterTrivia (tokens : List Token) :
    afterTrivia (afterTrivia tokens) = afterTrivia tokens := by
  unfold afterTrivia
  induction tokens with
  | nil => rfl
  | cons token tokens ih => by_cases h : token.kind.isTrivia <;> simp_all

end Tree

namespace TreeBuilder

/-- Adds trees in order and goes on with other tokens. -/
def grow (b : TreeBuilder) (trees : List Tree) (pending : List Token) : TreeBuilder :=
  trees.foldl add { b with pending }

theorem add_with_pending (b : TreeBuilder) (tree : Tree) (pending : List Token) :
    { b.add tree with pending } = { b with pending }.add tree := by
  unfold add
  cases b.openNodes <;> rfl

theorem grow_with_pending (b : TreeBuilder) (trees : List Tree) (middle rest : List Token) :
    { b.grow trees middle with pending := rest } = b.grow trees rest := by
  unfold grow
  induction trees generalizing b with
  | nil => rfl
  | cons tree trees ih =>
      have h := ih ({ b with pending := middle }.add tree)
      rw [add_with_pending, add_with_pending] at h
      exact h

theorem pending_grow (b : TreeBuilder) (trees : List Tree) (rest : List Token) :
    (b.grow trees rest).pending = rest :=
  (congrArg TreeBuilder.pending (grow_with_pending b trees rest rest)).symm

theorem grow_append (b : TreeBuilder) (trees others : List Tree) (middle rest : List Token) :
    (b.grow trees middle).grow others rest = b.grow (trees ++ others) rest := by
  change others.foldl add { b.grow trees middle with pending := rest } = _
  rw [grow_with_pending]
  exact List.foldl_append.symm

theorem placeTrivia_eq_grow (b : TreeBuilder) :
    b.placeTrivia = b.grow (Tree.leadingTrivia b.pending) (Tree.afterTrivia b.pending) := by
  simp only [placeTrivia, place, grow, Tree.leadingTrivia, Tree.afterTrivia, List.foldl_map]

theorem placeToken_eq_grow (b : TreeBuilder) (kind : TokenKind) :
    b.placeToken kind =
      b.grow ((b.pending.take 1).map fun token => .leaf { token with kind }) (b.pending.drop 1) := by
  simp only [placeToken, place, grow, List.foldl_map]

/-- What is added while a node is open goes into that node. -/
theorem grow_open (b : TreeBuilder) (kind : NodeKind) (reversed : List Tree)
    (below : List OpenNode) (trees : List Tree) (rest : List Token) :
    { b with openNodes := ⟨kind, reversed⟩ :: below }.grow trees rest =
      { b with openNodes := ⟨kind, trees.reverse ++ reversed⟩ :: below, pending := rest } := by
  unfold grow
  induction trees generalizing reversed with
  | nil => rfl
  | cons tree trees ih =>
      rw [List.reverse_cons, List.append_assoc]
      exact ih (tree :: reversed)

/-- A node that is opened and closed again is added with what came between. -/
theorem leave_grow_enter (b : TreeBuilder) (kind : NodeKind) (trees : List Tree)
    (rest : List Token) :
    ((b.enter [kind]).grow trees rest).leave = b.grow [.node kind trees] rest := by
  have h : (b.enter [kind]).grow trees rest =
      { b with openNodes := ⟨kind, trees.reverse⟩ :: b.openNodes, pending := rest } := by
    have hopen := grow_open b kind [] b.openNodes trees rest
    rwa [List.append_nil] at hopen
  rw [h]
  simp [leave, grow]

@[simp] theorem pending_enter (b : TreeBuilder) (kinds : List NodeKind) :
    (b.enter kinds).pending = b.pending := rfl

theorem enter_enter (b : TreeBuilder) (kind : NodeKind) (kinds : List NodeKind) :
    (b.enter [kind]).enter kinds = b.enter (kind :: kinds) := by
  simp [enter]

/-- Blanks and comments are only placed once. -/
theorem placeTrivia_enter_placeTrivia (b : TreeBuilder) (kinds : List NodeKind) :
    (b.placeTrivia.enter kinds).placeTrivia = b.placeTrivia.enter kinds := by
  have hpending : (b.placeTrivia.enter kinds).pending = Tree.afterTrivia b.pending := by
    rw [pending_enter, placeTrivia_eq_grow, pending_grow]
  rw [placeTrivia_eq_grow, hpending, Tree.leadingTrivia_afterTrivia, Tree.afterTrivia_afterTrivia,
    ← hpending]
  rfl

/-! ### Runs -/

theorem run_leave {rest : List BuildStep} (h : rest ≠ []) (b : TreeBuilder) :
    run (.leave :: rest) b = run rest b.leave := by
  cases rest with
  | nil => exact absurd rfl h
  | cons step rest => rfl

/-- The steps of trees add these trees with the blanks and comments between. -/
theorem run_stepsAll (trees : List Tree) {rest : List BuildStep} (h : rest ≠ [])
    (b : TreeBuilder) :
    run (Tree.stepsAll trees ++ rest) b =
      run rest (b.grow (Tree.weaveAll trees b.pending).1 (Tree.weaveAll trees b.pending).2) := by
  match trees with
  | [] => rfl
  | .leaf token :: trees =>
      simp only [Tree.stepsAll, Tree.steps, List.cons_append, List.nil_append, run]
      rw [run_stepsAll trees h, placeToken_eq_grow, placeTrivia_eq_grow, pending_grow, pending_grow,
        grow_append, grow_append]
      simp only [Tree.weaveAll, Tree.weave, List.append_assoc]
  | .node kind children :: trees =>
      simp only [Tree.stepsAll, Tree.steps, List.cons_append, List.append_assoc, List.nil_append,
        run]
      rw [run_stepsAll children (List.cons_ne_nil _ _), run_leave (by simp [h]),
        run_stepsAll trees h, leave_grow_enter, pending_grow, placeTrivia_eq_grow, grow_append,
        grow_append, pending_enter, pending_grow]
      simp only [Tree.weaveAll, Tree.weave, List.append_assoc]

theorem run_single_enter (kinds : List NodeKind) (h : kinds ≠ []) (rest : List BuildStep)
    (b : TreeBuilder) :
    run (BuildStep.single (.enter kinds) ++ rest) b = run rest (b.placeTrivia.enter kinds) := by
  induction kinds generalizing b with
  | nil => exact absurd rfl h
  | cons kind kinds ih =>
      cases kinds with
      | nil => rfl
      | cons next kinds =>
          change run (BuildStep.single (.enter (next :: kinds)) ++ rest) (b.placeTrivia.enter [kind]) = _
          rw [ih (List.cons_ne_nil _ _), placeTrivia_enter_placeTrivia, enter_enter]

/-- It makes no difference whether nodes are opened together or one by one. -/
theorem run_singles (steps : List BuildStep) (h : ∀ kinds, .enter kinds ∈ steps → kinds ≠ [])
    {rest : List BuildStep} (hrest : rest ≠ []) (b : TreeBuilder) :
    run (BuildStep.singles steps ++ rest) b = run (steps ++ rest) b := by
  induction steps generalizing b with
  | nil => rfl
  | cons step steps ih =>
      have hsteps := ih fun kinds hkinds => h kinds (List.mem_cons_of_mem step hkinds)
      simp only [BuildStep.singles, List.flatMap_cons, List.append_assoc] at hsteps ⊢
      cases step with
      | enter kinds => rw [run_single_enter kinds (h kinds List.mem_cons_self), hsteps]; rfl
      | token kind =>
          simp only [BuildStep.single, List.cons_append, List.nil_append, run, hsteps]
      | leave =>
          simp only [BuildStep.single, List.cons_append, List.nil_append]
          rw [run_leave (by simp [hrest]), run_leave (by simp [hrest]), hsteps]

end TreeBuilder

/-- A node around what is spelled is built as the tree with its blanks and comments. -/
theorem Tree.build_eq_weaveRoot {events : List Event} {trees : List Tree} (kind : NodeKind)
    (h : Spells events trees) (tokens : List Token) :
    Tree.build (.start kind none :: (events ++ [.finish])).toArray tokens =
      Tree.weaveRoot kind trees tokens := by
  obtain ⟨inside, hsteps, hflat⟩ := Event.steps_enclose kind h
  have hinside : ∀ kinds, .enter kinds ∈ inside → kinds ≠ [] := by
    intro kinds hkinds
    apply Event.resolve_ne_nil _ 0 (.start kind none :: (events ++ [.finish])).toArray
    change .enter kinds ∈ Event.steps _
    rw [hsteps]
    simp [hkinds]
  have hrun := TreeBuilder.run_singles inside hinside (List.cons_ne_nil BuildStep.leave [])
    (TreeBuilder.enter ⟨tokens, [], none⟩ [kind])
  rw [hflat, TreeBuilder.run_stepsAll _ (List.cons_ne_nil _ _)] at hrun
  simp only [Tree.build, hsteps, ← hrun, TreeBuilder.run, TreeBuilder.placeTrivia_eq_grow,
    TreeBuilder.pending_grow, TreeBuilder.grow_append, TreeBuilder.leave_grow_enter,
    TreeBuilder.pending_enter]
  rfl

namespace Tree

/-! ### The leaves of a woven tree -/

/-- The tokens that are neither blank nor comment. -/
def meaningful (tokens : List Token) : List Token := tokens.filter fun token => !token.kind.isTrivia

theorem leavesAll_map_leaf (tokens : List Token) : leavesAll (tokens.map .leaf) = tokens := by
  induction tokens with
  | nil => rfl
  | cons token tokens ih => simp only [List.map_cons, leavesAll, leaves, ih, List.singleton_append]

theorem leaves_leadingTrivia_append (tokens : List Token) :
    leavesAll (leadingTrivia tokens) ++ afterTrivia tokens = tokens := by
  rw [leadingTrivia, leavesAll_map_leaf]
  exact List.takeWhile_append_dropWhile

theorem meaningful_afterTrivia (tokens : List Token) :
    meaningful (afterTrivia tokens) = meaningful tokens := by
  unfold meaningful afterTrivia
  induction tokens with
  | nil => rfl
  | cons token tokens ih => by_cases h : token.kind.isTrivia <;> simp_all

/-- The first token that means something is where the blanks and comments end. -/
theorem afterTrivia_eq_cons {tokens more : List Token} {token : Token}
    (h : meaningful tokens = token :: more) :
    ∃ rest, afterTrivia tokens = token :: rest ∧ meaningful rest = more := by
  unfold meaningful afterTrivia at *
  induction tokens with
  | nil => simp at h
  | cons first tokens ih => by_cases hfirst : first.kind.isTrivia <;> simp_all

/-- Weaving takes the tokens up to the last leaf, each once and in order. -/
theorem leavesAll_weaveAll (trees : List Tree) (tokens more : List Token)
    (h : meaningful tokens = leavesAll trees ++ more) :
    leavesAll (weaveAll trees tokens).1 ++ (weaveAll trees tokens).2 = tokens ∧
      meaningful (weaveAll trees tokens).2 = more := by
  match trees with
  | [] => exact ⟨rfl, h⟩
  | .leaf token :: trees =>
      obtain ⟨rest, hafter, hrest⟩ := afterTrivia_eq_cons h
      have ih := leavesAll_weaveAll trees rest more hrest
      refine ⟨?_, by simpa [weaveAll, weave, hafter] using ih.2⟩
      have htokens := leaves_leadingTrivia_append tokens
      simp only [weaveAll, weave, hafter, List.take_succ_cons, List.take_zero, List.map_cons,
        List.map_nil, List.drop_succ_cons, List.drop_zero, leavesAll_append, leavesAll, leaves,
        List.append_assoc, List.cons_append, ih.1] at htokens ⊢
      exact htokens
  | .node kind children :: trees =>
      rw [← meaningful_afterTrivia, leavesAll, leaves, List.append_assoc] at h
      have hinside := leavesAll_weaveAll children (afterTrivia tokens) _ h
      have ih := leavesAll_weaveAll trees _ more hinside.2
      refine ⟨?_, by simpa [weaveAll, weave] using ih.2⟩
      simp only [weaveAll, weave, leavesAll_append, leavesAll, leaves, List.append_assoc,
        List.append_nil, ih.1, hinside.1]
      exact leaves_leadingTrivia_append tokens

/-- All tokens are leaves of the whole tree if those that mean something are its leaves
without blanks and comments. -/
theorem leaves_weaveRoot (kind : NodeKind) (trees : List Tree) (tokens : List Token)
    (h : meaningful tokens = leavesAll trees) : (weaveRoot kind trees tokens).leaves = tokens := by
  obtain ⟨hleaves, hrest⟩ := leavesAll_weaveAll trees tokens [] (by simpa using h)
  have hafter : afterTrivia (weaveAll trees tokens).2 = [] := by
    unfold meaningful afterTrivia at *
    rw [List.dropWhile_eq_nil_iff]
    simpa using hrest
  have htrailing := leaves_leadingTrivia_append (weaveAll trees tokens).2
  rw [hafter, List.append_nil] at htrailing
  simp only [weaveRoot, leaves, leavesAll_append, htrailing, hleaves]

end Tree

end Gml
