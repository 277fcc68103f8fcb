import Gml.Proofs.Parse.Regular
import Mathlib.Data.List.Pairwise

/-!
# Parts of a tree are nested or apart

The leaves of a tree stand one behind the other, and each has at least one byte. So of two
parts of a tree one is in the other, or all tokens of the one are in front of all tokens of
the other. A part with a token stands at one place only, below one parent.
-/
namespace Gml

/-! ### Tokens in their order -/

namespace Token

/-- Tokens that stand one behind the other, none of them empty. -/
structure Ordered (tokens : List Token) : Prop where
  nonempty : ∀ token ∈ tokens, token.start < token.stop
  sorted : tokens.Pairwise (·.stop ≤ ·.start)

namespace Ordered

variable {tokens others : List Token}

theorem sublist (h : Ordered tokens) (hsub : others.Sublist tokens) : Ordered others :=
  ⟨fun token htoken => h.nonempty token (hsub.subset htoken), h.sorted.sublist hsub⟩

theorem left (h : Ordered (tokens ++ others)) : Ordered tokens :=
  h.sublist (List.sublist_append_left _ _)

theorem right (h : Ordered (tokens ++ others)) : Ordered others :=
  h.sublist (List.sublist_append_right _ _)

theorem across (h : Ordered (tokens ++ others)) :
    ∀ token ∈ tokens, ∀ other ∈ others, token.stop ≤ other.start :=
  (List.pairwise_append.mp h.sorted).2.2

end Ordered

theorem Tiles.le_start {start stop : Nat} {tokens : List Token} (h : Tiles start tokens stop) :
    ∀ token ∈ tokens, start ≤ token.start := by
  induction h with
  | nil offset => simp
  | @cons first tokens stop h ih =>
      intro token htoken
      rcases List.mem_cons.mp htoken with rfl | htoken
      · exact Nat.le_refl _
      · have hfirst : first.start ≤ first.stop := Nat.le_add_right _ _
        exact Nat.le_trans hfirst (ih token htoken)

theorem Tiles.sorted {start stop : Nat} {tokens : List Token} (h : Tiles start tokens stop) :
    tokens.Pairwise (·.stop ≤ ·.start) := by
  induction h with
  | nil offset => exact .nil
  | cons h ih => exact .cons h.le_start ih

/-- The lexer never stands still. -/
theorem scan_nonempty (steps offset : Nat) (cs : List Char) :
    ∀ token ∈ scan steps offset cs, token.start < token.stop := by
  induction steps generalizing offset cs with
  | zero => simp [scan]
  | succ steps ih =>
      cases cs with
      | nil => simp [scan]
      | cons c cs =>
          intro token hmem
          rcases List.mem_cons.mp hmem with rfl | hmem
          · have hsize := c.utf8Size_pos
            simp only [stop, Text.utf8ByteSize_ofList, Text.byteLength]
            omega
          · exact ih _ _ token hmem

end Token

theorem lex_ordered (text : String) : Token.Ordered (lex text) :=
  ⟨Token.scan_nonempty text.length 0 text.toList, (lex_tiles text).sorted⟩

theorem parse_ordered (text : String) : Token.Ordered (parse text).tree.leaves := by
  rw [leaves_parse]
  exact lex_ordered text

namespace Tree

open Token (Ordered)

/-! ### One part in front of the other -/

/-- All tokens of the one are in front of all tokens of the other. -/
def Precedes (tree other : Tree) : Prop :=
  ∀ token ∈ tree.leaves, ∀ token' ∈ other.leaves, token.stop ≤ token'.start

/-- One of two trees is in front of the other. -/
def Apart (tree other : Tree) : Prop := tree.Precedes other ∨ other.Precedes tree

instance : Std.Symm Apart := ⟨fun _ _ => Or.symm⟩

theorem siblings_pairwise {trees : List Tree} (h : Ordered (leavesAll trees)) :
    trees.Pairwise Precedes := by
  have hsorted := h.sorted
  rw [leavesAll_eq_flatMap, List.pairwise_flatMap] at hsorted
  exact hsorted.2

/-- One of two trees is a part of the other, or they are apart. -/
inductive NestedOrApart (tree other : Tree) : Prop
  | inside (h : tree ∈ other.preorder)
  | around (h : other ∈ tree.preorder)
  | apart (h : tree.Apart other)

mutual

theorem nestedOrApart {tree part part' : Tree} (h : Ordered tree.leaves)
    (hpart : part ∈ tree.preorder) (hpart' : part' ∈ tree.preorder) : part.NestedOrApart part' := by
  match tree with
  | .leaf token =>
      rw [preorder, List.mem_singleton] at hpart hpart'
      subst hpart hpart'
      exact .inside (mem_preorder_self _)
  | .node kind children =>
      have hall := hpart
      have hall' := hpart'
      rw [preorder] at hpart hpart'
      rcases List.mem_cons.mp hpart with rfl | hbelow
      · exact .around hall'
      · rcases List.mem_cons.mp hpart' with rfl | hbelow'
        · exact .inside hall
        · exact nestedOrApart_of_siblings h hbelow hbelow'

theorem nestedOrApart_of_siblings {trees : List Tree} {part part' : Tree}
    (h : Ordered (leavesAll trees)) (hpart : part ∈ preorderAll trees)
    (hpart' : part' ∈ preorderAll trees) : part.NestedOrApart part' := by
  match trees with
  | [] => cases hpart
  | tree :: trees =>
      rw [leavesAll] at h
      rw [preorderAll] at hpart hpart'
      have hfront {first rest : Tree} (hfirst : first ∈ tree.preorder)
          (hrest : rest ∈ preorderAll trees) : first.Precedes rest :=
        fun token htoken token' htoken' => h.across
          token (leaves_of_mem_preorder hfirst token htoken)
          token' (leavesAll_of_mem_preorderAll hrest token' htoken')
      rcases List.mem_append.mp hpart with hfirst | hrest
      · rcases List.mem_append.mp hpart' with hfirst' | hrest'
        · exact nestedOrApart h.left hfirst hfirst'
        · exact .apart (.inl (hfront hfirst hrest'))
      · rcases List.mem_append.mp hpart' with hfirst' | hrest'
        · exact .apart (.inr (hfront hfirst' hrest))
        · exact nestedOrApart_of_siblings h.right hrest hrest'

end

/-! ### One place only -/

theorem Apart.not_shared {tree other : Tree} (h : tree.Apart other) {token : Token}
    (hnonempty : token.start < token.stop) (htoken : token ∈ tree.leaves) :
    token ∉ other.leaves := by
  intro htoken'
  rcases h with hbefore | hbehind
  · have hle := hbefore token htoken token htoken'
    omega
  · have hle := hbehind token htoken' token htoken
    omega

theorem apart_of_ne {trees : List Tree} (h : Ordered (leavesAll trees)) {tree other : Tree}
    (htree : tree ∈ trees) (hother : other ∈ trees) (hne : tree ≠ other) : tree.Apart other := by
  have hpairs : trees.Pairwise Apart := (siblings_pairwise h).imp .inl
  exact hpairs.forall htree hother hne

theorem eq_of_shared {trees : List Tree} (h : Ordered (leavesAll trees)) {tree other : Tree}
    (htree : tree ∈ trees) (hother : other ∈ trees) {token : Token} (htoken : token ∈ tree.leaves)
    (htoken' : token ∈ other.leaves) : tree = other := by
  have hnonempty := h.nonempty token (mem_leavesAll_of_mem htree htoken)
  by_contra hne
  exact (apart_of_ne h htree hother hne).not_shared hnonempty htoken htoken'

mutual

theorem sizeOf_le_of_mem_preorder {tree part : Tree} (h : part ∈ tree.preorder) :
    sizeOf part ≤ sizeOf tree := by
  match tree with
  | .leaf token =>
      rw [preorder, List.mem_singleton] at h
      exact Nat.le_of_eq (congrArg sizeOf h)
  | .node kind children =>
      rw [preorder] at h
      rcases List.mem_cons.mp h with rfl | hbelow
      · exact Nat.le_refl _
      · have hchildren := sizeOf_lt_of_mem_preorderAll hbelow
        simp only [node.sizeOf_spec]
        omega

theorem sizeOf_lt_of_mem_preorderAll {trees : List Tree} {part : Tree}
    (h : part ∈ preorderAll trees) : sizeOf part < sizeOf trees := by
  match trees with
  | [] => cases h
  | tree :: trees =>
      rw [preorderAll] at h
      simp only [List.cons.sizeOf_spec]
      rcases List.mem_append.mp h with hfirst | hrest
      · have hle := sizeOf_le_of_mem_preorder hfirst
        omega
      · have hlt := sizeOf_lt_of_mem_preorderAll hrest
        omega

end

theorem preorder_antisymm {tree other : Tree} (h : tree ∈ other.preorder)
    (h' : other ∈ tree.preorder) : tree = other := by
  cases other with
  | leaf token => exact List.mem_singleton.mp h
  | node kind children =>
      rw [preorder] at h
      rcases List.mem_cons.mp h with heq | hbelow
      · exact heq
      · have hlt := sizeOf_lt_of_mem_preorderAll hbelow
        have hle := sizeOf_le_of_mem_preorder h'
        simp only [node.sizeOf_spec] at hle
        omega

/-- A part that stands below a parent and shares a token with one of its children is in that
child. -/
theorem mem_preorder_of_shared {trees : List Tree} (h : Ordered (leavesAll trees))
    {child part : Tree} (hchild : child ∈ trees) (hpart : part ∈ preorderAll trees) {token : Token}
    (htoken : token ∈ child.leaves) (htoken' : token ∈ part.leaves) : part ∈ child.preorder := by
  obtain ⟨root, hroot, hin⟩ := mem_preorderAll.mp hpart
  have heq := eq_of_shared h hchild hroot htoken (leaves_of_mem_preorder hin token htoken')
  rwa [heq]

mutual

theorem leaves_sublist {tree part : Tree} (h : part ∈ tree.preorder) :
    part.leaves.Sublist tree.leaves := by
  match tree with
  | .leaf token =>
      rw [preorder, List.mem_singleton] at h
      rw [h]
  | .node kind children =>
      rw [preorder] at h
      rcases List.mem_cons.mp h with rfl | hbelow
      · exact List.Sublist.refl _
      · exact leaves_sublist_leavesAll hbelow

theorem leaves_sublist_leavesAll {trees : List Tree} {part : Tree} (h : part ∈ preorderAll trees) :
    part.leaves.Sublist (leavesAll trees) := by
  match trees with
  | [] => cases h
  | tree :: trees =>
      rw [preorderAll] at h
      rw [leavesAll]
      rcases List.mem_append.mp h with hfirst | hrest
      · exact (leaves_sublist hfirst).trans (List.sublist_append_left _ _)
      · exact (leaves_sublist_leavesAll hrest).trans (List.sublist_append_right _ _)

end

theorem eq_of_inside_parent {kind kind' : NodeKind} {children children' : List Tree}
    (h : Ordered (node kind children).leaves) {child : Tree} (hchild : child ∈ children)
    (hchild' : child ∈ children') {token : Token} (htoken : token ∈ child.leaves)
    (hinside : node kind' children' ∈ (node kind children).preorder) :
    node kind' children' = node kind children := by
  rw [preorder] at hinside
  rcases List.mem_cons.mp hinside with heq | hbelow
  · exact heq
  · -- The other parent would stand in its own child.
    have hin := mem_preorder_of_shared h hchild hbelow htoken (mem_leavesAll_of_mem hchild' htoken)
    have hle := sizeOf_le_of_mem_preorder hin
    have hlt := List.sizeOf_lt_of_mem hchild'
    simp only [node.sizeOf_spec] at hle
    omega

/-- A part with a token has one parent. -/
theorem parent_unique {tree : Tree} (h : Ordered tree.leaves) {kind kind' : NodeKind}
    {children children' : List Tree} (hparent : node kind children ∈ tree.preorder)
    (hparent' : node kind' children' ∈ tree.preorder) {child : Tree} (hchild : child ∈ children)
    (hchild' : child ∈ children') {token : Token} (htoken : token ∈ child.leaves) :
    node kind children = node kind' children' := by
  have hordered := h.sublist (leaves_sublist hparent)
  have hordered' := h.sublist (leaves_sublist hparent')
  have hleaf : token ∈ (node kind children).leaves := mem_leavesAll_of_mem hchild htoken
  have hleaf' : token ∈ (node kind' children').leaves := mem_leavesAll_of_mem hchild' htoken
  have hnonempty := hordered.nonempty token hleaf
  cases nestedOrApart h hparent hparent' with
  | inside hin => exact eq_of_inside_parent hordered' hchild' hchild htoken hin
  | around hin => exact (eq_of_inside_parent hordered hchild hchild' htoken hin).symm
  | apart hapart => exact absurd hleaf' (hapart.not_shared hnonempty hleaf)

end Tree

end Gml
