import Gml.Tree.Basic
import Mathlib.Data.List.Basic

/-!
# Trees in preorder

What is below a node is below the whole tree, and all but the root stands directly below
some node. The leaves of a part are among the leaves of the whole.
-/
namespace Gml

namespace Tree

theorem mem_preorder_self (tree : Tree) : tree ∈ tree.preorder := by
  cases tree with
  | leaf token => exact List.mem_singleton.mpr rfl
  | node kind children => exact List.mem_cons_self

theorem mem_preorderAll {tree : Tree} {trees : List Tree} :
    tree ∈ preorderAll trees ↔ ∃ root ∈ trees, tree ∈ root.preorder := by
  induction trees with
  | nil => simp [preorderAll]
  | cons root trees ih => simp [preorderAll, ih]

theorem preorderAll_append (trees others : List Tree) :
    preorderAll (trees ++ others) = preorderAll trees ++ preorderAll others := by
  induction trees with
  | nil => rfl
  | cons tree trees ih => rw [List.cons_append, preorderAll, preorderAll, ih, List.append_assoc]

mutual

theorem preorder_trans {tree node other : Tree} (h : node ∈ tree.preorder)
    (hbelow : other ∈ node.preorder) : other ∈ tree.preorder := by
  match tree with
  | .leaf token =>
      rw [preorder, List.mem_singleton] at h
      rwa [← h]
  | .node kind children =>
      rw [preorder] at h
      rcases List.mem_cons.mp h with heq | hin
      · rwa [← heq]
      · rw [preorder]
        exact List.mem_cons_of_mem _ (preorderAll_trans hin hbelow)

theorem preorderAll_trans {trees : List Tree} {node other : Tree} (h : node ∈ preorderAll trees)
    (hbelow : other ∈ node.preorder) : other ∈ preorderAll trees := by
  match trees with
  | [] => cases h
  | tree :: trees =>
      rw [preorderAll] at h ⊢
      rcases List.mem_append.mp h with hfirst | hrest
      · exact List.mem_append_left _ (preorder_trans hfirst hbelow)
      · exact List.mem_append_right _ (preorderAll_trans hrest hbelow)

end

theorem mem_preorder_of_mem {tree : Tree} {kind : NodeKind} {children : List Tree}
    (h : tree ∈ children) : tree ∈ (node kind children).preorder := by
  rw [preorder]
  exact List.mem_cons_of_mem _ (mem_preorderAll.mpr ⟨tree, h, mem_preorder_self tree⟩)

mutual

/-- What is below a tree is the tree itself or stands directly below one of its nodes. -/
theorem parent_of_mem_preorder {tree other : Tree} (h : other ∈ tree.preorder) :
    other = tree ∨ ∃ kind children, .node kind children ∈ tree.preorder ∧ other ∈ children := by
  match tree with
  | .leaf token => exact .inl (List.mem_singleton.mp h)
  | .node kind children =>
      rw [preorder] at h ⊢
      rcases List.mem_cons.mp h with heq | hbelow
      · exact .inl heq
      · rcases parent_of_mem_preorderAll hbelow with hchild | ⟨parent, siblings, hparent, hmem⟩
        · exact .inr ⟨kind, children, List.mem_cons_self, hchild⟩
        · exact .inr ⟨parent, siblings, List.mem_cons_of_mem _ hparent, hmem⟩

theorem parent_of_mem_preorderAll {trees : List Tree} {other : Tree} (h : other ∈ preorderAll trees) :
    other ∈ trees ∨ ∃ kind children, .node kind children ∈ preorderAll trees ∧ other ∈ children := by
  match trees with
  | [] => cases h
  | tree :: trees =>
      rw [preorderAll] at h ⊢
      rcases List.mem_append.mp h with hfirst | hrest
      · rcases parent_of_mem_preorder hfirst with rfl | ⟨kind, children, hnode, hmem⟩
        · exact .inl List.mem_cons_self
        · exact .inr ⟨kind, children, List.mem_append_left _ hnode, hmem⟩
      · rcases parent_of_mem_preorderAll hrest with hmem | ⟨kind, children, hnode, hmem⟩
        · exact .inl (List.mem_cons_of_mem _ hmem)
        · exact .inr ⟨kind, children, List.mem_append_right _ hnode, hmem⟩

end

/-! ### Leaves -/

theorem leavesAll_eq_flatMap (trees : List Tree) : leavesAll trees = trees.flatMap leaves := by
  induction trees with
  | nil => rfl
  | cons tree rest ih => rw [leavesAll, ih, List.flatMap_cons]

mutual

theorem leaves_of_mem_preorder {node tree : Tree} (h : node ∈ tree.preorder) :
    ∀ token ∈ node.leaves, token ∈ tree.leaves := by
  intro token htoken
  match tree with
  | .leaf _ =>
      rw [preorder, List.mem_singleton] at h
      rwa [← h]
  | .node _ children =>
      rw [preorder] at h
      rcases List.mem_cons.mp h with heq | hbelow
      · rwa [← heq]
      · exact leavesAll_of_mem_preorderAll hbelow token htoken

theorem leavesAll_of_mem_preorderAll {node : Tree} {trees : List Tree}
    (h : node ∈ preorderAll trees) : ∀ token ∈ node.leaves, token ∈ leavesAll trees := by
  intro token htoken
  match trees with
  | [] => cases h
  | tree :: trees =>
      rw [preorderAll] at h
      rw [leavesAll]
      rcases List.mem_append.mp h with hfirst | hrest
      · exact List.mem_append_left _ (leaves_of_mem_preorder hfirst token htoken)
      · exact List.mem_append_right _ (leavesAll_of_mem_preorderAll hrest token htoken)

end

theorem mem_leavesAll_of_mem {tree : Tree} {trees : List Tree} (htree : tree ∈ trees)
    {token : Token} (htoken : token ∈ tree.leaves) : token ∈ leavesAll trees := by
  rw [leavesAll_eq_flatMap]
  exact List.mem_flatMap.mpr ⟨tree, htree, htoken⟩

/-- The leaf that is found is one of the siblings and has the kind looked for. -/
theorem of_findLeaf? {kind : TokenKind} {trees : List Tree} {token : Token}
    (h : findLeaf? kind trees = some token) : .leaf token ∈ trees ∧ token.kind = kind := by
  induction trees with
  | nil => cases h
  | cons tree rest ih =>
      cases tree with
      | node other children =>
          obtain ⟨hmem, hkind⟩ := ih h
          exact ⟨List.mem_cons_of_mem _ hmem, hkind⟩
      | leaf found =>
          rw [findLeaf?] at h
          split at h
          next hkind =>
              cases h
              exact ⟨List.mem_cons_self, hkind⟩
          · obtain ⟨hmem, hkind⟩ := ih h
            exact ⟨List.mem_cons_of_mem _ hmem, hkind⟩

theorem mem_leaves_of_findLeaf? {kind : TokenKind} {trees : List Tree} {token : Token}
    (h : findLeaf? kind trees = some token) : token ∈ leavesAll trees :=
  mem_leavesAll_of_mem (of_findLeaf? h).1 (List.mem_singleton_self _)

theorem mem_leaves_of_childToken? {kind : TokenKind} {tree : Tree} {token : Token}
    (h : tree.childToken? kind = some token) : token ∈ tree.leaves := by
  cases tree with
  | leaf found => cases h
  | node other children => exact mem_leaves_of_findLeaf? h

end Tree

end Gml
