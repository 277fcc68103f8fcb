import Gml.Proofs.Parse.Shape
import Gml.Proofs.Tree.Parts

/-!
# Reading the tree of a text without errors

Whoever reads a tree skips the blanks and comments among the children of a node. So what
holds of the children without them can be used for the children as they are: which nodes
there are, which token is the first of a kind, and with what a node starts.
-/
namespace Gml

namespace Tree

/-! ### Siblings without blanks and comments -/

theorem mem_bareAll {tree : Tree} {trees : List Tree} (hmem : tree ∈ trees)
    (htrivia : tree.isTrivia = false) : tree.bare ∈ bareAll trees := by
  induction trees with
  | nil => cases hmem
  | cons first rest ih =>
      rw [bareAll]
      rcases List.mem_cons.mp hmem with rfl | hrest
      · rw [htrivia]
        exact List.mem_cons_self
      · split
        · exact ih hrest
        · exact List.mem_cons_of_mem _ (ih hrest)

theorem hasKind_bare (kind : NodeKind) (tree : Tree) : tree.bare.hasKind kind = tree.hasKind kind := by
  cases tree <;> rfl

theorem isNode_bare (tree : Tree) : tree.bare.isNode = tree.isNode := by
  cases tree <;> rfl

/-- The nodes that are looked for stay what they are. -/
theorem filter_bareAll {p : Tree → Bool} (hbare : ∀ tree, p tree.bare = p tree)
    (hleaf : ∀ token, p (.leaf token) = false) (trees : List Tree) :
    (bareAll trees).filter p = (trees.filter p).map bare := by
  induction trees with
  | nil => rfl
  | cons tree rest ih =>
      rw [bareAll]
      split
      next htrivia =>
          cases tree with
          | leaf token => rw [ih, List.filter_cons_of_neg (by simp [hleaf])]
          | node kind children => cases htrivia
      · rw [List.filter_cons, List.filter_cons, hbare, ih]
        split <;> rfl

theorem findLeaf?_bareAll {kind : TokenKind} (h : kind.isTrivia = false) (trees : List Tree) :
    findLeaf? kind (bareAll trees) = findLeaf? kind trees := by
  induction trees with
  | nil => rfl
  | cons tree rest ih =>
      rw [bareAll]
      cases tree with
      | leaf token =>
          split
          next htrivia =>
              have hkind : token.kind ≠ kind := by
                rintro rfl
                rw [isTrivia, h] at htrivia
                cases htrivia
              rw [findLeaf?, if_neg hkind, ih]
          · rw [bare, findLeaf?, findLeaf?, ih]
      | node other children =>
          rw [isTrivia, if_neg Bool.false_ne_true, bare, findLeaf?, findLeaf?, ih]

/-- The leaves that are left are the tokens that mean something. -/
theorem leavesAll_bareAll (trees : List Tree) :
    leavesAll (bareAll trees) = meaningful (leavesAll trees) := by
  match trees with
  | [] => rfl
  | .leaf token :: trees =>
      have ih := leavesAll_bareAll trees
      rw [bareAll, isTrivia, leavesAll, leaves, meaningful, List.singleton_append, List.filter_cons]
      cases htrivia : token.kind.isTrivia with
      | true => exact ih
      | false => exact congrArg (token :: ·) ih
  | .node kind children :: trees =>
      rw [bareAll, isTrivia, if_neg Bool.false_ne_true, bare, leavesAll, leaves, leavesAll_bareAll children,
        leavesAll_bareAll trees, leavesAll, leaves, meaningful, meaningful, meaningful,
        List.filter_append]

end Tree

/-! ### Regular trees -/

/-- The children of a node follow its production, and only a whole file starts with blanks
or comments. -/
structure NodeKind.Holds (kind : NodeKind) (children : List Tree) : Prop where
  production : Tree.bareAll children ∈ kind.production
  starts : kind ≠ .sourceFile → ∀ tree ∈ children.head?, tree.isTrivia = false

namespace NodeKind.Holds

open Gml.Tree (bareAll)

variable {kind : NodeKind} {children : List Tree}

theorem admits (h : kind.Holds children) {child : NodeKind} {below : List Tree}
    (hmem : .node child below ∈ children) : kind.admits child = true :=
  kind.production_within.admitted _ h.production child _ (Tree.mem_bareAll hmem rfl)

/-- A node around one token starts with it. -/
theorem head?_of_single (h : kind.Holds children) (hroot : kind ≠ .sourceFile) {token : Token}
    (hbare : bareAll children = [.leaf token]) : children.head? = some (.leaf token) := by
  cases children with
  | nil => cases hbare
  | cons first rest =>
      have hstart := h.starts hroot first rfl
      rw [bareAll, hstart, if_neg Bool.false_ne_true] at hbare
      cases first with
      | leaf found => exact congrArg some (List.cons.inj hbare).1
      | node other below => cases (List.cons.inj hbare).1

theorem name (h : Holds .name children) :
    ∃ token, bareAll children = [.leaf token] ∧ token.kind = .ident := by
  obtain ⟨token, hkind, hbare⟩ := h.production
  exact ⟨token, hbare, hkind⟩

/-- A declarator has one name, in front. -/
theorem varDeclarator (h : Holds .varDeclarator children) :
    ∃ name, children.filter (Tree.hasKind .name) = [name] := by
  obtain ⟨front, ⟨below, rfl⟩, rest, hrest, hbare⟩ := Language.mem_mul.mp h.production
  have hnameless : rest.filter (Tree.hasKind .name) = [] := by
    rcases (Language.mem_add _ _ _).mp hrest with hempty | hvalue
    · rw [(Language.mem_one rest).mp hempty]
      rfl
    · obtain ⟨_, ⟨sign, -, rfl⟩, _, ⟨kind, inside, hkind, rfl⟩, rfl⟩ := Language.mem_mul.mp hvalue
      have hother : (kind == NodeKind.name) = false := by
        rw [beq_eq_false_iff_ne]
        rintro rfl
        exact Bool.false_ne_true hkind
      simp only [List.cons_append, List.nil_append, List.filter_cons, Tree.hasKind, hother,
        Bool.false_eq_true, if_false, List.filter_nil]
  have hnames : (bareAll children).filter (Tree.hasKind .name) = [.node .name below] := by
    rw [← hbare, List.filter_append, hnameless]
    rfl
  rw [Tree.filter_bareAll (Tree.hasKind_bare .name) fun _ => rfl] at hnames
  obtain ⟨name, hfilter, -⟩ := List.map_eq_singleton_iff.mp hnames
  exact ⟨name, hfilter⟩

/-- A field access is an expression, a dot and a name. -/
theorem fieldExpr (h : Holds .fieldExpr children) : ∃ base inside dot below,
    base.isExpression = true ∧
      bareAll children = [.node base inside, .leaf dot, .node .name below] := by
  obtain ⟨_, ⟨base, inside, hbase, rfl⟩, _, hrest, hbare⟩ := Language.mem_mul.mp h.production
  obtain ⟨_, ⟨dot, -, rfl⟩, _, ⟨below, rfl⟩, rfl⟩ := Language.mem_mul.mp hrest
  exact ⟨base, inside, dot, below, hbase, hbare.symm⟩

end NodeKind.Holds

namespace Tree

def Regular (tree : Tree) : Prop :=
  ∀ kind children, .node kind children ∈ tree.preorder → kind.Holds children

namespace Regular

variable {kind : NodeKind} {children : List Tree}

theorem below {tree other : Tree} (h : tree.Regular) (hbelow : ∀ node ∈ other.preorder, node ∈ tree.preorder) :
    other.Regular := fun kind children hmem => h kind children (hbelow _ hmem)

theorem holds (h : (node kind children).Regular) : kind.Holds children :=
  h kind children (mem_preorder_self _)

theorem child (h : (node kind children).Regular) : ∀ tree ∈ children, tree.Regular := by
  refine fun tree htree => h.below fun node hnode => ?_
  rw [preorder]
  exact List.mem_cons_of_mem _ (mem_preorderAll.mpr ⟨tree, htree, hnode⟩)

end Regular

/-- What is woven starts with no blank or comment if the tokens do not. -/
theorem head?_weaveAll {trees : List Tree} {tokens more : List Token}
    (h : meaningful tokens = leavesAll trees ++ more) :
    ∀ tree ∈ (weaveAll trees (afterTrivia tokens)).1.head?, tree.isTrivia = false := by
  rw [← meaningful_afterTrivia] at h
  intro tree htree
  cases trees with
  | nil => cases htree
  | cons first trees =>
      cases first with
      | leaf token =>
          obtain ⟨rest, hafter, -⟩ := afterTrivia_eq_cons h
          have hmem : token ∈ meaningful (afterTrivia tokens) := by
            rw [h]
            exact List.mem_cons_self
          rw [weaveAll, weave, leadingTrivia_afterTrivia, afterTrivia_afterTrivia] at htree
          rw [afterTrivia_afterTrivia] at hafter
          rw [hafter] at htree
          cases htree
          rw [isTrivia]
          simpa using (List.mem_filter.mp hmem).2
      | node kind children =>
          rw [weaveAll, weave, leadingTrivia_afterTrivia] at htree
          cases htree
          rfl

theorem node_notMem_leadingTrivia {tokens : List Token} {kind : NodeKind} {children : List Tree} :
    .node kind children ∉ preorderAll (leadingTrivia tokens) := by
  intro hmem
  obtain ⟨root, hroot, hin⟩ := mem_preorderAll.mp hmem
  obtain ⟨token, -, rfl⟩ := List.mem_map.mp hroot
  cases List.mem_singleton.mp hin

/-- A node that is woven comes from a node of the same kind, with the tokens from the first one
on that means something. -/
theorem exists_of_mem_weaveAll {trees : List Tree} {tokens more : List Token}
    (h : meaningful tokens = leavesAll trees ++ more) {kind : NodeKind} {inside : List Tree}
    (hmem : .node kind inside ∈ preorderAll (weaveAll trees tokens).1) :
    ∃ children others rest, .node kind children ∈ preorderAll trees ∧
      meaningful others = leavesAll children ++ rest ∧
      inside = (weaveAll children (afterTrivia others)).1 := by
  have hleading : ∀ others, .node kind inside ∈ preorderAll (leadingTrivia tokens ++ others) →
      .node kind inside ∈ preorderAll others := by
    intro others hothers
    rw [preorderAll_append] at hothers
    exact (List.mem_append.mp hothers).resolve_left node_notMem_leadingTrivia
  match trees with
  | [] => cases hmem
  | .leaf token :: trees =>
      obtain ⟨rest, hafter, hrest⟩ := afterTrivia_eq_cons h
      simp only [weaveAll, weave, hafter, List.append_assoc] at hmem
      rcases List.mem_cons.mp (hleading _ hmem) with hleaf | hothers
      · cases hleaf
      · obtain ⟨children, others, more, hchildren, hothers, hinside⟩ :=
          exists_of_mem_weaveAll hrest hothers
        refine ⟨children, others, more, ?_, hothers, hinside⟩
        exact List.mem_cons_of_mem _ hchildren
  | .node outer below :: trees =>
      have hbelow := h
      rw [leavesAll, leaves, List.append_assoc, ← meaningful_afterTrivia] at hbelow
      have hrest := (leavesAll_weaveAll below (afterTrivia tokens) _ hbelow).2
      rw [preorderAll, preorder]
      simp only [weaveAll, weave, List.append_assoc] at hmem
      rcases List.mem_cons.mp (hleading _ hmem) with hnode | hothers
      · cases hnode
        rw [meaningful_afterTrivia] at hbelow
        exact ⟨below, tokens, _, List.mem_cons_self, hbelow, rfl⟩
      · rcases List.mem_append.mp hothers with hin | hothers
        · obtain ⟨children, others, more, hchildren, hothers, hinside⟩ :=
            exists_of_mem_weaveAll hbelow hin
          refine ⟨children, others, more, ?_, hothers, hinside⟩
          exact List.mem_append_left _ (List.mem_cons_of_mem _ hchildren)
        · obtain ⟨children, others, more, hchildren, hothers, hinside⟩ :=
            exists_of_mem_weaveAll hrest hothers
          exact ⟨children, others, more, List.mem_append_right _ hchildren, hothers, hinside⟩

/-- A node below the root comes from a node that was read. -/
theorem exists_of_mem_weaveRoot (root : NodeKind) {trees : List Tree} {tokens : List Token}
    (h : meaningful tokens = leavesAll trees) {kind : NodeKind} {inside : List Tree}
    (hmem : .node kind inside ∈ preorderAll (weaveRoot root trees tokens).children) :
    ∃ below others rest, .node kind below ∈ preorderAll trees ∧
      meaningful others = leavesAll below ++ rest ∧
      inside = (weaveAll below (afterTrivia others)).1 := by
  rw [weaveRoot, children, preorderAll_append] at hmem
  have hwoven := (List.mem_append.mp hmem).resolve_right node_notMem_leadingTrivia
  rw [← List.append_nil (leavesAll trees)] at h
  exact exists_of_mem_weaveAll h hwoven

end Tree

theorem leaves_parse (text : String) : (parse text).tree.leaves = lex text := by
  obtain ⟨trees, htree, hmeaningful⟩ := parse_tree_eq_weaveRoot text
  rw [htree]
  exact Tree.leaves_weaveRoot _ _ _ hmeaningful.symm

theorem parse_hasKind (text : String) (kind : NodeKind) (h : NodeKind.sourceFile ≠ kind) :
    (parse text).tree.hasKind kind = false := by
  obtain ⟨trees, htree, -⟩ := parse_tree_eq_weaveRoot text
  rw [htree]
  exact beq_eq_false_iff_ne.mpr h

/-- A text without errors is woven from trees that follow the productions. -/
theorem exists_weaveRoot_of_ok {text : String} (h : (parse text).ok = true) :
    ∃ trees, trees ∈ NodeKind.sourceFile.production ∧ (∀ tree ∈ trees, tree.WellShaped) ∧
      Tree.leavesAll trees = Tree.meaningful (lex text) ∧
      (parse text).tree = Tree.weaveRoot .sourceFile trees (lex text) := by
  let p := Parser.opened (lex text) text.utf8ByteSize
  have hclean : p.read.errors.size = p.errors.size := by
    rw [Parse.ok, parse_errors_eq, List.isEmpty_iff] at h
    rw [← Array.length_toList, h]
    rfl
  obtain ⟨trees, hmem, hreads, hshaped⟩ := (Grammar.read_yields p).reads hclean
  refine ⟨trees, hmem, hshaped, hreads.leavesAll_eq (Parser.rest_read _ _ (lex_ne_eof text)), ?_⟩
  rw [parse_tree_eq]
  exact hreads.build_eq_weaveRoot

theorem parse_regular {text : String} (h : (parse text).ok = true) : (parse text).tree.Regular := by
  obtain ⟨trees, hproduction, hshaped, hleaves, htree⟩ := exists_weaveRoot_of_ok h
  have hbare : (parse text).tree.bare.WellShaped := by
    rw [htree, Tree.bare_weaveRoot _ _ _ hleaves.symm]
    exact .node hproduction hshaped
  refine fun kind children hmem => ⟨Tree.production_of_mem_preorder hbare hmem, fun hroot => ?_⟩
  rw [htree] at hmem
  rcases List.mem_cons.mp hmem with hnode | hbelow
  · cases hnode
    exact absurd rfl hroot
  · obtain ⟨below, others, rest, -, hothers, rfl⟩ :=
      Tree.exists_of_mem_weaveRoot .sourceFile hleaves.symm hbelow
    exact Tree.head?_weaveAll hothers

end Gml
