import Gml.Proofs.Parse.Regular

/-!
# Where nodes begin and end

Blanks and comments stand outside of the nodes that they surround. A node below the root
begins with a token that means something if it has tokens at all. In a text without errors
every node has tokens, since every production asks for some. Then a node also ends with a
token that means something, and its bytes run from its first token to its last.
-/
namespace Gml

theorem Token.Tiles.eq_of_nil {start stop : Nat} (h : Tiles start [] stop) : start = stop := by
  cases h
  rfl

/-! ### Productions that ask for something -/

namespace Shape

open Computability

/-- No choice of a shape is empty. -/
structure Solid (shape : Language Tree) : Prop where
  nonempty : ∀ trees ∈ shape, trees ≠ []

namespace Solid

variable {shape other : Language Tree} {p : NodeKind → Bool}

theorem zero : Solid 0 := ⟨nofun⟩

theorem mul (h : Solid shape) : Solid (shape * other) := by
  refine ⟨fun trees hmem => ?_⟩
  obtain ⟨before, hbefore, after, hafter, rfl⟩ := Language.mem_mul.mp hmem
  exact List.append_ne_nil_of_left_ne_nil (h.nonempty before hbefore) after

theorem add (h : Solid shape) (h' : Solid other) : Solid (shape + other) := by
  refine ⟨fun trees hmem => ?_⟩
  rcases (Language.mem_add shape other trees).mp hmem with hmem | hmem
  · exact h.nonempty trees hmem
  · exact h'.nonempty trees hmem

theorem single (h : ∀ trees ∈ shape, ∃ tree, trees = [tree]) : Solid shape := by
  refine ⟨fun trees hmem => ?_⟩
  obtain ⟨tree, rfl⟩ := h trees hmem
  exact List.cons_ne_nil _ _

theorem token (kind : TokenKind) : Solid (token kind) :=
  single fun _ ⟨_, _, htrees⟩ => ⟨_, htrees⟩

theorem tokenThat (fits : TokenKind → Bool) : Solid (tokenThat fits) :=
  single fun _ ⟨_, _, htrees⟩ => ⟨_, htrees⟩

theorem node (kind : NodeKind) : Solid (node kind) := single fun _ ⟨_, htrees⟩ => ⟨_, htrees⟩

theorem nodeThat : Solid (nodeThat p) := single fun _ ⟨_, _, _, htrees⟩ => ⟨_, htrees⟩

theorem prefixStep : Solid prefixStep := single fun _ ⟨_, _, _, htrees⟩ => ⟨_, htrees⟩

end Solid

end Shape

namespace NodeKind

open Shape in
/-- Only a whole file can be without children. -/
theorem production_solid {kind : NodeKind} (h : kind ≠ .sourceFile) : Solid kind.production := by
  cases kind <;> dsimp only [production]
  case sourceFile => exact absurd rfl h
  all_goals
    apply_rules [Solid.zero, Solid.token, Solid.tokenThat, Solid.node, Solid.nodeThat,
      Solid.prefixStep, Solid.add, Solid.mul]

/-- A whole file stands in no node. -/
theorem ne_sourceFile_of_admits {kind child : NodeKind} (h : kind.admits child = true) :
    child ≠ .sourceFile := by
  rintro rfl
  cases kind <;> cases h

end NodeKind

namespace Tree

/-! ### Trees that follow the productions -/

namespace WellShaped

variable {kind child : NodeKind} {children below : List Tree}

theorem inside (h : (Tree.node kind children).WellShaped) :
    ∀ tree ∈ children, tree.WellShaped := by
  cases h with
  | node _ hchildren => exact hchildren

theorem solid (h : (Tree.node kind children).WellShaped) (hroot : kind ≠ .sourceFile) :
    children ≠ [] := by
  cases h with
  | node hproduction _ => exact (NodeKind.production_solid hroot).nonempty _ hproduction

theorem child_ne_sourceFile (h : (Tree.node kind children).WellShaped)
    (hmem : .node child below ∈ children) : child ≠ .sourceFile := by
  cases h with
  | node hproduction _ =>
      exact NodeKind.ne_sourceFile_of_admits
        (kind.production_within.admitted _ hproduction child below hmem)

end WellShaped

theorem WellShaped.leavesAll_ne_nil {kind : NodeKind} {children : List Tree}
    (h : (Tree.node kind children).WellShaped) (hroot : kind ≠ .sourceFile) :
    leavesAll children ≠ [] := by
  match children with
  | [] => exact absurd rfl (h.solid hroot)
  | .leaf token :: rest => exact List.cons_ne_nil _ _
  | .node child below :: rest =>
      have hbelow := (h.inside _ List.mem_cons_self).leavesAll_ne_nil
        (h.child_ne_sourceFile List.mem_cons_self)
      exact List.append_ne_nil_of_left_ne_nil hbelow _

mutual

theorem WellShaped.of_mem_preorder {tree part : Tree} (h : tree.WellShaped)
    (hpart : part ∈ tree.preorder) : part.WellShaped := by
  match tree with
  | .leaf token =>
      rw [preorder, List.mem_singleton] at hpart
      rwa [hpart]
  | .node kind children =>
      rw [preorder] at hpart
      rcases List.mem_cons.mp hpart with rfl | hbelow
      · exact h
      · exact wellShaped_of_mem_preorderAll h.inside hbelow

theorem wellShaped_of_mem_preorderAll {trees : List Tree} {part : Tree}
    (h : ∀ tree ∈ trees, tree.WellShaped) (hpart : part ∈ preorderAll trees) :
    part.WellShaped := by
  match trees with
  | [] => cases hpart
  | tree :: trees =>
      rw [preorderAll] at hpart
      rcases List.mem_append.mp hpart with hfirst | hrest
      · exact (h tree List.mem_cons_self).of_mem_preorder hfirst
      · exact wellShaped_of_mem_preorderAll (fun other hother =>
          h other (List.mem_cons_of_mem tree hother)) hrest

end

/-- Every node among some trees has tokens. -/
def Filled (trees : List Tree) : Prop :=
  ∀ kind children, .node kind children ∈ preorderAll trees → leavesAll children ≠ []

/-- What stands below a node that follows the productions has tokens. -/
theorem WellShaped.filled {kind : NodeKind} {children : List Tree}
    (h : (Tree.node kind children).WellShaped) : Filled children := by
  intro child below hmem
  refine (wellShaped_of_mem_preorderAll h.inside hmem).leavesAll_ne_nil ?_
  rcases parent_of_mem_preorderAll hmem with hchild | ⟨parent, siblings, hparent, hchild⟩
  · exact h.child_ne_sourceFile hchild
  · exact (wellShaped_of_mem_preorderAll h.inside hparent).child_ne_sourceFile hchild

namespace Filled

variable {kind : NodeKind} {tree : Tree} {trees children : List Tree}

theorem tail (h : Filled (tree :: trees)) : Filled trees := by
  intro kind children hmem
  refine h kind children ?_
  rw [preorderAll]
  exact List.mem_append_right _ hmem

theorem below (h : Filled trees) (hmem : .node kind children ∈ preorderAll trees) :
    Filled children := by
  refine fun child inside hchild => h child inside (preorderAll_trans hmem ?_)
  rw [preorder]
  exact List.mem_cons_of_mem _ hchild

end Filled

/-! ### The edges of what is woven -/

/-- The first token in a node means something, whatever trees stand in front of it. -/
theorem head?_leavesAll_weaveAll {trees : List Tree} {tokens more : List Token}
    (h : meaningful tokens = leavesAll trees ++ more) :
    ∀ token ∈ (leavesAll (weaveAll trees (afterTrivia tokens)).1).head?,
      token.kind.isTrivia = false := by
  rw [← meaningful_afterTrivia] at h
  have hleaves := (leavesAll_weaveAll trees (afterTrivia tokens) more h).1
  intro token htoken
  have hfirst : (afterTrivia tokens).head? = some token := by
    rw [← hleaves, List.head?_append, htoken]
    rfl
  have hdrop := List.head?_dropWhile_not (fun token : Token => token.kind.isTrivia) tokens
  rw [afterTrivia] at hfirst
  rw [hfirst] at hdrop
  exact hdrop

/-- Weaving adds no token behind the last one if every tree has tokens. -/
theorem getLast?_leavesAll_weaveAll {trees : List Tree} {tokens more : List Token}
    (hfilled : Filled trees) (h : meaningful tokens = leavesAll trees ++ more) :
    (leavesAll (weaveAll trees tokens).1).getLast? = (leavesAll trees).getLast? := by
  match trees with
  | [] => rfl
  | .leaf token :: trees =>
      obtain ⟨rest, hafter, hrest⟩ := afterTrivia_eq_cons h
      have ih := getLast?_leavesAll_weaveAll hfilled.tail hrest
      simp only [weaveAll, weave, hafter, List.take_succ_cons, List.take_zero, List.map_cons,
        List.map_nil, List.drop_succ_cons, List.drop_zero, leavesAll_append, leavesAll, leaves,
        List.append_nil, List.getLast?_append, List.getLast?_singleton, Option.some_or, ih]
  | .node kind children :: trees =>
      have hnode : node kind children ∈ preorderAll (node kind children :: trees) :=
        mem_preorderAll.mpr ⟨_, List.mem_cons_self, mem_preorder_self _⟩
      rw [← meaningful_afterTrivia, leavesAll, leaves, List.append_assoc] at h
      have hinside := getLast?_leavesAll_weaveAll (hfilled.below hnode) h
      have ih := getLast?_leavesAll_weaveAll hfilled.tail
        (leavesAll_weaveAll children (afterTrivia tokens) _ h).2
      have hlast := List.getLast?_eq_some_getLast (hfilled kind children hnode)
      simp only [weaveAll, weave, leavesAll_append, leavesAll, leaves, List.append_nil,
        List.getLast?_append, hinside, ih, hlast, Option.some_or]

/-! ### The bytes of an element -/

def elementKind : Tree → ElementKind
  | .leaf token => .token token.kind
  | .node kind _ => .node kind

/-- The line of an element in a listing has its kind, and its bytes run from its first token to
its last. -/
structure Shows (tree : Tree) (entry : Entry) : Prop where
  kind : entry.kind = tree.elementKind
  span : ∀ first ∈ tree.leaves.head?, ∀ last ∈ tree.leaves.getLast?,
    entry.span = ⟨first.start, last.stop⟩

/-- What tiles some bytes runs from its first token to its last. -/
theorem span_of_tiles {tokens : List Token} {start stop : Nat} (h : Token.Tiles start tokens stop) :
    ∀ first ∈ tokens.head?, ∀ last ∈ tokens.getLast?,
      (⟨start, stop⟩ : Span) = ⟨first.start, last.stop⟩ := by
  induction h with
  | nil offset => nofun
  | @cons token rest stop htiles ih =>
      intro first hfirst last hlast
      cases hfirst
      cases rest with
      | nil =>
          cases hlast
          rw [← htiles.eq_of_nil]
          rfl
      | cons next rest =>
          have hstop := ih next rfl last (by rwa [List.getLast?_cons_cons] at hlast)
          rw [Span.mk.injEq] at hstop ⊢
          exact ⟨rfl, hstop.2⟩

theorem shows_node {kind : NodeKind} {children : List Tree} {start stop depth : Nat}
    (h : Token.Tiles start (leavesAll children) stop) :
    (node kind children).Shows ⟨depth, .node kind, ⟨start, stop⟩, none⟩ :=
  ⟨rfl, span_of_tiles h⟩

/-- A listing shows the elements of a tree in preorder. -/
theorem shows_entriesFromAll (trees : List Tree) (depth : Nat) {start stop : Nat}
    (h : Token.Tiles start (leavesAll trees) stop) :
    List.Forall₂ Shows (preorderAll trees) (entriesFromAll depth start trees).1 := by
  match trees with
  | [] => exact .nil
  | .leaf token :: trees =>
      cases h with
      | cons h =>
          refine .cons ⟨rfl, ?_⟩ (shows_entriesFromAll trees depth h)
          rintro first hfirst last hlast
          cases hfirst
          cases hlast
          rfl
  | .node kind children :: trees =>
      obtain ⟨middle, hchildren, htrees⟩ := h.split
      have hmiddle := (entriesFromAll_of_tiles children (depth + 1) hchildren).1
      rw [preorderAll, preorder]
      simp only [entriesFromAll, entriesFrom, hmiddle]
      have hbelow := shows_entriesFromAll children (depth + 1) hchildren
      exact List.rel_append (.cons (shows_node hchildren) hbelow)
        (shows_entriesFromAll trees depth htrees)

theorem shows_listing {kind : NodeKind} {children : List Tree} {stop : Nat}
    (h : Token.Tiles 0 (leavesAll children) stop) :
    List.Forall₂ Shows (node kind children).preorder (node kind children).listing := by
  have hstop := (entriesFromAll_of_tiles children 1 h).1
  rw [listing, entriesFrom, preorder]
  simp only [Nat.zero_add, hstop]
  exact .cons (shows_node h) (shows_entriesFromAll children 1 h)

end Tree

/-- In a text without errors every node below the root has tokens, and the last one means
something. -/
theorem last_of_ok {text : String} (h : (parse text).ok = true) {kind : NodeKind}
    {inside : List Tree} (hmem : .node kind inside ∈ Tree.preorderAll (parse text).tree.children) :
    Tree.leavesAll inside ≠ [] ∧
      ∀ token ∈ (Tree.leavesAll inside).getLast?, token.kind.isTrivia = false := by
  obtain ⟨trees, hproduction, hshaped, hleaves, htree⟩ := exists_weaveRoot_of_ok h
  have hroot : (Tree.node .sourceFile trees).WellShaped := .node hproduction hshaped
  rw [htree] at hmem
  obtain ⟨below, others, rest, hbelow, hothers, rfl⟩ :=
    Tree.exists_of_mem_weaveRoot .sourceFile hleaves.symm hmem
  have hsolid := hroot.filled _ _ hbelow
  have hinside : Tree.meaningful (Tree.afterTrivia others) = Tree.leavesAll below ++ rest := by
    rw [Tree.meaningful_afterTrivia, hothers]
  have hlast := Tree.getLast?_leavesAll_weaveAll (hroot.filled.below hbelow) hinside
  refine ⟨fun hempty => ?_, fun token htoken => ?_⟩
  · rw [hempty, List.getLast?_nil, eq_comm, List.getLast?_eq_none_iff] at hlast
    exact hsolid hlast
  · rw [hlast] at htoken
    have hmeans : token ∈ Tree.meaningful others := by
      rw [hothers]
      exact List.mem_append_left _ (List.mem_of_getLast? htoken)
    simpa using (List.mem_filter.mp hmeans).2

/-- Blanks and comments stand outside of nodes. Every element is listed with the bytes from its
first token to its last. For a node below the root the first token means something. In a text
without errors such a node has tokens, and the last one means something too. -/
theorem nodes_exclude_trivia (text : String) :
    List.Forall₂ Tree.Shows (parse text).tree.preorder (parse text).tree.listing ∧
    ∃ children, (parse text).tree = .node .sourceFile children ∧
      (∀ kind inside, .node kind inside ∈ Tree.preorderAll children →
        ∀ token ∈ (Tree.leavesAll inside).head?, token.kind.isTrivia = false) ∧
      ((parse text).ok = true → ∀ kind inside, .node kind inside ∈ Tree.preorderAll children →
        Tree.leavesAll inside ≠ [] ∧
          ∀ token ∈ (Tree.leavesAll inside).getLast?, token.kind.isTrivia = false) := by
  obtain ⟨trees, htree, hmeaningful⟩ := parse_tree_eq_weaveRoot text
  obtain ⟨children, hroot⟩ : ∃ children, (parse text).tree = .node .sourceFile children :=
    ⟨_, htree⟩
  have hchildren : (parse text).tree.children = children := by
    rw [hroot]
    rfl
  refine ⟨?_, children, hroot, fun kind inside hmem => ?_, fun hok kind inside hmem => ?_⟩
  · have htiles := lex_tiles text
    rw [← leaves_parse, hroot] at htiles
    rw [hroot]
    exact Tree.shows_listing htiles
  · rw [← hchildren, htree] at hmem
    obtain ⟨below, others, rest, -, hothers, rfl⟩ :=
      Tree.exists_of_mem_weaveRoot .sourceFile hmeaningful.symm hmem
    exact Tree.head?_leavesAll_weaveAll hothers
  · rw [← hchildren] at hmem
    exact last_of_ok hok hmem

def commented : String := "// points\nscore = max(1, /* none */ bonus) // sum\n"

theorem commented_excludes_trivia : (parse commented).ok = true ∧
    ∃ children, (parse commented).tree = .node .sourceFile children ∧
      ∀ kind inside, .node kind inside ∈ Tree.preorderAll children →
        ∃ first ∈ (Tree.leavesAll inside).head?, ∃ last ∈ (Tree.leavesAll inside).getLast?,
          first.kind.isTrivia = false ∧ last.kind.isTrivia = false := by
  have hok : (parse commented).ok = true := by decide +kernel
  obtain ⟨-, children, hroot, hfirst, hlast⟩ := nodes_exclude_trivia commented
  refine ⟨hok, children, hroot, fun kind inside hmem => ?_⟩
  obtain ⟨hsolid, hlast⟩ := hlast hok kind inside hmem
  have hhead := List.head?_eq_some_head hsolid
  have htail := List.getLast?_eq_some_getLast hsolid
  exact ⟨_, hhead, _, htail, hfirst kind inside hmem _ hhead, hlast _ htail⟩

end Gml
