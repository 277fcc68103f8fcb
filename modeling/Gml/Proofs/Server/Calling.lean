import Gml.Proofs.Tree.Nesting
import Gml.Server.Feature

/-!
# The call that is being written

In a text without errors every list of arguments has its two parentheses and belongs to one
call. The lists around an offset are nested, so the one that starts last is the innermost.
The argument that is being written is counted by the commas of that list alone.
-/
namespace Gml

namespace Tree

open Computability
open Token (Ordered)

/-! ### Children without blanks and comments -/

/-- The siblings that are no blanks or comments. -/
def significant (trees : List Tree) : List Tree := trees.filter (!·.isTrivia)

theorem bareAll_eq_map (trees : List Tree) : bareAll trees = (significant trees).map bare := by
  induction trees with
  | nil => rfl
  | cons tree rest ih =>
      rw [bareAll, ih, significant, significant, List.filter_cons]
      cases tree.isTrivia <;> simp

theorem significant_subset {tree : Tree} {trees : List Tree} (h : tree ∈ significant trees) :
    tree ∈ trees :=
  List.mem_of_mem_filter h

theorem nodes_eq (tree : Tree) : tree.nodes = (significant tree.children).filter isNode := by
  rw [nodes, significant, List.filter_filter]
  refine List.filter_congr fun child _ => ?_
  cases child <;> simp [isNode, isTrivia]

theorem mem_leaves_of_significant {tree : Tree} {token : Token}
    (h : .leaf token ∈ significant tree.children) : token ∈ tree.leaves := by
  cases tree with
  | leaf found => cases h
  | node kind children =>
      exact mem_leavesAll_of_mem (significant_subset h) List.mem_cons_self

theorem mem_significant {kind : NodeKind} {children trees : List Tree}
    (h : .node kind children ∈ trees) : .node kind children ∈ significant trees :=
  List.mem_filter.mpr ⟨h, rfl⟩

theorem eq_leaf_of_bare {tree : Tree} {token : Token} (h : tree.bare = .leaf token) :
    tree = .leaf token := by
  cases tree with
  | leaf found => exact h
  | node kind children => cases h

theorem eq_node_of_bare {tree : Tree} {kind : NodeKind} {below : List Tree}
    (h : tree.bare = .node kind below) : ∃ children, tree = .node kind children := by
  cases tree with
  | leaf found => cases h
  | node other children =>
      cases h
      exact ⟨children, rfl⟩

/-- Tokens that are neither blanks nor comments are found among the significant children. -/
theorem filter_childTokens {p : Token → Bool}
    (hp : ∀ token, p token = true → token.kind.isTrivia = false) (kind : NodeKind) (children : List Tree) :
    (node kind children).childTokens.filter p =
      (node kind (significant children)).childTokens.filter p := by
  unfold childTokens
  rw [Tree.children, Tree.children]
  induction children with
  | nil => rfl
  | cons tree rest ih =>
      unfold significant at ih ⊢
      cases tree with
      | leaf token =>
          cases htrivia : token.kind.isTrivia with
          | true =>
              have hnot : p token = false := by
                by_contra hkept
                simp [hp token (by simpa using hkept)] at htrivia
              simp [isTrivia, htrivia, hnot, ih]
          | false => simp [isTrivia, htrivia, List.filter_cons, ih]
      | node other below => simp [isTrivia, ih]

/-! ### Lists of arguments -/

/-- Expressions with commas between them and perhaps one at the end, and these commas. -/
inductive Separated : List Tree → List Token → Prop
  | nil : Separated [] []
  | single {kind : NodeKind} {children : List Tree} :
      kind.isExpression = true → Separated [.node kind children] []
  | cons {kind : NodeKind} {children trees : List Tree} {comma : Token} {commas : List Token} :
      kind.isExpression = true → comma.kind = .comma → Separated trees commas →
      Separated (.node kind children :: .leaf comma :: trees) (comma :: commas)

namespace Separated

variable {trees : List Tree} {commas : List Token}

theorem of_listed (h : trees ∈ Shape.listed Shape.expression) :
    ∃ commas, Separated trees commas := by
  rcases (Language.mem_add _ _ _).mp h with hnone | hsome
  · rw [(Language.mem_one trees).mp hnone]
    exact ⟨[], .nil⟩
  · obtain ⟨_, hitems, ending, hending, rfl⟩ := Language.mem_mul.mp hsome
    obtain ⟨_, ⟨kind, children, hkind, rfl⟩, _, hrest, rfl⟩ := Language.mem_mul.mp hitems
    obtain ⟨groups, rfl, hgroups⟩ := Language.mem_kstar.mp hrest
    clear h hsome hitems hrest
    induction groups generalizing kind children with
    | nil =>
        rcases (Language.mem_add _ _ _).mp hending with hempty | ⟨comma, hcomma, rfl⟩
        · rw [(Language.mem_one ending).mp hempty]
          exact ⟨[], .single hkind⟩
        · exact ⟨[comma], .cons hkind hcomma .nil⟩
    | cons group groups ih =>
        obtain ⟨_, ⟨comma, hcomma, rfl⟩, _, ⟨kind', children', hkind', rfl⟩, rfl⟩ :=
          Language.mem_mul.mp (hgroups group List.mem_cons_self)
        obtain ⟨commas, hcommas⟩ := ih kind' children' hkind'
          fun other hother => hgroups other (List.mem_cons_of_mem _ hother)
        exact ⟨comma :: commas, .cons hkind hcomma hcommas⟩

theorem of_bare (h : Separated (trees.map bare) commas) : Separated trees commas := by
  generalize hbare : trees.map bare = bares at h
  induction h generalizing trees with
  | nil =>
      rw [List.map_eq_nil_iff] at hbare
      rw [hbare]
      exact .nil
  | single hkind =>
      obtain ⟨item, rfl, hitem⟩ := List.map_eq_singleton_iff.mp hbare
      obtain ⟨children, rfl⟩ := eq_node_of_bare hitem
      exact .single hkind
  | cons hkind hcomma hrest ih =>
      obtain ⟨item, others, rfl, hitem, hothers⟩ := List.map_eq_cons_iff.mp hbare
      obtain ⟨comma, rest, rfl, hleaf, htrees⟩ := List.map_eq_cons_iff.mp hothers
      obtain ⟨children, rfl⟩ := eq_node_of_bare hitem
      obtain rfl := eq_leaf_of_bare hleaf
      exact .cons hkind hcomma (ih htrees)

theorem childTokens (h : Separated trees commas) (kind : NodeKind) (others : List Tree) :
    (node kind (trees ++ others)).childTokens = commas ++ (node kind others).childTokens := by
  unfold Tree.childTokens
  induction h with
  | nil => rfl
  | single hkind => rfl
  | cons hkind hcomma hrest ih =>
      simp only [Tree.children] at ih
      simp [Tree.children, ih]

theorem kind_eq (h : Separated trees commas) : ∀ comma ∈ commas, comma.kind = .comma := by
  induction h with
  | nil => simp
  | single hkind => simp
  | cons hkind hcomma hrest ih => simpa [hcomma] using ih

end Separated

/-- A list of arguments with its parentheses and the commas that separate its own arguments. -/
structure Arguments (list : Tree) (opening : Token) (commas : List Token) (closing : Token) :
    Prop where
  kind : list.hasKind .argList = true
  opens : opening.kind = .lParen
  closes : closing.kind = .rParen
  between : ∃ items, Separated items commas ∧
    significant list.children = .leaf opening :: (items ++ [.leaf closing])

/-- Between the parentheses of a list of arguments. -/
def Encloses (list : Tree) (offset : Nat) : Prop :=
  ∃ opening commas closing, list.Arguments opening commas closing ∧
    opening.stop ≤ offset ∧ offset ≤ closing.start

theorem Encloses.hasKind {list : Tree} {offset : Nat} (h : list.Encloses offset) :
    list.hasKind .argList = true := by
  obtain ⟨opening, commas, closing, harguments, -⟩ := h
  exact harguments.kind

theorem Arguments.opening_mem {list : Tree} {opening closing : Token} {commas : List Token}
    (h : list.Arguments opening commas closing) : opening ∈ list.leaves := by
  obtain ⟨items, -, hsplit⟩ := h.between
  exact mem_leaves_of_significant (by simp [hsplit])

theorem Arguments.closing_mem {list : Tree} {opening closing : Token} {commas : List Token}
    (h : list.Arguments opening commas closing) : closing ∈ list.leaves := by
  obtain ⟨items, -, hsplit⟩ := h.between
  exact mem_leaves_of_significant (by simp [hsplit])

theorem mem_preorder_of_child {tree parent child : Tree} (hparent : parent ∈ tree.preorder)
    (hchild : child ∈ parent.children) : child ∈ tree.preorder := by
  cases parent with
  | leaf token => cases hchild
  | node kind children => exact preorder_trans hparent (mem_preorder_of_mem hchild)

theorem eq_node_of_hasKind {tree : Tree} {kind : NodeKind} (h : tree.hasKind kind = true) :
    ∃ children, tree = .node kind children := by
  cases tree with
  | leaf token => cases h
  | node other children => exact ⟨children, congrArg (node · children) (eq_of_beq h)⟩

theorem exists_arguments {children : List Tree} (h : NodeKind.Holds .argList children) :
    ∃ opening commas closing, (node .argList children).Arguments opening commas closing := by
  obtain ⟨_, hfront, _, ⟨closing, hcloses, rfl⟩, hall⟩ := Language.mem_mul.mp h.production
  obtain ⟨_, ⟨opening, hopens, rfl⟩, items, hitems, rfl⟩ := Language.mem_mul.mp hfront
  rw [bareAll_eq_map, List.append_assoc, List.singleton_append, eq_comm] at hall
  obtain ⟨first, others, hsplit, hfirst, hothers⟩ := List.map_eq_cons_iff.mp hall
  obtain ⟨inside, last, rfl, rfl, hlast⟩ := List.map_eq_append_iff.mp hothers
  obtain ⟨final, rfl, hfinal⟩ := List.map_eq_singleton_iff.mp hlast
  obtain rfl := eq_leaf_of_bare hfirst
  obtain rfl := eq_leaf_of_bare hfinal
  obtain ⟨commas, hcommas⟩ := Separated.of_listed hitems
  exact ⟨opening, commas, closing, rfl, hopens, hcloses, inside, hcommas.of_bare, hsplit⟩

/-- A construct starts with the first of its significant children. -/
theorem eq_cons_of_significant {children rest : List Tree} {first : Tree}
    (hstarts : ∀ tree ∈ children.head?, tree.isTrivia = false)
    (h : significant children = first :: rest) : ∃ others, children = first :: others := by
  cases children with
  | nil => cases h
  | cons tree others =>
      rw [significant, List.filter_cons_of_pos (by simp [hstarts tree rfl])] at h
      exact ⟨others, congrArg (· :: others) (List.cons.inj h).1⟩

namespace Arguments

variable {children : List Tree} {opening closing : Token} {commas : List Token}

theorem filter_childTokens (h : (node .argList children).Arguments opening commas closing)
    {p : Token → Bool} (hp : ∀ token, p token = true → token.kind.isTrivia = false) :
    (node .argList children).childTokens.filter p = (opening :: (commas ++ [closing])).filter p := by
  obtain ⟨items, hitems, hsplit⟩ := h.between
  rw [Tree.children] at hsplit
  have htokens := hitems.childTokens .argList [.leaf closing]
  rw [Tree.filter_childTokens hp, hsplit]
  exact congrArg (fun tokens => (opening :: tokens).filter p) htokens

theorem kind_of_mem (h : (node .argList children).Arguments opening commas closing) :
    ∀ comma ∈ commas, comma.kind = .comma := by
  obtain ⟨items, hitems, -⟩ := h.between
  exact hitems.kind_eq

theorem commas_eq (h : (node .argList children).Arguments opening commas closing) (offset : Nat) :
    (node .argList children).childTokens.filter
        (fun token => token.kind == .comma && decide (token.span.stop ≤ offset)) =
      commas.filter fun comma => decide (comma.stop ≤ offset) := by
  have hmeans : ∀ token : Token, (token.kind == .comma && decide (token.span.stop ≤ offset)) = true →
      token.kind.isTrivia = false := by
    intro token htoken
    rw [eq_of_beq (Bool.and_elim_left htoken)]
    rfl
  rw [h.filter_childTokens hmeans, List.filter_cons_of_neg (by simp [h.opens]), List.filter_append,
    List.filter_cons_of_neg (by simp [h.closes]), List.filter_nil, List.append_nil]
  refine List.filter_congr fun comma hcomma => ?_
  rw [h.kind_of_mem comma hcomma]
  rfl

/-- A list of arguments has its opening parenthesis in front. -/
theorem eq_cons (h : (node .argList children).Arguments opening commas closing)
    (hholds : NodeKind.Holds .argList children) : ∃ others, children = .leaf opening :: others := by
  obtain ⟨items, -, hsplit⟩ := h.between
  exact eq_cons_of_significant (hholds.starts (by decide)) hsplit

theorem enclosesOffset_iff (h : (node .argList children).Arguments opening commas closing)
    (hholds : NodeKind.Holds .argList children) (offset : Nat) :
    (node .argList children).enclosesOffset offset = true ↔
      opening.stop ≤ offset ∧ offset ≤ closing.start := by
  obtain ⟨others, rfl⟩ := h.eq_cons hholds
  obtain ⟨tokens, htokens⟩ : ∃ tokens,
      (node .argList (.leaf opening :: others)).childTokens = opening :: tokens := ⟨_, rfl⟩
  have hclosing : tokens.find? (·.kind == .rParen) = some closing := by
    have hmeans : ∀ token : Token, (token.kind == .rParen) = true →
        token.kind.isTrivia = false := by
      intro token htoken
      rw [eq_of_beq htoken]
      rfl
    have hfilter := h.filter_childTokens hmeans
    have hcommas : commas.filter (·.kind == .rParen) = [] := by
      rw [List.filter_eq_nil_iff]
      intro comma hcomma
      simp [h.kind_of_mem comma hcomma]
    rw [htokens, List.filter_cons_of_neg (by simp [h.opens]),
      List.filter_cons_of_neg (by simp [h.opens]), List.filter_append, hcommas] at hfilter
    rw [← List.head?_filter, hfilter]
    simp [h.closes]
  rw [enclosesOffset, htokens, List.dropWhile_cons_of_neg (by simp [h.opens])]
  simp only [hclosing, Bool.and_eq_true, decide_eq_true_eq]
  exact Iff.rfl

theorem startOffset_eq (h : (node .argList children).Arguments opening commas closing)
    (hholds : NodeKind.Holds .argList children) :
    (node .argList children).startOffset = opening.start := by
  obtain ⟨others, rfl⟩ := h.eq_cons hholds
  rfl

end Arguments

/-! ### Of several lists the last -/

theorem mem_argumentLists {tree call list : Tree} :
    (call, list) ∈ tree.argumentLists ↔
      call ∈ tree.preorder ∧ list ∈ call.children ∧ list.hasKind .argList = true := by
  simp [argumentLists]

theorem lastStarting_eq_none {lists : List (Tree × Tree)} (h : lastStarting lists = none) :
    lists = [] := by
  cases lists with
  | nil => rfl
  | cons here rest =>
      rw [lastStarting] at h
      split at h
      · cases h
      · split at h <;> cases h

theorem lastStarting_eq_some {lists : List (Tree × Tree)} {last : Tree × Tree}
    (h : lastStarting lists = some last) :
    last ∈ lists ∧ ∀ other ∈ lists, other.2.startOffset ≤ last.2.startOffset := by
  induction lists generalizing last with
  | nil => cases h
  | cons here rest ih =>
      rw [lastStarting] at h
      split at h
      next hnone =>
          cases h
          simp [lastStarting_eq_none hnone]
      next other hother =>
          obtain ⟨hmem, hmax⟩ := ih hother
          split at h
          next hlt =>
              cases h
              refine ⟨List.mem_cons_self, ?_⟩
              simp only [List.mem_cons, forall_eq_or_imp, Nat.le_refl, true_and]
              intro entry hentry
              exact Nat.le_trans (hmax entry hentry) (Nat.le_of_lt hlt)
          next hle =>
              cases h
              refine ⟨List.mem_cons_of_mem _ hmem, ?_⟩
              simp only [List.mem_cons, forall_eq_or_imp]
              exact ⟨Nat.le_of_not_lt hle, hmax⟩

/-! ### Trees of texts without errors -/

/-- What is known of the tree of a text without errors. -/
structure Sound (tree : Tree) : Prop where
  regular : tree.Regular
  ordered : Ordered tree.leaves
  root : tree.hasKind .argList = false

/-- A call of what has a name, with its list of arguments. -/
structure CallsByName (call : Tree) (name : Token) (list : Tree) : Prop where
  kind : call.hasKind .callExpr = true
  ident : name.kind = .ident
  parts : ∃ inside, significant call.children = [.node .nameRef inside, list] ∧
    significant inside = [.leaf name]

theorem CallsByName.mem_children {call list : Tree} {name : Token}
    (h : call.CallsByName name list) : list ∈ call.children := by
  obtain ⟨inside, hparts, -⟩ := h.parts
  exact significant_subset (by simp [hparts])

/-- The list of arguments around an offset that is in all others around it. -/
structure Innermost (tree : Tree) (offset : Nat) (list : Tree) : Prop where
  mem : list ∈ tree.preorder
  encloses : list.Encloses offset
  inside : ∀ other ∈ tree.preorder, other.Encloses offset → list ∈ other.preorder

theorem Innermost.unique {tree list other : Tree} {offset : Nat} (h : tree.Innermost offset list)
    (h' : tree.Innermost offset other) : list = other :=
  preorder_antisymm (h.inside other h'.mem h'.encloses) (h'.inside list h.mem h.encloses)

namespace Sound

variable {tree list other : Tree} {offset : Nat}

theorem arguments (h : tree.Sound) (hlist : list ∈ tree.preorder)
    (hkind : list.hasKind .argList = true) :
    ∃ opening commas closing, list.Arguments opening commas closing := by
  obtain ⟨children, rfl⟩ := eq_node_of_hasKind hkind
  exact exists_arguments (h.regular _ _ hlist)

theorem encloses_iff (h : tree.Sound) (hlist : list ∈ tree.preorder)
    (hkind : list.hasKind .argList = true) :
    list.enclosesOffset offset = true ↔ list.Encloses offset := by
  obtain ⟨children, rfl⟩ := eq_node_of_hasKind hkind
  have hholds := h.regular _ _ hlist
  constructor
  · intro hencloses
    obtain ⟨opening, commas, closing, harguments⟩ := exists_arguments hholds
    exact ⟨opening, commas, closing, harguments,
      (harguments.enclosesOffset_iff hholds offset).mp hencloses⟩
  · rintro ⟨opening, commas, closing, harguments, hbetween⟩
    exact (harguments.enclosesOffset_iff hholds offset).mpr hbetween

/-- A list of arguments is the second part of a call. -/
theorem parts_of_call (h : tree.Sound) {kind : NodeKind} {children : List Tree}
    (hcall : .node kind children ∈ tree.preorder) (hlist : list ∈ children)
    (hkind : list.hasKind .argList = true) :
    kind = .callExpr ∧ ∃ callee below, callee.isExpression = true ∧
      significant children = [.node callee below, list] := by
  obtain ⟨inside, rfl⟩ := eq_node_of_hasKind hkind
  have hholds := h.regular _ _ hcall
  have hadmits := hholds.admits hlist
  obtain rfl : kind = .callExpr := by
    revert hadmits
    cases kind <;> decide
  obtain ⟨_, ⟨callee, below, hcallee, rfl⟩, _, ⟨inside', rfl⟩, hall⟩ :=
    Language.mem_mul.mp hholds.production
  rw [bareAll_eq_map, List.singleton_append, eq_comm] at hall
  obtain ⟨first, others, hsplit, hfirst, hothers⟩ := List.map_eq_cons_iff.mp hall
  obtain ⟨second, rfl, hsecond⟩ := List.map_eq_singleton_iff.mp hothers
  obtain ⟨children', rfl⟩ := eq_node_of_bare hfirst
  have hmem := mem_significant hlist
  rw [hsplit] at hmem
  simp only [List.mem_cons, List.not_mem_nil, or_false] at hmem
  rcases hmem with hcase | hcase
  · cases hcase
    cases hcallee
  · rw [← hcase] at hsplit
    exact ⟨rfl, callee, children', hcallee, hsplit⟩

theorem call_of_list (h : tree.Sound) (hlist : list ∈ tree.preorder)
    (hkind : list.hasKind .argList = true) :
    ∃ call ∈ tree.preorder, call.hasKind .callExpr = true ∧ list ∈ call.children := by
  rcases parent_of_mem_preorder hlist with rfl | ⟨kind, children, hcall, hchild⟩
  · rw [h.root] at hkind
    cases hkind
  · obtain ⟨rfl, -⟩ := h.parts_of_call hcall hchild hkind
    exact ⟨_, hcall, rfl, hchild⟩

/-- The list that is further inside starts later. -/
theorem startOffset_lt (h : tree.Sound) (hother : other ∈ tree.preorder)
    (hkind : list.hasKind .argList = true) (hkind' : other.hasKind .argList = true)
    (hinside : list ∈ other.preorder) (hne : list ≠ other) :
    other.startOffset < list.startOffset := by
  obtain ⟨below, rfl⟩ := eq_node_of_hasKind hkind
  obtain ⟨children, rfl⟩ := eq_node_of_hasKind hkind'
  have hlist := preorder_trans hother hinside
  obtain ⟨opening, _, _, hinner⟩ := exists_arguments (h.regular _ _ hlist)
  obtain ⟨opening', _, _, houter⟩ := exists_arguments (h.regular _ _ hother)
  rw [hinner.startOffset_eq (h.regular _ _ hlist), houter.startOffset_eq (h.regular _ _ hother)]
  have hordered := h.ordered.sublist (leaves_sublist hother)
  obtain ⟨others, rfl⟩ := houter.eq_cons (h.regular _ _ hother)
  have hbelow : .node .argList below ∈ preorderAll others := by
    simpa [preorder, preorderAll, hne] using hinside
  have hnonempty := hordered.nonempty opening' List.mem_cons_self
  have hbehind := (List.pairwise_cons.mp hordered.sorted).1 opening
    (leavesAll_of_mem_preorderAll hbelow opening hinner.opening_mem)
  omega

/-- The lists around an offset are nested in one another. -/
theorem nested (h : tree.Sound) (hlist : list ∈ tree.preorder) (hother : other ∈ tree.preorder)
    (hencloses : list.Encloses offset) (hencloses' : other.Encloses offset) :
    list ∈ other.preorder ∨ other ∈ list.preorder := by
  obtain ⟨opening, _, closing, harguments, hopening, hclosing⟩ := hencloses
  obtain ⟨opening', _, closing', harguments', hopening', hclosing'⟩ := hencloses'
  have hlength {tree' : Tree} {token : Token} (htree : tree' ∈ tree.preorder)
      (htoken : token ∈ tree'.leaves) : token.start < token.stop :=
    h.ordered.nonempty token (leaves_of_mem_preorder htree token htoken)
  have hopens := hlength hlist harguments.opening_mem
  have hcloses := hlength hlist harguments.closing_mem
  have hopens' := hlength hother harguments'.opening_mem
  have hcloses' := hlength hother harguments'.closing_mem
  cases nestedOrApart h.ordered hlist hother with
  | inside hin => exact .inl hin
  | around hin => exact .inr hin
  | apart hapart =>
      rcases hapart with hbefore | hbehind
      · have hgap := hbefore closing harguments.closing_mem opening' harguments'.opening_mem
        omega
      · have hgap := hbehind closing' harguments'.closing_mem opening harguments.opening_mem
        omega

/-! ### The call of the innermost list -/

/-- The lists that the search looks at. -/
theorem mem_enclosing_iff (h : tree.Sound) {call : Tree} :
    (call, list) ∈ (tree.argumentLists.filter fun (_, list) => list.enclosesOffset offset) ↔
      call ∈ tree.preorder ∧ list ∈ call.children ∧ list.Encloses offset := by
  rw [List.mem_filter, mem_argumentLists]
  constructor
  · rintro ⟨⟨hcall, hlist, hkind⟩, hencloses⟩
    exact ⟨hcall, hlist, (h.encloses_iff (mem_preorder_of_child hcall hlist) hkind).mp hencloses⟩
  · rintro ⟨hcall, hlist, hencloses⟩
    have hkind := hencloses.hasKind
    exact ⟨⟨hcall, hlist, hkind⟩,
      (h.encloses_iff (mem_preorder_of_child hcall hlist) hkind).mpr hencloses⟩

theorem innermost_of_lastStarting (h : tree.Sound) {call : Tree}
    (hlast : lastStarting (tree.argumentLists.filter fun (_, list) => list.enclosesOffset offset) =
      some (call, list)) :
    call ∈ tree.preorder ∧ list ∈ call.children ∧ tree.Innermost offset list := by
  obtain ⟨hmem, hmax⟩ := lastStarting_eq_some hlast
  obtain ⟨hcall, hlist, hencloses⟩ := h.mem_enclosing_iff.mp hmem
  have hin := mem_preorder_of_child hcall hlist
  refine ⟨hcall, hlist, hin, hencloses, fun other hother hencloses' => ?_⟩
  rcases h.nested hin hother hencloses hencloses' with hinside | haround
  · exact hinside
  · by_cases heq : other = list
    · rw [heq]
      exact mem_preorder_self list
    · obtain ⟨parent, hparent, -, hchild⟩ := h.call_of_list hother hencloses'.hasKind
      have hle := hmax (parent, other) (h.mem_enclosing_iff.mpr ⟨hparent, hchild, hencloses'⟩)
      have hlt := h.startOffset_lt hin hencloses'.hasKind hencloses.hasKind haround heq
      dsimp only at hle
      omega

theorem referenceIdent?_eq_some_iff (h : tree.Sound) {kind : NodeKind} {children : List Tree}
    (hcallee : .node kind children ∈ tree.preorder) {name : Token} :
    (node kind children).referenceIdent? = some name ↔
      kind = .nameRef ∧ name.kind = .ident ∧ significant children = [.leaf name] := by
  by_cases hkind : kind = .nameRef
  · subst hkind
    obtain ⟨token, -, hbare⟩ := (h.regular _ _ hcallee).production
    have hfound : (node .nameRef children).referenceIdent? = findLeaf? .ident [.leaf token] := by
      rw [← hbare, findLeaf?_bareAll rfl]
      rfl
    rw [bareAll_eq_map] at hbare
    obtain ⟨single, hsignificant, hsingle⟩ := List.map_eq_singleton_iff.mp hbare
    obtain rfl := eq_leaf_of_bare hsingle
    rw [hfound, hsignificant, findLeaf?, findLeaf?]
    constructor
    · intro hsome
      split at hsome
      next hident =>
          cases hsome
          exact ⟨rfl, hident, rfl⟩
      · cases hsome
    · rintro ⟨-, hident, hname⟩
      cases hname
      rw [if_pos hident]
  · have hnone : (node kind children).referenceIdent? = none := by
      simp [referenceIdent?, hasKind, hkind]
    simp [hnone, hkind]

/-- The call of a list is a call by name exactly if its callee is a name. -/
theorem callsByName_iff (h : tree.Sound) {call : Tree} (hcall : call ∈ tree.preorder)
    (hlist : list ∈ call.children) (hkind : list.hasKind .argList = true) {name : Token} :
    call.CallsByName name list ↔ call.nodes.head?.bind referenceIdent? = some name := by
  cases call with
  | leaf token => cases hlist
  | node kind children =>
      obtain ⟨rfl, callee, below, hcallee, hsignificant⟩ := h.parts_of_call hcall hlist hkind
      have hhead : (node .callExpr children).nodes.head? = some (.node callee below) := by
        rw [nodes_eq, Tree.children, hsignificant]
        rfl
      have hmem : .node callee below ∈ children := by
        refine significant_subset ?_
        rw [hsignificant]
        exact List.mem_cons_self
      have hbelow := preorder_trans hcall (mem_preorder_of_mem hmem)
      rw [hhead, Option.bind_some, h.referenceIdent?_eq_some_iff hbelow]
      constructor
      · rintro ⟨-, hident, inside, hparts, hname⟩
        rw [Tree.children, hsignificant] at hparts
        cases hparts
        exact ⟨rfl, hident, hname⟩
      · rintro ⟨rfl, hident, hname⟩
        exact ⟨rfl, hident, below, hsignificant, hname⟩

/-- What the search makes of the list that starts last. -/
theorem enclosingCall?_eq (h : tree.Sound) {call : Tree} {opening closing : Token}
    {commas : List Token}
    (hlast : lastStarting (tree.argumentLists.filter fun (_, list) => list.enclosesOffset offset) =
      some (call, list)) (harguments : list.Arguments opening commas closing) :
    tree.enclosingCall? offset = (call.nodes.head?.bind referenceIdent?).map fun name =>
      (name.text, commas.countP (·.stop ≤ offset)) := by
  obtain ⟨hcall, hlist, -⟩ := h.innermost_of_lastStarting hlast
  obtain ⟨children, rfl⟩ := eq_node_of_hasKind harguments.kind
  have hkind : call.hasKind .callExpr = true := by
    cases call with
    | leaf token => cases hlist
    | node kind siblings =>
        obtain ⟨rfl, -⟩ := h.parts_of_call hcall hlist rfl
        rfl
  rw [enclosingCall?, hlast, List.countP_eq_length_filter, ← harguments.commas_eq]
  cases hcallee : call.nodes.head? with
  | none => simp [hkind, hcallee]
  | some callee => cases hident : callee.referenceIdent? <;> simp [hkind, hcallee, hident]

theorem call_unique (h : tree.Sound) {call call' : Tree} (hcall : call ∈ tree.preorder)
    (hcall' : call' ∈ tree.preorder) (hlist : list ∈ call.children) (hlist' : list ∈ call'.children)
    (hkind : list.hasKind .argList = true) : call = call' := by
  obtain ⟨opening, _, _, harguments⟩ := h.arguments (mem_preorder_of_child hcall hlist) hkind
  cases call with
  | leaf token => cases hlist
  | node kind children =>
      cases call' with
      | leaf token => cases hlist'
      | node kind' children' =>
          exact parent_unique h.ordered hcall hcall' hlist hlist' harguments.opening_mem

theorem exists_lastStarting (h : tree.Sound) (hlist : list ∈ tree.preorder)
    (hencloses : list.Encloses offset) : ∃ call other,
      lastStarting (tree.argumentLists.filter fun (_, list) => list.enclosesOffset offset) =
        some (call, other) := by
  obtain ⟨call, hcall, -, hchild⟩ := h.call_of_list hlist hencloses.hasKind
  have hmem := h.mem_enclosing_iff.mpr ⟨hcall, hchild, hencloses⟩
  cases hlast : lastStarting
      (tree.argumentLists.filter fun (_, list) => list.enclosesOffset offset) with
  | none =>
      rw [lastStarting_eq_none hlast] at hmem
      cases hmem
  | some last => exact ⟨last.1, last.2, rfl⟩

theorem enclosingCall?_of_innermost (h : tree.Sound) {opening closing : Token}
    {commas : List Token} (hinnermost : tree.Innermost offset list)
    (harguments : list.Arguments opening commas closing) :
    ∃ call ∈ tree.preorder, list ∈ call.children ∧
      ∀ result, tree.enclosingCall? offset = some result ↔ ∃ name, call.CallsByName name list ∧
        result = (name.text, commas.countP (·.stop ≤ offset)) := by
  obtain ⟨call, other, hlast⟩ := h.exists_lastStarting hinnermost.mem hinnermost.encloses
  obtain ⟨hcall, hchild, hother⟩ := h.innermost_of_lastStarting hlast
  obtain rfl := hother.unique hinnermost
  refine ⟨call, hcall, hchild, fun result => ?_⟩
  rw [h.enclosingCall?_eq hlast harguments, Option.map_eq_some_iff]
  refine exists_congr fun name => ?_
  rw [h.callsByName_iff hcall hchild harguments.kind]
  exact and_congr_right fun _ => eq_comm

end Sound

end Tree

theorem parse_sound {text : String} (h : (parse text).ok = true) : (parse text).tree.Sound :=
  ⟨parse_regular h, parse_ordered text, parse_hasKind text .argList (by decide)⟩

/-- In a text without errors every list of arguments has its parentheses and its one call. The
lists around an offset are nested in one another. Without one no call is written there;
otherwise it is the call of the innermost list, if its callee is a name, and the argument is
counted by the commas that separate the arguments of this list and end before the offset. -/
theorem enclosing_call_is_innermost {text : String} (hok : (parse text).ok = true) (offset : Nat) :
    (∀ list ∈ (parse text).tree.preorder, list.hasKind .argList = true →
      (∃ opening commas closing, list.Arguments opening commas closing) ∧
        ∃! call, call ∈ (parse text).tree.preorder ∧ list ∈ call.children) ∧
    (∀ list ∈ (parse text).tree.preorder, ∀ other ∈ (parse text).tree.preorder,
      list.Encloses offset → other.Encloses offset →
        list ∈ other.preorder ∨ other ∈ list.preorder) ∧
    ((∀ list ∈ (parse text).tree.preorder, ¬ list.Encloses offset) →
      (parse text).tree.enclosingCall? offset = none) ∧
    ((∃ list ∈ (parse text).tree.preorder, list.Encloses offset) →
      ∃! list, (parse text).tree.Innermost offset list) ∧
    ∀ list opening commas closing, (parse text).tree.Innermost offset list →
      list.Arguments opening commas closing →
      (∀ call ∈ (parse text).tree.preorder, ∀ name, call.CallsByName name list →
        (parse text).tree.enclosingCall? offset =
          some (name.text, commas.countP (·.stop ≤ offset))) ∧
      ((∀ call ∈ (parse text).tree.preorder, ∀ name, ¬ call.CallsByName name list) →
        (parse text).tree.enclosingCall? offset = none) := by
  have hsound := parse_sound hok
  generalize (parse text).tree = tree at hsound
  refine ⟨fun list hlist hkind => ⟨hsound.arguments hlist hkind, ?_⟩,
    fun list hlist other hother => hsound.nested hlist hother, ?_, ?_, ?_⟩
  · obtain ⟨call, hcall, -, hchild⟩ := hsound.call_of_list hlist hkind
    exact ⟨call, ⟨hcall, hchild⟩, fun other hother =>
      hsound.call_unique hother.1 hcall hother.2 hchild hkind⟩
  · intro hnone
    cases hlast : Tree.lastStarting
        (tree.argumentLists.filter fun (_, list) => list.enclosesOffset offset) with
    | none => rw [Tree.enclosingCall?, hlast]; rfl
    | some last =>
        obtain ⟨-, -, hinnermost⟩ := hsound.innermost_of_lastStarting hlast
        exact absurd hinnermost.encloses (hnone last.2 hinnermost.mem)
  · rintro ⟨list, hlist, hencloses⟩
    obtain ⟨call, innermost, hlast⟩ := hsound.exists_lastStarting hlist hencloses
    obtain ⟨-, -, hinnermost⟩ := hsound.innermost_of_lastStarting hlast
    exact ⟨innermost, hinnermost, fun other hother => hother.unique hinnermost⟩
  · intro list opening commas closing hinnermost harguments
    obtain ⟨call, hcall, hchild, hresult⟩ := hsound.enclosingCall?_of_innermost hinnermost harguments
    constructor
    · intro call' hcall' name hname
      have heq := hsound.call_unique hcall' hcall hname.mem_children hchild harguments.kind
      rw [heq] at hname
      exact (hresult _).mpr ⟨name, hname, rfl⟩
    · intro hnone
      rw [Option.eq_none_iff_forall_ne_some]
      intro result hsome
      obtain ⟨name, hname, -⟩ := (hresult result).mp hsome
      exact hnone call hcall name hname

def callInCall : String := "outer(1, inner([2, 3], 4));"

/-- At the `4` the inner call is written, and the comma of the array does not count. -/
theorem innermost_of_call_in_call :
    (parse callInCall).ok = true ∧ (∃! list, (parse callInCall).tree.Innermost 23 list) ∧
      (parse callInCall).tree.enclosingCall? 23 = some ("inner", 1) := by
  have hok : (parse callInCall).ok = true := by decide +kernel
  have hlist : ∃ list ∈ (parse callInCall).tree.preorder,
      list.hasKind .argList = true ∧ list.enclosesOffset 23 = true := by decide +kernel
  refine ⟨hok, (enclosing_call_is_innermost hok 23).2.2.2.1 ?_, by decide +kernel⟩
  obtain ⟨list, hin, hkind, hencloses⟩ := hlist
  exact ⟨list, hin, ((parse_sound hok).encloses_iff hin hkind).mp hencloses⟩

end Gml
