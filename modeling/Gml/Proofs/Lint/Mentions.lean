import Gml.Lint.Occurrence
import Gml.Proofs.Parse.Regular

/-!
# Mentions of names

The places where a tree mentions a name, told from each node by itself: a reference, the
names below what declares variables, the field of an assignment to `global.name` or
`self.name`, and a macro line. A walk that goes through the constructs one by one and
treats some nodes together with their parents comes across each of these places once.
-/
namespace Gml

structure Mention where
  name : String
  span : Span
  deriving DecidableEq, Repr

def Mention.ofToken (token : Token) : Mention := ⟨token.text, token.span⟩

def Occurrence.mention (o : Occurrence) : Mention := ⟨o.name, o.span⟩

namespace Tree

/-- The field of `global.name` or `self.name`, in a tree without blanks and comments. -/
def ownField? : Tree → Option Token
  | .node .fieldExpr [.node .nameRef [.leaf base], .leaf _, .node .name [.leaf field]] =>
      if base.kind = .kwGlobal ∨ base.kind = .kwSelf then some field else none
  | _ => none

/-- The names among siblings. -/
def names (children : List Tree) : List Token :=
  (children.filter (hasKind .name)).filterMap (childToken? .ident)

def macroMention? (children : List Tree) : Option Mention :=
  (findLeaf? .macroLine children).bind fun token =>
    (MacroLine.parse? token.text).map fun line => ⟨line.name, line.span.shift token.start⟩

def assignedField? (children : List Tree) : Option Token :=
  (children.find? isNode).bind fun target => target.bare.ownField?

/-- The names that a node mentions itself. -/
def mentionsAt : Tree → List Mention
  | .node .nameRef children => ((findLeaf? .ident children).map .ofToken).toList
  | .node .varDeclarator children | .node .globalVarStmt children
  | .node .paramList children | .node .functionDecl children => (names children).map .ofToken
  | .node .assignStmt children => ((assignedField? children).map .ofToken).toList
  | .node .macroDecl children => (macroMention? children).toList
  | _ => []

def mentions (tree : Tree) : List Mention := tree.preorder.flatMap mentionsAt

def mentionsAll (trees : List Tree) : List Mention := (preorderAll trees).flatMap mentionsAt

theorem mentions_node (kind : NodeKind) (children : List Tree) :
    mentions (.node kind children) = mentionsAt (.node kind children) ++ mentionsAll children := by
  rw [mentions, preorder, List.flatMap_cons, mentionsAll]

theorem mentionsAll_cons (tree : Tree) (trees : List Tree) :
    mentionsAll (tree :: trees) = tree.mentions ++ mentionsAll trees := by
  rw [mentionsAll, preorderAll, List.flatMap_append]
  rfl

theorem mentions_of_leaf {tree : Tree} (h : ¬tree.isNode = true) : tree.mentions = [] := by
  cases tree with
  | leaf token => rfl
  | node kind children => exact absurd rfl h

theorem mentionsAll_eq_flatMap (trees : List Tree) :
    mentionsAll trees = (trees.filter isNode).flatMap mentions := by
  induction trees with
  | nil => rfl
  | cons tree rest ih =>
      rw [mentionsAll_cons, ih]
      cases tree with
      | leaf token => rfl
      | node kind children => rfl

theorem mentionsAll_eq_nil {trees : List Tree} (h : ∀ tree ∈ trees, tree.mentions = []) :
    mentionsAll trees = [] := by
  rw [mentionsAll_eq_flatMap, List.flatMap_eq_nil_iff]
  exact fun tree htree => h tree (List.mem_of_mem_filter htree)

theorem names_cons (tree : Tree) (trees : List Tree) :
    names (tree :: trees) =
      (if tree.hasKind .name then (tree.childToken? .ident).toList else []) ++ names trees := by
  rw [names, names, List.filter_cons]
  split
  · rw [List.filterMap_cons]
    cases tree.childToken? .ident <;> rfl
  · rfl

/-! ### What the parts of an occurrence mention -/

theorem map_mention_occurrence (role : Role) (inWith : Bool) (token : Option Token) :
    (occurrence role inWith token).map Occurrence.mention =
      (token.map Mention.ofToken).toList := by
  cases token <;> rfl

theorem map_mention_nameOccurrences (role : Role) (inWith : Bool) (children : List Tree) :
    (nameOccurrences role inWith children).map Occurrence.mention =
      (names children).map .ofToken := by
  rw [nameOccurrences, names, List.map_flatMap, List.map_filterMap, List.filterMap_eq_flatMap_toList]
  simp only [map_mention_occurrence]

theorem map_mention_macroOccurrence (inWith : Bool) (children : List Tree) :
    (macroOccurrence inWith children).map Occurrence.mention = (macroMention? children).toList := by
  unfold macroOccurrence macroMention?
  cases findLeaf? .macroLine children with
  | none => rfl
  | some token => cases hline : MacroLine.parse? token.text <;> simp [hline, Occurrence.mention]

namespace Regular

variable {kind : NodeKind} {children : List Tree}

/-- Below a node around one token nothing is mentioned. -/
theorem mentionsAll_eq_nil (h : (node kind children).Regular)
    (hnone : ∀ child, kind.admits child = false) : mentionsAll children = [] := by
  refine Tree.mentionsAll_eq_nil fun tree htree => ?_
  cases tree with
  | leaf token => rfl
  | node child below =>
      have hadmits := h.holds.admits htree
      rw [hnone] at hadmits
      cases hadmits

theorem mentions_name (h : (node .name children).Regular) : mentions (.node .name children) = [] := by
  rw [mentions_node, h.mentionsAll_eq_nil fun _ => rfl]
  rfl

theorem mentions_nameRef (h : (node .nameRef children).Regular) :
    mentions (.node .nameRef children) = ((findLeaf? .ident children).map .ofToken).toList := by
  rw [mentions_node, h.mentionsAll_eq_nil fun _ => rfl, List.append_nil]
  rfl

/-- The nodes of a field access are its base and the name of the field. -/
theorem nodes_fieldExpr (h : (node .fieldExpr children).Regular) :
    ∃ base inside below dot field, base.isExpression = true ∧
      children.filter isNode = [.node base inside, .node .name below] ∧
      bareAll children = [.node base (bareAll inside), .leaf dot, .node .name [.leaf field]] ∧
      findLeaf? .ident below = some field := by
  obtain ⟨base, inside, dot, below, hbase, hbare⟩ := h.holds.fieldExpr
  have hnodes := filter_bareAll isNode_bare (fun _ => rfl) children
  rw [hbare] at hnodes
  obtain ⟨first, others, hfirst, hbaseBare, hothers⟩ := List.map_eq_cons_iff.mp hnodes.symm
  obtain ⟨name, hname, hnameBare⟩ := List.map_eq_singleton_iff.mp hothers
  cases first with
  | leaf token => cases hbaseBare
  | node kind inside' =>
      cases name with
      | leaf token => cases hnameBare
      | node kind' below' =>
          cases hbaseBare
          cases hnameBare
          rw [hname] at hfirst
          have hbelow : (node .name below').Regular := by
            refine h.child _ (List.mem_of_mem_filter (p := isNode) ?_)
            rw [hfirst]
            exact List.mem_cons_of_mem _ List.mem_cons_self
          obtain ⟨field, hfield, hident⟩ := hbelow.holds.name
          refine ⟨base, inside', below', dot, field, hbase, hfirst, ?_, ?_⟩
          · rw [hbare, hfield]
          · rw [← findLeaf?_bareAll rfl, hfield, findLeaf?, if_pos hident]

/-- A reference is found by the token that it consists of. -/
theorem head?_nameRef (h : (node .nameRef children).Regular) : ∃ token,
    bareAll children = [.leaf token] ∧ children.head? = some (.leaf token) ∧
      findLeaf? .ident children = if token.kind = .ident then some token else none := by
  obtain ⟨token, -, hbare⟩ := h.holds.production
  refine ⟨token, hbare, h.holds.head?_of_single nofun hbare, ?_⟩
  rw [← findLeaf?_bareAll rfl, hbare]
  rfl

/-- The base and the name of a field tell whether it is a field of `global` or `self`, and
then nothing else is mentioned in it. -/
theorem ownField?_fieldExpr (h : (node .fieldExpr children).Regular) :
    (∃ base field, fieldBase? (node .fieldExpr children) = some base ∧
      (base = .kwGlobal ∨ base = .kwSelf) ∧
      fieldName? (node .fieldExpr children) = some field ∧
      (node .fieldExpr children).bare.ownField? = some field ∧
      mentions (node .fieldExpr children) = []) ∨
    fieldBase? (node .fieldExpr children) = none ∧
      (node .fieldExpr children).bare.ownField? = none := by
  obtain ⟨base, inside, below, dot, field, hbase, hnodes, hbare, hfield⟩ := h.nodes_fieldExpr
  have hother : hasKind .name (.node base inside) = false := by
    rw [hasKind, beq_eq_false_iff_ne]
    rintro rfl
    exact Bool.false_ne_true hbase
  have hname : fieldName? (node .fieldExpr children) = some field := by
    rw [fieldName?, nodes, Tree.children, hnodes, List.find?_cons, hother, List.find?_cons]
    exact hfield
  have hmem : ∀ tree ∈ [node base inside, node .name below], tree.Regular := by
    intro tree htree
    rw [← hnodes] at htree
    exact h.child tree (List.mem_of_mem_filter htree)
  have hfirst : (nodes (node .fieldExpr children)).head? = some (.node base inside) := by
    rw [nodes, Tree.children, hnodes, List.head?_cons]
  rw [bare, hbare]
  -- Both keywords stand as references, so any other base is neither of them.
  by_cases hreference : base = .nameRef
  · subst hreference
    obtain ⟨token, htoken, hhead, hident⟩ := (hmem _ List.mem_cons_self).head?_nameRef
    have hleaves : (leaves (.node .nameRef inside)).head? = some token := by
      cases inside with
      | nil => cases hhead
      | cons tree rest =>
          cases hhead
          rfl
    have hbaseKind : fieldBase? (node .fieldExpr children) =
        if token.kind = .kwGlobal ∨ token.kind = .kwSelf then some token.kind else none := by
      rw [fieldBase?, hfirst]
      simp only [hasKind, beq_self_eq_true, if_true, hleaves, Bool.or_eq_true, decide_eq_true_eq]
    rw [htoken, hbaseKind, ownField?]
    split
    next hkind =>
        refine .inl ⟨token.kind, field, rfl, hkind, hname, rfl, ?_⟩
        have hnone : token.kind ≠ .ident := by
          rintro heq
          rw [heq] at hkind
          rcases hkind with hkind | hkind <;> cases hkind
        rw [if_neg hnone] at hident
        rw [mentions_node, mentionsAll_eq_flatMap, hnodes, List.flatMap_cons, List.flatMap_cons,
          (hmem _ List.mem_cons_self).mentions_nameRef, hident,
          (hmem _ (List.mem_cons_of_mem _ List.mem_cons_self)).mentions_name]
        rfl
    · exact .inr ⟨rfl, rfl⟩
  · have hkind : hasKind .nameRef (.node base inside) = false := by
      rw [hasKind, beq_eq_false_iff_ne]
      exact hreference
    refine .inr ⟨?_, ?_⟩
    · rw [fieldBase?, hfirst]
      simp only [hkind, Bool.false_eq_true, if_false]
    · unfold ownField?
      split
      next heq =>
          have hfirst := (List.cons.inj (Tree.node.inj heq).2).1
          exact absurd (Tree.node.inj hfirst).1 hreference
      · rfl

end Regular

/-- What an assignment mentions by its target is the field that it assigns, besides what any
expression mentions. -/
theorem map_mention_targetOccurrence {target : Tree} (h : target.Regular) {plain inWith : Bool}
    {occurrences : List Occurrence}
    (htarget : targetOccurrence? plain inWith target = some occurrences) :
    occurrences.map Occurrence.mention =
      (target.bare.ownField?.map .ofToken).toList ++ target.mentions := by
  cases target with
  | leaf token => cases htarget
  | node kind children =>
      unfold targetOccurrence? at htarget
      split at htarget
      next hkind =>
          obtain rfl : kind = .nameRef := eq_of_beq hkind
          cases htarget
          rw [map_mention_occurrence, h.mentions_nameRef]
          rfl
      · split at htarget
        next hkind =>
            obtain rfl : kind = .fieldExpr := eq_of_beq hkind
            rcases h.ownField?_fieldExpr with ⟨base, field, hbase, hown, hname, hfield, hnothing⟩ | ⟨hbase, -⟩
            · rw [hbase, hname] at htarget
              rw [hfield, hnothing]
              rcases hown with rfl | rfl <;> cases htarget <;> rfl
            · rw [hbase] at htarget
              cases htarget
        · cases htarget

theorem ownField?_eq_none {target : Tree} (h : target.Regular) {plain inWith : Bool}
    (htarget : targetOccurrence? plain inWith target = none) : target.bare.ownField? = none := by
  cases target with
  | leaf token => rfl
  | node kind children =>
      by_cases hkind : kind = .fieldExpr
      · subst hkind
        rcases h.ownField?_fieldExpr with ⟨base, field, hbase, hown, hname, -⟩ | ⟨-, hfield⟩
        · unfold targetOccurrence? at htarget
          rw [hbase, hname] at htarget
          rcases hown with rfl | rfl <;> cases htarget
        · exact hfield
      · rw [bare]
        unfold ownField?
        split
        next heq => exact absurd (Tree.node.inj heq).1 hkind
        · rfl

/-- Whether a node is read together with the node that it is part of. -/
def isPart (tree : Tree) : Bool := tree.hasKind .varDeclarator || tree.hasKind .paramList

theorem Regular.isPart_child {kind : NodeKind} {children : List Tree}
    (h : (node kind children).Regular) (hvar : kind ≠ .varStmt) (hdecl : kind ≠ .functionDecl)
    (hexpr : kind ≠ .functionExpr) : ∀ tree ∈ children, tree.isPart = false := by
  intro tree htree
  cases tree with
  | leaf token => rfl
  | node child below =>
      have hadmits := h.holds.admits htree
      by_contra hpart
      simp only [isPart, hasKind, Bool.not_eq_false, Bool.or_eq_true, beq_iff_eq] at hpart
      rcases hpart with rfl | rfl <;> cases kind <;> contradiction

theorem mentions_of_hasKind_name {tree : Tree} (h : tree.Regular)
    (hname : tree.hasKind .name = true) : tree.mentions = [] := by
  cases tree with
  | leaf token => rfl
  | node kind children =>
      obtain rfl : kind = .name := eq_of_beq hname
      exact h.mentions_name

/-- A name among siblings is mentioned before the other siblings or after them. -/
theorem regroup {first others rest : List Mention} :
    (first ++ (others ++ rest)).Perm (others ++ (first ++ rest)) := by
  rw [← List.append_assoc, ← List.append_assoc]
  exact List.perm_append_comm.append_right rest

mutual

theorem mentions_occurrences (inWith isCallee : Bool) (tree : Tree) (h : tree.Regular)
    (hpart : tree.isPart = false) :
    ((tree.occurrences inWith isCallee).map Occurrence.mention).Perm tree.mentions := by
  -- One case for each kind that is read in a way of its own, the last for all others.
  unfold occurrences
  split
  · exact .refl _
  next children =>
      rw [mentions_node]
      refine mentions_declaratorOccurrences inWith children h.child fun kind below hmem => ?_
      exact eq_of_beq (h.holds.admits hmem)
  next children =>
      have hnames : mentionsAll children = [] := by
        refine mentionsAll_eq_nil fun tree hmem => ?_
        cases tree with
        | leaf token => rfl
        | node kind below =>
            exact mentions_of_hasKind_name (h.child _ hmem) (h.holds.admits hmem)
      rw [mentions_node, hnames, List.append_nil, map_mention_nameOccurrences]
      exact .refl _
  next children =>
      rw [mentions_node, h.mentionsAll_eq_nil fun _ => rfl, List.append_nil,
        map_mention_macroOccurrence]
      exact .refl _
  next children =>
      rw [mentions_node]
      refine mentions_functionOccurrences inWith true children h.child fun kind below hmem => ?_
      rintro rfl
      cases h.holds.admits hmem
  next children =>
      rw [mentions_node]
      refine mentions_functionOccurrences inWith false children h.child fun kind below hmem => ?_
      rintro rfl
      cases h.holds.admits hmem
  next children =>
      rw [mentions_node]
      exact mentions_assignmentOccurrences inWith _ children h.child
        (h.isPart_child nofun nofun nofun)
  next children =>
      rw [mentions_node]
      exact mentions_withOccurrences inWith children h.child (h.isPart_child nofun nofun nofun)
  next children =>
      rw [mentions_node]
      exact mentions_callOccurrences inWith children h.child (h.isPart_child nofun nofun nofun)
  next children =>
      rw [h.mentions_nameRef, map_mention_occurrence]
  next kind children hvar hglobal hmacro hdecl hexpr hassign hwith hcall hreference =>
      have hat : mentionsAt (.node kind children) = [] := by
        cases kind <;> first | rfl | contradiction
      rw [mentions_node, hat, List.nil_append]
      exact mentions_allOccurrences inWith children h.child (h.isPart_child hvar hdecl hexpr)
termination_by sizeOf tree
decreasing_by all_goals subst_vars; simp only [Tree.node.sizeOf_spec]; omega

theorem mentions_allOccurrences (inWith : Bool) (trees : List Tree)
    (h : ∀ tree ∈ trees, tree.Regular) (hpart : ∀ tree ∈ trees, tree.isPart = false) :
    ((allOccurrences inWith trees).map Occurrence.mention).Perm (mentionsAll trees) := by
  cases trees with
  | nil => exact .refl _
  | cons tree rest =>
      rw [List.forall_mem_cons] at h hpart
      rw [allOccurrences, List.map_append, mentionsAll_cons]
      exact (mentions_occurrences inWith false tree h.1 hpart.1).append
        (mentions_allOccurrences inWith rest h.2 hpart.2)
termination_by sizeOf trees
decreasing_by all_goals subst_vars; simp only [List.cons.sizeOf_spec]; omega

theorem mentions_callOccurrences (inWith : Bool) (trees : List Tree)
    (h : ∀ tree ∈ trees, tree.Regular) (hpart : ∀ tree ∈ trees, tree.isPart = false) :
    ((callOccurrences inWith trees).map Occurrence.mention).Perm (mentionsAll trees) := by
  cases trees with
  | nil => exact .refl _
  | cons tree rest =>
      rw [List.forall_mem_cons] at h hpart
      rw [callOccurrences, mentionsAll_cons]
      split
      · rw [List.map_append]
        exact (mentions_occurrences inWith true tree h.1 hpart.1).append
          (mentions_allOccurrences inWith rest h.2 hpart.2)
      next hleaf =>
          rw [mentions_of_leaf hleaf]
          exact mentions_callOccurrences inWith rest h.2 hpart.2
termination_by sizeOf trees
decreasing_by all_goals subst_vars; simp only [List.cons.sizeOf_spec]; omega

theorem mentions_withOccurrences (inWith : Bool) (trees : List Tree)
    (h : ∀ tree ∈ trees, tree.Regular) (hpart : ∀ tree ∈ trees, tree.isPart = false) :
    ((withOccurrences inWith trees).map Occurrence.mention).Perm (mentionsAll trees) := by
  cases trees with
  | nil => exact .refl _
  | cons tree rest =>
      rw [List.forall_mem_cons] at h hpart
      rw [withOccurrences, mentionsAll_cons]
      split
      · rw [List.map_append]
        exact (mentions_occurrences inWith false tree h.1 hpart.1).append
          (mentions_allOccurrences true rest h.2 hpart.2)
      next hleaf =>
          rw [mentions_of_leaf hleaf]
          exact mentions_withOccurrences inWith rest h.2 hpart.2
termination_by sizeOf trees
decreasing_by all_goals subst_vars; simp only [List.cons.sizeOf_spec]; omega

theorem mentions_assignmentOccurrences (inWith plain : Bool) (trees : List Tree)
    (h : ∀ tree ∈ trees, tree.Regular) (hpart : ∀ tree ∈ trees, tree.isPart = false) :
    ((assignmentOccurrences inWith plain trees).map Occurrence.mention).Perm
      (((assignedField? trees).map .ofToken).toList ++ mentionsAll trees) := by
  cases trees with
  | nil => exact .refl _
  | cons tree rest =>
      rw [List.forall_mem_cons] at h hpart
      rw [assignmentOccurrences, mentionsAll_cons]
      split
      next hnode =>
          have hrest := mentions_allOccurrences inWith rest h.2 hpart.2
          rw [assignedField?, List.find?_cons_of_pos hnode, Option.bind_some, List.map_append,
            ← List.append_assoc]
          refine .append ?_ hrest
          split
          next occurrences hsome => rw [map_mention_targetOccurrence h.1 hsome]
          next hnone =>
              rw [ownField?_eq_none h.1 hnone]
              exact mentions_occurrences inWith false tree h.1 hpart.1
      next hleaf =>
          rw [assignedField?, List.find?_cons_of_neg hleaf, mentions_of_leaf hleaf]
          exact mentions_assignmentOccurrences inWith plain rest h.2 hpart.2
termination_by sizeOf trees
decreasing_by all_goals subst_vars; simp only [List.cons.sizeOf_spec]; omega

theorem mentions_declaratorOccurrences (inWith : Bool) (trees : List Tree)
    (h : ∀ tree ∈ trees, tree.Regular)
    (hkind : ∀ kind children, .node kind children ∈ trees → kind = .varDeclarator) :
    ((declaratorOccurrences inWith trees).map Occurrence.mention).Perm (mentionsAll trees) := by
  cases trees with
  | nil => exact .refl _
  | cons tree rest =>
      rw [List.forall_mem_cons] at h
      have hrest := mentions_declaratorOccurrences inWith rest h.2 fun kind children hmem =>
        hkind kind children (List.mem_cons_of_mem _ hmem)
      rw [mentionsAll_cons]
      cases tree with
      | leaf token =>
          rw [declaratorOccurrences]
          exact hrest
      | node kind children =>
          obtain rfl := hkind kind children List.mem_cons_self
          obtain ⟨name, hname⟩ := h.1.holds.varDeclarator
          have hinitial := mentions_initialOccurrences inWith children h.1.child
            (h.1.isPart_child nofun nofun nofun)
          have hfind : children.find? (hasKind .name) = some name := by
            rw [← List.head?_filter, hname, List.head?_cons]
          rw [declaratorOccurrences, hfind, List.map_append, mentions_node]
          refine .append ?_ hrest
          rw [List.map_append, map_mention_occurrence]
          have hat : mentionsAt (.node .varDeclarator children) =
              ((name.childToken? .ident).map Mention.ofToken).toList := by
            rw [mentionsAt, names, hname]
            cases hident : name.childToken? .ident <;> simp [hident]
          rw [hat]
          exact List.perm_append_comm.trans (hinitial.append_left _)
termination_by sizeOf trees
decreasing_by all_goals subst_vars; simp only [List.cons.sizeOf_spec, Tree.node.sizeOf_spec]; omega

theorem mentions_initialOccurrences (inWith : Bool) (trees : List Tree)
    (h : ∀ tree ∈ trees, tree.Regular) (hpart : ∀ tree ∈ trees, tree.isPart = false) :
    ((initialOccurrences inWith trees).map Occurrence.mention).Perm (mentionsAll trees) := by
  cases trees with
  | nil => exact .refl _
  | cons tree rest =>
      rw [List.forall_mem_cons] at h hpart
      rw [initialOccurrences, List.map_append, mentionsAll_cons]
      refine .append ?_ (mentions_initialOccurrences inWith rest h.2 hpart.2)
      split
      next hname =>
          rw [mentions_of_hasKind_name h.1 hname]
          exact .refl _
      · exact mentions_occurrences inWith false tree h.1 hpart.1
termination_by sizeOf trees
decreasing_by all_goals subst_vars; simp only [List.cons.sizeOf_spec]; omega

theorem mentions_functionOccurrences (inWith declared : Bool) (trees : List Tree)
    (h : ∀ tree ∈ trees, tree.Regular)
    (hkind : ∀ kind children, .node kind children ∈ trees → kind ≠ .varDeclarator) :
    ((functionOccurrences inWith declared trees).map Occurrence.mention).Perm
      ((if declared then (names trees).map .ofToken else []) ++ mentionsAll trees) := by
  unfold functionOccurrences
  split
  · cases declared <;> exact .refl _
  next token rest =>
      rw [List.forall_mem_cons] at h
      exact mentions_functionOccurrences inWith declared rest h.2
        fun kind children hmem => hkind kind children (List.mem_cons_of_mem _ hmem)
  next parameters rest =>
      rw [List.forall_mem_cons] at h
      have hrest := mentions_functionOccurrences inWith declared rest h.2
        fun kind children hmem => hkind kind children (List.mem_cons_of_mem _ hmem)
      have hparameters := mentions_parameterOccurrences inWith parameters h.1.child
        (h.1.isPart_child nofun nofun nofun)
      rw [List.map_append, mentionsAll_cons, mentions_node]
      exact (hparameters.append hrest).trans regroup
  next tree rest hleaf hparameters =>
      rw [List.forall_mem_cons] at h
      have hrest := mentions_functionOccurrences inWith declared rest h.2
        fun kind children hmem => hkind kind children (List.mem_cons_of_mem _ hmem)
      -- The parameters, the only part that a function has, were read in the case before.
      have hpart : tree.isPart = false := by
        cases tree with
        | leaf token => exact absurd rfl (hleaf token)
        | node kind children =>
            rw [isPart, hasKind, hasKind, Bool.or_eq_false_iff, beq_eq_false_iff_ne,
              beq_eq_false_iff_ne]
            refine ⟨hkind kind children List.mem_cons_self, ?_⟩
            rintro rfl
            exact hparameters children rfl
      have hread := mentions_occurrences inWith false tree h.1 hpart
      rw [List.map_append, mentionsAll_cons, names_cons]
      cases declared with
      | false => exact hread.append hrest
      | true =>
          rw [Bool.true_and]
          split
          next hname =>
              rw [mentions_of_hasKind_name h.1 hname, map_mention_occurrence, if_pos rfl,
                List.map_append, List.append_assoc, ← Option.toList_map]
              exact hrest.append_left _
          · exact (hread.append hrest).trans regroup
termination_by sizeOf trees
decreasing_by all_goals subst_vars; simp only [List.cons.sizeOf_spec, Tree.node.sizeOf_spec]; omega

theorem mentions_parameterOccurrences (inWith : Bool) (trees : List Tree)
    (h : ∀ tree ∈ trees, tree.Regular) (hpart : ∀ tree ∈ trees, tree.isPart = false) :
    ((parameterOccurrences inWith trees).map Occurrence.mention).Perm
      ((names trees).map .ofToken ++ mentionsAll trees) := by
  cases trees with
  | nil => exact .refl _
  | cons tree rest =>
      rw [List.forall_mem_cons] at h hpart
      have hrest := mentions_parameterOccurrences inWith rest h.2 hpart.2
      rw [parameterOccurrences, List.map_append, mentionsAll_cons, names_cons]
      split
      next hname =>
          rw [mentions_of_hasKind_name h.1 hname, List.nil_append, map_mention_occurrence,
            List.map_append, List.append_assoc, Option.toList_map]
          exact hrest.append_left _
      · exact ((mentions_occurrences inWith false tree h.1 hpart.1).append hrest).trans regroup
termination_by sizeOf trees
decreasing_by all_goals subst_vars; simp only [List.cons.sizeOf_spec]; omega

end

end Tree

end Gml
