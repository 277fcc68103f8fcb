import Gml.Lint.Calls
import Gml.Proofs.Lint.Recording

/-!
# What a text declares

The check of calls takes the names that a text declares from its tree, and other documents
learn of them from its contribution. Whatever the contribution records is among the names
that the tree declares.
-/
namespace Gml

namespace Calls

def declaredNamesAll (trees : List Tree) : List String := (Tree.preorderAll trees).flatMap declaredBy

theorem declaredNames_node (kind : NodeKind) (children : List Tree) :
    declaredNames (.node kind children) =
      declaredBy (.node kind children) ++ declaredNamesAll children := by
  rw [declaredNames, Tree.preorder, List.flatMap_cons, declaredNamesAll]

theorem mem_declaredNamesAll {name : String} {trees : List Tree} :
    name ∈ declaredNamesAll trees ↔ ∃ tree ∈ trees, name ∈ declaredNames tree := by
  induction trees with
  | nil => simp [declaredNamesAll, Tree.preorderAll]
  | cons tree rest ih =>
      have hcons : declaredNamesAll (tree :: rest) = declaredNames tree ++ declaredNamesAll rest := by
        rw [declaredNamesAll, Tree.preorderAll, List.flatMap_append]
        rfl
      rw [hcons, List.mem_append, ih, List.exists_mem_cons_iff]

theorem mem_declaredNames_of_below {kind : NodeKind} {children : List Tree} {name : String}
    (h : name ∈ declaredNamesAll children) : name ∈ declaredNames (.node kind children) := by
  rw [declaredNames_node]
  exact List.mem_append_right _ h

theorem mem_declaredNamesAll_cons {tree : Tree} {trees : List Tree} {name : String} :
    name ∈ declaredNamesAll (tree :: trees) ↔
      name ∈ declaredNames tree ∨ name ∈ declaredNamesAll trees := by
  simp only [mem_declaredNamesAll, List.exists_mem_cons_iff]

/-- All that is not only used is declared. -/
def Covers (names : List String) (occurrences : List Occurrence) : Prop :=
  ∀ o ∈ occurrences, o.role.isUse = false → o.name ∈ names

namespace Covers

variable {names more : List String} {occurrences others : List Occurrence}

theorem nil : Covers names [] := nofun

theorem append (h : Covers names occurrences) (h' : Covers names others) :
    Covers names (occurrences ++ others) := by
  intro o ho
  rcases List.mem_append.mp ho with ho | ho
  · exact h o ho
  · exact h' o ho

theorem mono (h : Covers names occurrences) (hnames : ∀ name ∈ names, name ∈ more) :
    Covers more occurrences :=
  fun o ho huse => hnames _ (h o ho huse)

theorem below {kind : NodeKind} {children : List Tree}
    (h : Covers (declaredNamesAll children) occurrences) :
    Covers (declaredNames (.node kind children)) occurrences :=
  h.mono fun _ => mem_declaredNames_of_below

theorem first {tree : Tree} {trees : List Tree} (h : Covers (declaredNames tree) occurrences) :
    Covers (declaredNamesAll (tree :: trees)) occurrences :=
  h.mono fun _ hname => mem_declaredNamesAll_cons.mpr (.inl hname)

theorem later {tree : Tree} {trees : List Tree} (h : Covers (declaredNamesAll trees) occurrences) :
    Covers (declaredNamesAll (tree :: trees)) occurrences :=
  h.mono fun _ hname => mem_declaredNamesAll_cons.mpr (.inr hname)

theorem occurrence {token : Option Token} (h : ∀ found, token = some found → found.text ∈ names)
    (role : Role) (inWith : Bool) : Covers names (Tree.occurrence role inWith token) := by
  cases token with
  | none => exact nil
  | some found =>
      intro o ho _
      rw [Tree.occurrence, List.mem_singleton] at ho
      rw [ho]
      exact h found rfl

/-- A name declares its identifier. -/
theorem name {tree : Tree} (hkind : tree.hasKind .name = true) (role : Role) (inWith : Bool) :
    Covers (declaredNames tree) (Tree.occurrence role inWith (tree.childToken? .ident)) := by
  refine occurrence (fun found hfound => ?_) role inWith
  cases tree with
  | leaf token => cases hkind
  | node kind children =>
      have hname : kind = .name := eq_of_beq hkind
      subst hname
      rw [Tree.childToken?, Tree.children] at hfound
      rw [declaredNames_node, declaredBy, hfound]
      exact List.mem_append_left _ List.mem_cons_self

theorem nameAmong {tree : Tree} {trees : List Tree} (hmem : tree ∈ trees)
    (hkind : tree.hasKind .name = true) (role : Role) (inWith : Bool) :
    Covers (declaredNamesAll trees) (Tree.occurrence role inWith (tree.childToken? .ident)) :=
  (name hkind role inWith).mono fun _ hname => mem_declaredNamesAll.mpr ⟨tree, hmem, hname⟩

theorem nameOccurrences (role : Role) (inWith : Bool) (children : List Tree) :
    Covers (declaredNamesAll children) (Tree.nameOccurrences role inWith children) := by
  intro o ho
  obtain ⟨tree, htree, hin⟩ := List.mem_flatMap.mp ho
  obtain ⟨hmem, hkind⟩ := List.mem_filter.mp htree
  exact nameAmong hmem hkind role inWith o hin

theorem macroOccurrence (inWith : Bool) (children : List Tree) :
    Covers (declaredNames (.node .macroDecl children)) (Tree.macroOccurrence inWith children) := by
  unfold Tree.macroOccurrence
  split
  · exact nil
  next token htoken =>
      split
      · exact nil
      next line hline =>
          intro o ho _
          rw [List.mem_singleton] at ho
          rw [ho, declaredNames_node, declaredBy, htoken, Option.bind_some, hline]
          exact List.mem_append_left _ List.mem_cons_self

/-- A target is a reference, or names a field below it. -/
theorem targetOccurrence {plain inWith : Bool} {target : Tree}
    (h : Tree.targetOccurrence? plain inWith target = some occurrences) :
    Covers ((target.referenceIdent?.map Token.text).toList ++ declaredNames target) occurrences := by
  have hfield : ∀ role name, target.fieldName? = some name →
      Covers (declaredNames target) (Tree.occurrence role inWith (some name)) := by
    intro role name hname
    obtain ⟨tree, hfind, htoken⟩ := Option.bind_eq_some_iff.mp hname
    have hcovered := nameAmong (List.mem_of_mem_filter (List.mem_of_find?_eq_some hfind))
      (List.find?_some hfind) role inWith
    rw [htoken] at hcovered
    cases target with
    | leaf token => cases hname
    | node kind children => exact hcovered.below
  unfold Tree.targetOccurrence? at h
  split at h
  next hreference =>
      cases h
      refine occurrence (fun found hfound => ?_) _ _
      rw [Tree.referenceIdent?, if_pos hreference, hfound]
      exact List.mem_append_left _ List.mem_cons_self
  · split at h
    · split at h
      next name _ hname =>
          cases h
          exact (hfield _ name hname).mono fun _ => List.mem_append_right _
      next name _ hname =>
          cases h
          exact (hfield _ name hname).mono fun _ => List.mem_append_right _
      · cases h
    · cases h

end Covers

end Calls

namespace Tree

open Calls (Covers declaredNames declaredNamesAll)

mutual

theorem covers_occurrences (inWith isCallee : Bool) (tree : Tree) :
    Covers (declaredNames tree) (tree.occurrences inWith isCallee) := by
  unfold occurrences
  split
  · exact .nil
  next children => exact (covers_declaratorOccurrences inWith children).below
  next children => exact (Covers.nameOccurrences _ inWith children).below
  next children => exact Covers.macroOccurrence inWith children
  next children => exact (covers_functionOccurrences inWith true children).below
  next children => exact (covers_functionOccurrences inWith false children).below
  next children => exact covers_assignmentOccurrences inWith _ children
  next children => exact (covers_withOccurrences inWith children).below
  next children => exact (covers_callOccurrences inWith children).below
  next children =>
      intro o ho huse
      cases hident : findLeaf? .ident children with
      | none => rw [hident] at ho; cases ho
      | some token =>
          rw [hident, occurrence, List.mem_singleton] at ho
          rw [ho] at huse
          cases isCallee <;> cases huse
  next kind children _ _ _ _ _ _ _ _ _ => exact (covers_allOccurrences inWith children).below
termination_by sizeOf tree
decreasing_by all_goals subst_vars; simp only [Tree.node.sizeOf_spec]; omega

theorem covers_allOccurrences (inWith : Bool) (trees : List Tree) :
    Covers (declaredNamesAll trees) (allOccurrences inWith trees) := by
  cases trees with
  | nil => exact .nil
  | cons tree rest =>
      rw [allOccurrences]
      exact (covers_occurrences inWith false tree).first.append
        (covers_allOccurrences inWith rest).later
termination_by sizeOf trees
decreasing_by all_goals simp only [List.cons.sizeOf_spec]; omega

theorem covers_callOccurrences (inWith : Bool) (trees : List Tree) :
    Covers (declaredNamesAll trees) (callOccurrences inWith trees) := by
  cases trees with
  | nil => exact .nil
  | cons tree rest =>
      rw [callOccurrences]
      split
      · exact (covers_occurrences inWith true tree).first.append
          (covers_allOccurrences inWith rest).later
      · exact (covers_callOccurrences inWith rest).later
termination_by sizeOf trees
decreasing_by all_goals simp only [List.cons.sizeOf_spec]; omega

theorem covers_withOccurrences (inWith : Bool) (trees : List Tree) :
    Covers (declaredNamesAll trees) (withOccurrences inWith trees) := by
  cases trees with
  | nil => exact .nil
  | cons tree rest =>
      rw [withOccurrences]
      split
      · exact (covers_occurrences inWith false tree).first.append
          (covers_allOccurrences true rest).later
      · exact (covers_withOccurrences inWith rest).later
termination_by sizeOf trees
decreasing_by all_goals simp only [List.cons.sizeOf_spec]; omega

theorem covers_assignmentOccurrences (inWith plain : Bool) (trees : List Tree) :
    Covers (declaredNames (.node .assignStmt trees)) (assignmentOccurrences inWith plain trees) := by
  cases trees with
  | nil => exact .nil
  | cons tree rest =>
      rw [assignmentOccurrences]
      split
      next hnode =>
          refine .append ?_ (covers_allOccurrences inWith rest).later.below
          split
          next found hfound =>
              refine (Covers.targetOccurrence hfound).mono fun name hname => ?_
              rw [Calls.declaredNames_node, Calls.declaredBy, List.filter_cons_of_pos hnode]
              rw [List.mem_append, Calls.mem_declaredNamesAll_cons]
              rw [List.mem_append] at hname
              exact hname.imp_right .inl
          · exact (covers_occurrences inWith false tree).first.below
      next hleaf =>
          refine (covers_assignmentOccurrences inWith plain rest).mono fun name hname => ?_
          rw [Calls.declaredNames_node, Calls.declaredBy, List.mem_append] at hname ⊢
          rw [List.filter_cons_of_neg (by simpa using hleaf), Calls.mem_declaredNamesAll_cons]
          exact hname.imp_right .inr
termination_by sizeOf trees
decreasing_by all_goals simp only [List.cons.sizeOf_spec]; omega

theorem covers_declaratorOccurrences (inWith : Bool) (trees : List Tree) :
    Covers (declaredNamesAll trees) (declaratorOccurrences inWith trees) := by
  cases trees with
  | nil => exact .nil
  | cons tree rest =>
      cases tree with
      | leaf token =>
          rw [declaratorOccurrences]
          exact (covers_declaratorOccurrences inWith rest).later
      | node kind children =>
          rw [declaratorOccurrences]
          refine .append ?_ (covers_declaratorOccurrences inWith rest).later
          split
          · exact .nil
          next name hname =>
              have hdeclared := Covers.nameAmong (List.mem_of_find?_eq_some hname)
                (List.find?_some hname) .ownVariable inWith
              exact ((covers_initialOccurrences inWith children).append hdeclared).below.first
termination_by sizeOf trees
decreasing_by all_goals simp only [List.cons.sizeOf_spec, Tree.node.sizeOf_spec]; omega

theorem covers_initialOccurrences (inWith : Bool) (trees : List Tree) :
    Covers (declaredNamesAll trees) (initialOccurrences inWith trees) := by
  cases trees with
  | nil => exact .nil
  | cons tree rest =>
      rw [initialOccurrences]
      refine .append ?_ (covers_initialOccurrences inWith rest).later
      split
      · exact .nil
      · exact (covers_occurrences inWith false tree).first
termination_by sizeOf trees
decreasing_by all_goals simp only [List.cons.sizeOf_spec]; omega

theorem covers_functionOccurrences (inWith declared : Bool) (trees : List Tree) :
    Covers (declaredNamesAll trees) (functionOccurrences inWith declared trees) := by
  unfold functionOccurrences
  split
  · exact .nil
  next rest => exact (covers_functionOccurrences inWith declared rest).later
  next parameters rest =>
      exact (covers_parameterOccurrences inWith parameters).below.first.append
        (covers_functionOccurrences inWith declared rest).later
  next tree rest _ _ =>
      refine .append ?_ (covers_functionOccurrences inWith declared rest).later
      split
      next hname =>
          rw [Bool.and_eq_true] at hname
          exact (Covers.name hname.2 _ inWith).first
      · exact (covers_occurrences inWith false tree).first
termination_by sizeOf trees
decreasing_by all_goals subst_vars; simp only [List.cons.sizeOf_spec, Tree.node.sizeOf_spec]; omega

theorem covers_parameterOccurrences (inWith : Bool) (trees : List Tree) :
    Covers (declaredNamesAll trees) (parameterOccurrences inWith trees) := by
  cases trees with
  | nil => exact .nil
  | cons tree rest =>
      rw [parameterOccurrences]
      refine .append ?_ (covers_parameterOccurrences inWith rest).later
      split
      next hname => exact (Covers.name hname _ inWith).first
      · exact (covers_occurrences inWith false tree).first
termination_by sizeOf trees
decreasing_by all_goals simp only [List.cons.sizeOf_spec]; omega

end

end Tree

/-! ### What a contribution offers -/

/-- Whether a contribution lets other documents call a name: as a macro, or as a variable
that is not the document's own. -/
def Contribution.Offers (c : Contribution) (name : String) : Prop :=
  (∃ record ∈ c.macros, record.name = name) ∨
    ∃ record ∈ c.declarations, record.name = name ∧ record.scope ≠ .ofDocument

theorem Contribution.Offers.defines {c : Contribution} {name : String} (h : c.Offers name) :
    c.Defines name :=
  h.imp_right fun ⟨record, hrecord, hname, _⟩ => ⟨record, hrecord, hname⟩

/-- What a document records under a name is declared in its text. -/
theorem Names.declared_of_defines {view : DocumentView} {name : String}
    (h : (Names.contribution view).Defines name) : name ∈ Calls.declaredNames view.tree := by
  rcases State.defines_foldl_add h with hempty | ⟨o, ho, huse, hname⟩
  · rcases hempty with ⟨_, hrecord, _⟩ | ⟨_, hrecord, _⟩ <;> cases hrecord
  · rw [← hname]
    exact Tree.covers_occurrences false false view.tree o ho huse

/-- What a document offers to others is declared in its text. -/
theorem Names.declared_of_offers {view : DocumentView} {name : String}
    (h : (Names.contribution view).Offers name) : name ∈ Calls.declaredNames view.tree :=
  declared_of_defines h.defines

end Gml
