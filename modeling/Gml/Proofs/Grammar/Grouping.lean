import Gml.Proofs.Grammar.Realized
import Gml.Proofs.Parse.Shape

/-!
# How operators group

Where an expression ends, nothing follows that could extend it at its power. So the operands of
every operator bind at least as tightly as the operator asks for, in texts with errors too: a fault
leaves the way in which the nodes are put around each other as it is.
-/
namespace Gml

namespace Tree

/-- The tree can be an operand at the power. -/
def Binds (power : Nat) : Tree → Prop
  | .node .ternaryExpr _ => power = 0
  | .node .binaryExpr children => ∃ left operator right leftPower rightPower,
      children = [left, .leaf operator, right] ∧
      operator.kind.infixPower? = some (leftPower, rightPower) ∧ power ≤ leftPower
  | _ => True

/-- What follows the tree extends nothing at its right edge. -/
def Closed (next : TokenKind) : Tree → Prop
  | .node .unaryExpr _ => Plan.extension? TokenKind.unaryPower next = none
  | .node .ternaryExpr _ => Plan.extension? 0 next = none
  | .node .binaryExpr children => ∃ left operator right leftPower rightPower,
      children = [left, .leaf operator, right] ∧
      operator.kind.infixPower? = some (leftPower, rightPower) ∧
      Plan.extension? rightPower next = none
  | _ => True

/-- An expression that needs no parentheses in front of what binds most tightly. -/
def Tight : Tree → Prop
  | .node .unaryExpr _ | .node .binaryExpr _ | .node .ternaryExpr _ => False
  | _ => True

end Tree

/-- The operands of an operator can stand there without parentheses. -/
def NodeKind.Groups : NodeKind → List Tree → Prop
  | .binaryExpr, children => ∃ left operator right leftPower rightPower,
      children = [left, .leaf operator, right] ∧
      operator.kind.infixPower? = some (leftPower, rightPower) ∧
      left.Binds leftPower ∧ right.Binds rightPower
  | .unaryExpr, children => ∃ sign operand, children = [.leaf sign, operand] ∧
      operand.Binds TokenKind.unaryPower
  | .ternaryExpr, children => ∃ test rest, children = test :: rest ∧ ¬test.hasKind .ternaryExpr
  | .fieldExpr, children | .callExpr, children | .indexExpr, children | .postfixExpr, children =>
      ∃ base rest, children = base :: rest ∧ base.Tight
  | _, _ => True

namespace Tree

/-- Every node of the tree groups its operands. -/
def Grouped (tree : Tree) : Prop :=
  ∀ kind children, .node kind children ∈ tree.preorder → kind.Groups children

theorem grouped_leaf (token : Token) : (leaf token).Grouped := by
  intro kind children hmem
  rw [preorder, List.mem_singleton] at hmem
  cases hmem

theorem grouped_node {kind : NodeKind} {children : List Tree} (h : kind.Groups children)
    (hchildren : ∀ child ∈ children, child.Grouped) : (node kind children).Grouped := by
  intro other trees hmem
  rw [preorder] at hmem
  rcases List.mem_cons.mp hmem with heq | hbelow
  · cases heq
    exact h
  · obtain ⟨child, hchild, hmem⟩ := mem_preorderAll.mp hbelow
    exact hchildren child hchild other trees hmem

theorem Tight.binds {tree : Tree} (h : tree.Tight) (power : Nat) : tree.Binds power := by
  unfold Binds
  split
  · exact h.elim
  · exact h.elim
  · trivial

theorem Tight.closed {tree : Tree} (h : tree.Tight) (next : TokenKind) : tree.Closed next := by
  unfold Closed
  split
  · exact h.elim
  · exact h.elim
  · exact h.elim
  · trivial

end Tree

/-! ### What a run adds -/

/-- Some trees are added, in which every node groups its operands. -/
def Cursor.Adds (c d : Cursor) : Prop :=
  ∃ more, d.trees = more ++ c.trees ∧ ∀ tree ∈ more, tree.Grouped

/-- One such tree is added, which nothing behind it extends at the power. -/
def Cursor.AddsExpression (power : Nat) (c d : Cursor) : Prop :=
  ∃ tree, d.trees = tree :: c.trees ∧ tree.Grouped ∧ tree.Binds power ∧ tree.Closed d.kind ∧
    Plan.extension? power d.kind = none

/-- The last tree is extended to one that nothing behind it extends at the power. -/
def Cursor.Extends (power : Nat) (c d : Cursor) : Prop :=
  ∀ left before, c.trees = left :: before → left.Grouped → left.Binds power → left.Closed c.kind →
    ∃ tree, d.trees = tree :: before ∧ tree.Grouped ∧ tree.Binds power ∧ tree.Closed d.kind ∧
      Plan.extension? power d.kind = none

/-- What the rules do. -/
def Rule.Groups : Rule → Cursor → Cursor → Prop
  | .expression power => Cursor.AddsExpression power
  | .extension power => Cursor.Extends power
  | _ => Cursor.Adds

namespace Cursor

variable {c d e : Cursor}

theorem Adds.refl (c : Cursor) : c.Adds c := ⟨[], rfl, by simp⟩

theorem Adds.trans (h : c.Adds d) (k : d.Adds e) : c.Adds e := by
  obtain ⟨first, hd, hfirst⟩ := h
  obtain ⟨second, he, hsecond⟩ := k
  refine ⟨second ++ first, by rw [he, hd, List.append_assoc], fun tree htree => ?_⟩
  rcases List.mem_append.mp htree with htree | htree
  · exact hsecond tree htree
  · exact hfirst tree htree

theorem AddsExpression.adds {power : Nat} (h : c.AddsExpression power d) : c.Adds d := by
  obtain ⟨tree, hd, hgrouped, -⟩ := h
  exact ⟨[tree], hd, by simpa using hgrouped⟩

end Cursor

namespace Plan

open Cursor

/-- Every run of the plan adds some trees. -/
def Adds (plan : Plan) : Prop := ∀ c d, plan.Meaning Rule.Groups c d → c.Adds d

theorem adds_done : done.Adds := by
  rintro c d rfl
  exact .refl d

theorem adds_fault (missing : Fault) : (fault missing).Adds := by
  rintro c d rfl
  exact .refl d

theorem adds_take : take.Adds := by
  rintro c d ⟨token, -, hd⟩
  exact ⟨[.leaf token], hd, by simpa using Tree.grouped_leaf token⟩

theorem Adds.seq {first second : Plan} (h : first.Adds) (k : second.Adds) :
    (first.seq second).Adds := by
  rintro c e ⟨d, hfirst, hsecond⟩
  exact (h c d hfirst).trans (k d e hsecond)

theorem adds_look {choose : TokenKind → String → Plan} (h : ∀ kind text, (choose kind text).Adds) :
    (look choose).Adds :=
  fun c d hrun => h c.kind c.text c d hrun

theorem Adds.choice {plan other : Plan} (test : TokenKind → Bool) (h : plan.Adds) (k : other.Adds) :
    (choice test plan other).Adds := by
  refine adds_look fun kind _ => ?_
  split
  · exact h
  · exact k

theorem Adds.option {plan : Plan} (test : TokenKind → Bool) (h : plan.Adds) :
    (option test plan).Adds :=
  h.choice test adds_done

theorem Adds.orFault {plan : Plan} (h : plan.Adds) (kind : TokenKind) (missing : Fault) :
    (orFault kind plan missing).Adds :=
  h.choice _ (adds_fault missing)

theorem adds_expect (kind : TokenKind) (missing : Fault) : (expect kind missing).Adds :=
  adds_take.orFault kind missing

theorem adds_skip (kind : TokenKind) : (skip kind).Adds := adds_take.option _

theorem Adds.encloses {body : Plan} (h : body.Adds) {kind : NodeKind}
    (hkind : ∀ children, kind.Groups children) {c d : Cursor}
    (hrun : (node kind body).Meaning Rule.Groups c d) :
    ∃ children, d.trees = .node kind children :: c.trees ∧ (Tree.node kind children).Grouped := by
  obtain ⟨inner, hbody, hd⟩ := hrun
  obtain ⟨more, hmore, hgrouped⟩ := h _ _ hbody
  obtain rfl : inner = more := hmore.trans (List.append_nil more)
  exact ⟨_, hd, Tree.grouped_node (hkind _) fun child hchild =>
    hgrouped child (List.mem_reverse.mp hchild)⟩

theorem Adds.node {body : Plan} (h : body.Adds) {kind : NodeKind}
    (hkind : ∀ children, kind.Groups children) : (node kind body).Adds := by
  intro c d hrun
  obtain ⟨children, hd, hgrouped⟩ := h.encloses hkind hrun
  exact ⟨[_], hd, by simpa using hgrouped⟩

theorem adds_expression (power : Nat) : (rule (.expression power)).Adds :=
  fun _ _ h => AddsExpression.adds h

theorem adds_rule {called : Rule} (h : called.Groups = Cursor.Adds) : (rule called).Adds := by
  intro c d hrun
  have hadds : called.Groups c d := hrun
  rwa [h] at hadds

/-- A node around the last tree takes its place. -/
theorem Adds.wraps {body : Plan} (h : body.Adds) {kind : NodeKind} {c d : Cursor} {left : Tree}
    {before : List Tree} (hc : c.trees = left :: before)
    (hrun : (wrap kind body).Meaning Rule.Groups c d) : ∃ more, (∀ tree ∈ more, tree.Grouped) ∧
      d.trees = .node kind (left :: more) :: before := by
  obtain ⟨inner, hbody, hd⟩ := hrun
  rw [hc] at hbody hd
  obtain ⟨more, hmore, hgrouped⟩ := h _ _ hbody
  obtain rfl : inner = more ++ [left] := hmore
  refine ⟨more.reverse, fun tree htree => hgrouped tree (List.mem_reverse.mp htree), ?_⟩
  rw [hd, List.reverse_append]
  rfl

/-! ### Parts without operands -/

theorem adds_name : name.Adds := adds_take.node fun _ => trivial

theorem adds_anyExpression : anyExpression.Adds := adds_expression 0

theorem adds_expressionAfter : expressionAfter.Adds := adds_take.seq adds_anyExpression

theorem adds_failAndTake (missing : Fault) : (failAndTake missing).Adds :=
  (adds_fault missing).seq (adds_done.choice _ (adds_take.node fun _ => trivial))

theorem Adds.beforeComma {plan more : Plan} (h : plan.Adds) (k : more.Adds) :
    (plan.seq (moreAfterComma more)).Adds :=
  h.seq ((adds_take.seq k).option _)

theorem adds_block : block.Adds :=
  ((adds_take.seq (adds_rule rfl)).seq (adds_expect _ _)).node fun _ => trivial

theorem adds_parameter : parameter.Adds := adds_name.seq (adds_expressionAfter.option _)

theorem adds_constructorWord : constructorWord.Adds := by
  refine adds_look fun kind text => ?_
  split
  · exact adds_take
  · exact adds_done

theorem adds_functionParts : functionParts.Adds := by
  have hparameters : parameterList.Adds :=
    ((adds_take.seq (adds_rule rfl)).seq (adds_expect _ _)).node fun _ => trivial
  exact (((adds_take.seq (adds_name.option _)).seq (hparameters.orFault _ _)).seq
    adds_constructorWord).seq (adds_block.orFault _ _)

theorem adds_argumentList : argumentList.Adds :=
  ((adds_take.seq (adds_rule rfl)).seq (adds_expect _ _)).node fun _ => trivial

/-- Every operand but one with a sign in front is a tight one. -/
theorem primary_adds (kind : TokenKind) {c d : Cursor}
    (h : (primary kind).Meaning Rule.Groups c d) :
    ∃ tree, d.trees = tree :: c.trees ∧ tree.Grouped ∧ tree.Tight := by
  have hnode : ∀ {body : Plan} (nodeKind : NodeKind), body.Adds →
      (∀ children, nodeKind.Groups children) → (∀ children, (Tree.node nodeKind children).Tight) →
      (node nodeKind body).Meaning Rule.Groups c d →
      ∃ tree, d.trees = tree :: c.trees ∧ tree.Grouped ∧ tree.Tight := by
    intro body nodeKind hbody hkind htight hrun
    obtain ⟨children, hd, hgrouped⟩ := hbody.encloses hkind hrun
    exact ⟨_, hd, hgrouped, htight children⟩
  unfold primary at h
  split at h
  iterate 5 exact hnode .literal adds_take (fun _ => trivial) (fun _ => trivial) h
  iterate 6 exact hnode .nameRef adds_take (fun _ => trivial) (fun _ => trivial) h
  · exact hnode .functionExpr adds_functionParts (fun _ => trivial) (fun _ => trivial) h
  · exact hnode .parenExpr (adds_expressionAfter.seq (adds_expect _ _)) (fun _ => trivial)
      (fun _ => trivial) h
  · exact hnode .arrayLiteral ((adds_take.seq (adds_rule rfl)).seq (adds_expect _ _))
      (fun _ => trivial) (fun _ => trivial) h
  · exact hnode .error ((adds_fault _).seq (adds_done.choice _ adds_take)) (fun _ => trivial)
      (fun _ => trivial) h

theorem prefixPower?_eq {kind : TokenKind} {power : Nat} (h : kind.prefixPower? = some power) :
    power = TokenKind.unaryPower := by
  cases kind <;> cases h <;> rfl

theorem operand_adds {c d : Cursor} (h : operand.Meaning Rule.Groups c d) (power : Nat) :
    ∃ tree, d.trees = tree :: c.trees ∧ tree.Grouped ∧ tree.Binds power ∧ tree.Closed d.kind := by
  unfold operand Meaning at h
  dsimp only at h
  split at h
  next sign hsign =>
      obtain rfl := prefixPower?_eq hsign
      obtain ⟨inner, ⟨e, ⟨token, -, he⟩, tree, hinner, hgrouped, hbinds, -, hclosed⟩, hd⟩ := h
      obtain rfl : inner = [tree, .leaf token] := hinner.trans (by rw [he])
      refine ⟨_, hd, Tree.grouped_node ⟨token, tree, rfl, hbinds⟩ ?_, trivial, hclosed⟩
      simp [hgrouped, Tree.grouped_leaf]
  next =>
      obtain ⟨tree, hd, hgrouped, htight⟩ := primary_adds c.kind h
      exact ⟨tree, hd, hgrouped, htight.binds power, htight.closed d.kind⟩

/-! ### What extends an operand -/

theorem extension?_of_suffix {kind : TokenKind} {plan : Plan} (h : suffix? kind = some plan)
    (power : Nat) : extension? power kind = some plan := by
  rw [extension?, h]

/-- What is not closed where a suffix follows is tight. -/
theorem tight_of_suffix {left : Tree} {kind : TokenKind} {plan : Plan}
    (hclosed : left.Closed kind) (h : suffix? kind = some plan) : left.Tight := by
  have hsome := extension?_of_suffix h
  unfold Tree.Closed at hclosed
  split at hclosed
  · rw [hsome] at hclosed
    cases hclosed
  · rw [hsome] at hclosed
    cases hclosed
  · obtain ⟨-, -, -, -, rightPower, -, -, hnone⟩ := hclosed
    rw [hsome] at hnone
    cases hnone
  next hunary hternary hbinary =>
      unfold Tree.Tight
      split
      · exact hunary _ rfl
      · exact hbinary _ rfl
      · exact hternary _ rfl
      · trivial

theorem infixPower?_eq {kind : TokenKind} {left right : Nat}
    (h : kind.infixPower? = some (left, right)) :
    right = left + 1 ∧ 0 < left ∧ left < TokenKind.unaryPower := by
  cases kind <;> cases h <;> decide

theorem lt_of_extension?_eq_none {kind : TokenKind} {left right power : Nat}
    (hsuffix : suffix? kind = none) (h : kind.infixPower? = some (left, right))
    (hnone : extension? power kind = none) : left < power := by
  simpa [extension?, hsuffix, h] using hnone

/-- What is closed where an operator follows binds at least as tightly as the operator. -/
theorem binds_before_operator {left : Tree} {kind : TokenKind} {leftPower rightPower : Nat}
    (hclosed : left.Closed kind) (hsuffix : suffix? kind = none)
    (h : kind.infixPower? = some (leftPower, rightPower)) : left.Binds leftPower := by
  unfold Tree.Binds
  split
  next =>
      have hlt := lt_of_extension?_eq_none hsuffix h hclosed
      omega
  next =>
      obtain ⟨inner, operator, right, innerPower, edge, hchildren, hoperator, hnone⟩ := hclosed
      have hlt := lt_of_extension?_eq_none hsuffix h hnone
      have hedge := infixPower?_eq hoperator
      exact ⟨inner, operator, right, innerPower, edge, hchildren, hoperator, by omega⟩
  next => trivial

theorem field_adds : (take.seq (orFault .ident name .noFieldName)).Adds :=
  adds_take.seq (adds_name.orFault _ _)

theorem index_adds : (((take.seq anyExpression).seq (rule .indices)).seq
    (expect .rBracket .noCloseBracket)).Adds :=
  ((adds_take.seq adds_anyExpression).seq (adds_rule rfl)).seq (adds_expect _ _)

theorem suffix_adds {kind : TokenKind} {plan : Plan} (h : suffix? kind = some plan) {c d : Cursor}
    {left : Tree} {before : List Tree} (hc : c.trees = left :: before) (hgrouped : left.Grouped)
    (htight : left.Tight) (hrun : plan.Meaning Rule.Groups c d) :
    ∃ tree, d.trees = tree :: before ∧ tree.Grouped ∧ tree.Tight := by
  have hwrap : ∀ {body : Plan} (nodeKind : NodeKind), body.Adds →
      (∀ more, nodeKind.Groups (left :: more)) → (∀ more, (Tree.node nodeKind more).Tight) →
      (wrap nodeKind body).Meaning Rule.Groups c d →
      ∃ tree, d.trees = tree :: before ∧ tree.Grouped ∧ tree.Tight := by
    intro body nodeKind hbody hkind hnode hrun
    obtain ⟨more, hmore, hd⟩ := hbody.wraps hc hrun
    refine ⟨_, hd, Tree.grouped_node (hkind more) fun child hchild => ?_, hnode _⟩
    rcases List.mem_cons.mp hchild with rfl | hchild
    · exact hgrouped
    · exact hmore child hchild
  unfold suffix? at h
  split at h
  · cases h
    exact hwrap .fieldExpr field_adds (fun _ => ⟨_, _, rfl, htight⟩) (fun _ => trivial) hrun
  · cases h
    exact hwrap .callExpr adds_argumentList (fun _ => ⟨_, _, rfl, htight⟩) (fun _ => trivial) hrun
  · cases h
    exact hwrap .postfixExpr adds_take (fun _ => ⟨_, _, rfl, htight⟩) (fun _ => trivial) hrun
  · cases h
    exact hwrap .postfixExpr adds_take (fun _ => ⟨_, _, rfl, htight⟩) (fun _ => trivial) hrun
  · split at h
    · cases h
      exact hwrap .indexExpr index_adds (fun _ => ⟨_, _, rfl, htight⟩) (fun _ => trivial) hrun
    · cases h

theorem binary_adds {kind : TokenKind} {leftPower rightPower power : Nat}
    (hpower : kind.infixPower? = some (leftPower, rightPower)) (hle : power ≤ leftPower)
    {c d : Cursor} {left : Tree} {before : List Tree} (hkind : c.kind = kind)
    (hc : c.trees = left :: before) (hgrouped : left.Grouped) (hbinds : left.Binds leftPower)
    (hrun : (binary rightPower).Meaning Rule.Groups c d) :
    ∃ tree, d.trees = tree :: before ∧ tree.Grouped ∧ tree.Binds power ∧ tree.Closed d.kind := by
  obtain ⟨inner, ⟨e, ⟨operator, hrest, he⟩, right, hinner, hright, hbinds', -, hclosed⟩, hd⟩ := hrun
  rw [hc] at he hd
  obtain rfl : inner = [right, .leaf operator, left] := hinner.trans (by rw [he]; rfl)
  have hoperator : operator.kind.infixPower? = some (leftPower, rightPower) := by
    have hnext : c.kind = operator.kind := by
      unfold Cursor.kind
      rw [show c.rest = _ from hrest]
    rw [← hnext, hkind, hpower]
  refine ⟨.node .binaryExpr [left, .leaf operator, right], hd, ?_, ?_, ?_⟩
  · refine Tree.grouped_node ⟨_, _, _, _, _, rfl, hoperator, hbinds, hbinds'⟩ ?_
    simp [hgrouped, hright, Tree.grouped_leaf]
  · exact ⟨_, _, _, _, _, rfl, hoperator, hle⟩
  · exact ⟨_, _, _, _, _, rfl, hoperator, hclosed⟩

theorem conditional_adds {c d : Cursor} {left : Tree} {before : List Tree}
    (hc : c.trees = left :: before) (hgrouped : left.Grouped) (htest : ¬left.hasKind .ternaryExpr)
    (hrun : conditional.Meaning Rule.Groups c d) :
    ∃ tree, d.trees = tree :: before ∧ tree.Grouped ∧ tree.Binds 0 ∧ tree.Closed d.kind := by
  obtain ⟨inner, ⟨e, hfirst, other, hinner, hother, -, -, hclosed⟩, hd⟩ := hrun
  obtain ⟨more, he, hmore⟩ := (adds_expressionAfter.seq (adds_expect _ _)) _ e hfirst
  rw [hc] at he hd
  obtain rfl : inner = other :: (more ++ [left]) := hinner.trans (by rw [he]; rfl)
  rw [List.reverse_cons, List.reverse_append] at hd
  refine ⟨_, hd, Tree.grouped_node ⟨left, _, rfl, htest⟩ fun child hchild => ?_, rfl, hclosed⟩
  rcases List.mem_append.mp hchild with hfront | hlast
  · rcases List.mem_append.mp hfront with hleft | hmid
    · rw [List.mem_singleton.mp (List.mem_reverse.mp hleft)]
      exact hgrouped
    · exact hmore child (List.mem_reverse.mp hmid)
  · rw [List.mem_singleton.mp hlast]
    exact hother

/-- An operand is extended as often as something follows that binds tightly enough. -/
theorem extension_extends {power : Nat} {c d : Cursor}
    (h : (body (.extension power)).Meaning Rule.Groups c d) : c.Extends power d := by
  intro left before hc hgrouped hbinds hclosed
  unfold body Meaning at h
  dsimp only at h
  cases hplan : extension? power c.kind with
  | none =>
      rw [hplan] at h
      obtain rfl : d = c := h
      exact ⟨left, hc, hgrouped, hbinds, hclosed, hplan⟩
  | some plan =>
      rw [hplan] at h
      obtain ⟨e, hfirst, hmore⟩ := h
      -- A suffix, an operator or a conditional: each leaves one tree in the place of the operand.
      obtain ⟨tree, he, htree⟩ : ∃ tree, e.trees = tree :: before ∧ tree.Grouped ∧
          tree.Binds power ∧ tree.Closed e.kind := by
        unfold extension? at hplan
        split at hplan
        next hsuffix =>
            cases hplan
            obtain ⟨tree, he, hgrouped', htight⟩ :=
              suffix_adds hsuffix hc hgrouped (tight_of_suffix hclosed hsuffix) hfirst
            exact ⟨tree, he, hgrouped', htight.binds power, htight.closed e.kind⟩
        next hsuffix =>
            split at hplan
            next leftPower rightPower hpower =>
                split at hplan
                next => cases hplan
                next hlt =>
                    cases hplan
                    exact binary_adds hpower (Nat.le_of_not_lt hlt) rfl hc hgrouped
                      (binds_before_operator hclosed hsuffix hpower) hfirst
            next hpower =>
                split at hplan
                next hquestion =>
                    cases hplan
                    rw [Bool.and_eq_true, beq_iff_eq, beq_iff_eq] at hquestion
                    obtain ⟨hkind, rfl⟩ := hquestion
                    refine conditional_adds hc hgrouped (fun hternary => ?_) hfirst
                    -- A conditional in front of a question mark would have taken it itself.
                    rw [hkind] at hclosed
                    cases left with
                    | leaf token => cases hternary
                    | node kind children =>
                        obtain rfl : kind = .ternaryExpr := by simpa [Tree.hasKind] using hternary
                        cases hclosed
                next => cases hplan
      obtain ⟨hgrouped', hbinds', hclosed'⟩ := htree
      exact hmore tree before he hgrouped' hbinds' hclosed'

theorem expression_adds {power : Nat} {c d : Cursor}
    (h : (body (.expression power)).Meaning Rule.Groups c d) : c.AddsExpression power d := by
  obtain ⟨e, hoperand, hmore⟩ := h
  obtain ⟨left, he, hgrouped, hbinds, hclosed⟩ := operand_adds hoperand power
  exact hmore left c.trees he hgrouped hbinds hclosed

/-! ### Statements -/

theorem adds_terminator (terminated : Bool) : (terminator terminated).Adds := by
  unfold terminator
  split
  · exact adds_skip _
  · exact adds_done

/-- A node around the expression that was read first. -/
theorem adds_expressionStatement (terminated : Bool) : (expressionStatement terminated).Adds := by
  have hterminator := adds_terminator terminated
  rintro c e ⟨d, ⟨left, hd, hgrouped, -⟩, hrest⟩
  have hwrap : ∀ {body : Plan} (kind : NodeKind), body.Adds → (∀ children, kind.Groups children) →
      (wrap kind body).Meaning Rule.Groups d e → c.Adds e := by
    intro body kind hbody hkind hrun
    obtain ⟨more, hmore, he⟩ := hbody.wraps hd hrun
    refine ⟨[_], he, fun tree htree => ?_⟩
    rw [List.mem_singleton.mp htree]
    refine Tree.grouped_node (hkind _) fun child hchild => ?_
    rcases List.mem_cons.mp hchild with rfl | hchild
    · exact hgrouped
    · exact hmore child hchild
  have heffect : effect.Adds := by
    rintro c d rfl
    exact .refl d
  unfold choice Meaning at hrest
  dsimp only at hrest
  split at hrest
  · exact hwrap .assignStmt (adds_expressionAfter.seq hterminator) (fun _ => trivial) hrest
  · exact hwrap .exprStmt (heffect.seq hterminator) (fun _ => trivial) hrest

theorem adds_varStatement (terminated : Bool) : (varStatement terminated).Adds :=
  ((adds_take.seq (adds_rule rfl)).seq (adds_terminator terminated)).node fun _ => trivial

theorem adds_enumDeclaration : enumDeclaration.Adds := by
  have hbody : enumBody.Adds := (adds_take.seq (adds_rule rfl)).seq (adds_expect _ _)
  exact (((adds_take.seq (adds_name.orFault _ _)).seq (hbody.orFault _ _)).seq
    (adds_skip _)).node fun _ => trivial

theorem adds_forHead : forHead.Adds := by
  have hstep := adds_expressionStatement false
  have hinit : forInit.Adds := (adds_varStatement false).choice _ (adds_done.choice _ hstep)
  exact (((((adds_take.seq hinit).seq (adds_expect _ _)).seq
    (adds_done.choice _ adds_anyExpression)).seq (adds_expect _ _)).seq
    (adds_done.choice _ hstep)).seq (adds_expect _ _)

theorem adds_clause (kind : TokenKind) : (clause kind).Adds := by
  unfold clause
  split
  · exact ((adds_expressionAfter.seq (adds_expect _ _)).seq (adds_rule rfl)).node fun _ => trivial
  · exact ((adds_take.seq (adds_expect _ _)).seq (adds_rule rfl)).node fun _ => trivial
  · exact (adds_fault _).seq (adds_rule rfl)

theorem adds_switchBody : switchBody.Adds := (adds_take.seq (adds_rule rfl)).seq (adds_expect _ _)

theorem adds_jumpStatement {kind : NodeKind} (hkind : ∀ children, kind.Groups children) :
    (jumpStatement kind).Adds :=
  (adds_take.seq (adds_skip _)).node hkind

theorem adds_headedStatement {kind : NodeKind} (hkind : ∀ children, kind.Groups children) :
    (headedStatement kind).Adds :=
  (adds_expressionAfter.seq (adds_rule rfl)).node hkind

theorem adds_elseBranch : elseBranch.Adds := (adds_take.seq (adds_rule rfl)).node fun _ => trivial

theorem adds_statement (kind : TokenKind) : (statement kind).Adds := by
  unfold statement
  split
  · exact adds_take.node fun _ => trivial
  · exact adds_block
  · exact adds_take.node fun _ => trivial
  · exact adds_varStatement true
  · exact ((adds_take.seq (adds_rule rfl)).seq (adds_skip _)).node fun _ => trivial
  · exact adds_enumDeclaration
  · exact adds_functionParts.node fun _ => trivial
  · exact (((adds_expressionAfter.seq (adds_skip _)).seq (adds_rule rfl)).seq
      (adds_elseBranch.option _)).node fun _ => trivial
  · exact ((adds_expressionAfter.seq (adds_skip _)).seq (adds_rule rfl)).node fun _ => trivial
  · exact (((adds_take.seq (adds_rule rfl)).seq (adds_expressionAfter.orFault _ _)).seq
      (adds_skip _)).node fun _ => trivial
  · exact ((adds_take.seq (adds_forHead.orFault _ _)).seq (adds_rule rfl)).node fun _ => trivial
  · exact adds_headedStatement fun _ => trivial
  · exact adds_headedStatement fun _ => trivial
  · exact (adds_expressionAfter.seq (adds_switchBody.orFault _ _)).node fun _ => trivial
  · exact adds_jumpStatement fun _ => trivial
  · exact adds_jumpStatement fun _ => trivial
  · exact adds_jumpStatement fun _ => trivial
  · exact ((adds_take.seq (adds_anyExpression.option _)).seq (adds_skip _)).node fun _ => trivial
  · exact adds_fault _
  · split
    · exact adds_expressionStatement true
    · exact adds_failAndTake _

theorem Adds.repeated {first : Plan} {more : Rule} (h : first.Adds)
    (hmore : more.Groups = Cursor.Adds) (stops : TokenKind → Bool) :
    (repeated stops first more).Adds :=
  adds_done.choice _ (h.seq (adds_rule hmore))

/-- Every rule keeps what the rules below it keep. -/
theorem groups_body (called : Rule) (c d : Cursor) (h : (body called).Meaning Rule.Groups c d) :
    called.Groups c d := by
  have henumMember : enumMember.Adds := adds_parameter.node fun _ => trivial
  have hmember : member.Adds :=
    (henumMember.beforeComma (adds_rule rfl)).choice _ ((adds_failAndTake _).seq (adds_rule rfl))
  have hdeclarator : declarator.Adds :=
    (adds_name.seq (adds_expressionAfter.option _)).node fun _ => trivial
  cases called with
  | file => exact (((adds_failAndTake _).choice _ (adds_rule rfl)).repeated rfl _) c d h
  | statement => exact adds_look (fun kind _ => adds_statement kind) c d h
  | statements => exact ((adds_rule rfl).repeated rfl _) c d h
  | clauseBody => exact ((adds_rule rfl).repeated rfl _) c d h
  | clauses => exact ((adds_look fun kind _ => adds_clause kind).repeated rfl _) c d h
  | expression power => exact expression_adds h
  | extension power => exact extension_extends h
  | items close =>
      exact (adds_done.choice _ (adds_anyExpression.beforeComma (adds_rule rfl))) c d h
  | indices => exact (adds_expressionAfter.repeated rfl _) c d h
  | parameters =>
      exact (adds_done.choice _ ((adds_parameter.beforeComma (adds_rule rfl)).orFault _ _)) c d h
  | declarators => exact ((hdeclarator.beforeComma (adds_rule rfl)).orFault _ _) c d h
  | names => exact ((adds_name.beforeComma (adds_rule rfl)).orFault _ _) c d h
  | members => exact (adds_done.choice _ hmember) c d h

end Plan

namespace Tree

mutual

/-- Without the blanks and comments every node keeps its place among the others. -/
theorem mem_preorder_bare {tree : Tree} {kind : NodeKind} {children : List Tree}
    (h : .node kind children ∈ tree.preorder) :
    .node kind (bareAll children) ∈ tree.bare.preorder := by
  match tree with
  | .leaf token =>
      rw [preorder, List.mem_singleton] at h
      cases h
  | .node _ _ =>
      rw [preorder] at h
      rw [bare, preorder]
      rcases List.mem_cons.mp h with heq | hbelow
      · cases heq
        exact List.mem_cons_self
      · exact List.mem_cons_of_mem _ (mem_preorderAll_bareAll hbelow)

theorem mem_preorderAll_bareAll {trees : List Tree} {kind : NodeKind} {children : List Tree}
    (h : .node kind children ∈ preorderAll trees) :
    .node kind (bareAll children) ∈ preorderAll (bareAll trees) := by
  match trees with
  | [] => cases h
  | tree :: trees =>
      rw [preorderAll] at h
      rw [bareAll]
      split
      next htrivia =>
          rcases List.mem_append.mp h with hfirst | hrest
          · cases tree with
            | leaf token =>
                rw [preorder, List.mem_singleton] at hfirst
                cases hfirst
            | node _ _ => cases htrivia
          · exact mem_preorderAll_bareAll hrest
      next =>
          rw [preorderAll]
          rcases List.mem_append.mp h with hfirst | hrest
          · exact List.mem_append_left _ (mem_preorder_bare hfirst)
          · exact List.mem_append_right _ (mem_preorderAll_bareAll hrest)

end

mutual

/-- Every node that is left was a node with blanks and comments before. -/
theorem exists_of_mem_preorder_bare {tree : Tree} {kind : NodeKind} {children : List Tree}
    (h : .node kind children ∈ tree.bare.preorder) :
    ∃ whole, .node kind whole ∈ tree.preorder ∧ bareAll whole = children := by
  match tree with
  | .leaf token =>
      rw [bare, preorder, List.mem_singleton] at h
      cases h
  | .node other below =>
      rw [bare, preorder] at h
      rw [preorder]
      rcases List.mem_cons.mp h with heq | hbelow
      · cases heq
        exact ⟨below, List.mem_cons_self, rfl⟩
      · obtain ⟨whole, hwhole, hbare⟩ := exists_of_mem_preorderAll_bareAll hbelow
        exact ⟨whole, List.mem_cons_of_mem _ hwhole, hbare⟩

theorem exists_of_mem_preorderAll_bareAll {trees : List Tree} {kind : NodeKind}
    {children : List Tree} (h : .node kind children ∈ preorderAll (bareAll trees)) :
    ∃ whole, .node kind whole ∈ preorderAll trees ∧ bareAll whole = children := by
  match trees with
  | [] => cases h
  | tree :: trees =>
      rw [bareAll] at h
      rw [preorderAll]
      split at h
      · obtain ⟨whole, hwhole, hbare⟩ := exists_of_mem_preorderAll_bareAll h
        exact ⟨whole, List.mem_append_right _ hwhole, hbare⟩
      · rw [preorderAll] at h
        rcases List.mem_append.mp h with hfirst | hrest
        · obtain ⟨whole, hwhole, hbare⟩ := exists_of_mem_preorder_bare hfirst
          exact ⟨whole, List.mem_append_left _ hwhole, hbare⟩
        · obtain ⟨whole, hwhole, hbare⟩ := exists_of_mem_preorderAll_bareAll hrest
          exact ⟨whole, List.mem_append_right _ hwhole, hbare⟩

end

end Tree

/-- In the tree of any text every node groups its operands. -/
theorem parse_grouped (text : String) {kind : NodeKind} {children : List Tree}
    (h : .node kind children ∈ (parse text).tree.preorder) :
    kind.Groups (Tree.bareAll children) := by
  obtain ⟨trees, reports, hruns, htree, hleaves, -⟩ := parse_runs text
  obtain ⟨more, hmore, hgrouped⟩ : Cursor.Adds _ _ := hruns.meaning Plan.groups_body
  rw [List.append_nil] at hmore
  have hbare : (parse text).tree.bare = .node .sourceFile trees := by
    rw [htree, Tree.bare_weaveRoot _ _ _ hleaves.symm]
  have hroot : (parse text).tree.bare.Grouped := by
    rw [hbare]
    refine Tree.grouped_node trivial fun child hchild => hgrouped child ?_
    rwa [← hmore, List.mem_reverse]
  exact hroot kind _ (Tree.mem_preorder_bare h)

namespace Tree

/-- The operator of a binary expression without blanks and comments. -/
def operator? : Tree → Option TokenKind
  | .node .binaryExpr [_, .leaf operator, _] => some operator.kind
  | _ => none

theorem Binds.operator {power : Nat} {tree : Tree} (h : tree.Binds power)
    (hbinary : tree.hasKind .binaryExpr = true) : ∃ operator leftPower rightPower,
      tree.operator? = some operator ∧ operator.infixPower? = some (leftPower, rightPower) ∧
      power ≤ leftPower := by
  cases tree with
  | leaf token => cases hbinary
  | node kind children =>
      obtain rfl : kind = .binaryExpr := by simpa [hasKind] using hbinary
      obtain ⟨left, operator, right, leftPower, rightPower, rfl, hoperator, hle⟩ := h
      exact ⟨operator.kind, leftPower, rightPower, rfl, hoperator, hle⟩

theorem Binds.not_ternary {power : Nat} {tree : Tree} (h : tree.Binds power) (hpower : 0 < power) :
    tree.hasKind .ternaryExpr = false := by
  by_contra hternary
  cases tree with
  | leaf token => exact hternary rfl
  | node kind children =>
      obtain rfl : kind = .ternaryExpr := by simpa [hasKind] using hternary
      obtain rfl : power = 0 := h
      exact Nat.lt_irrefl 0 hpower

/-- No operator binds as tightly as a sign. -/
theorem Binds.not_binary {tree : Tree} (h : tree.Binds TokenKind.unaryPower) :
    tree.hasKind .binaryExpr = false := by
  by_contra hbinary
  obtain ⟨operator, leftPower, rightPower, -, hoperator, hle⟩ :=
    h.operator (by simpa using hbinary)
  have hlt := (Plan.infixPower?_eq hoperator).2.2
  omega

theorem Tight.kinds {tree : Tree} (h : tree.Tight) : tree.hasKind .unaryExpr = false ∧
    tree.hasKind .binaryExpr = false ∧ tree.hasKind .ternaryExpr = false := by
  cases tree with
  | leaf token => exact ⟨rfl, rfl, rfl⟩
  | node kind children =>
      have hkinds : kind ≠ .unaryExpr ∧ kind ≠ .binaryExpr ∧ kind ≠ .ternaryExpr := by
        refine ⟨?_, ?_, ?_⟩ <;> rintro rfl <;> exact h
      simpa [hasKind] using hkinds

end Tree

/-- In the tree of any text the operands of every operator bind as tightly as its powers ask for:
to the left at least as tightly as the operator, to the right more tightly. Behind a sign there is
no binary expression, a conditional is no operand of an operator and no condition, and what a
field, a call, an index or a step is put behind is none of these. -/
theorem parse_respects_precedence (text : String) :
    (∀ children, .node .binaryExpr children ∈ (parse text).tree.preorder →
      ∃ left operator right leftPower rightPower,
        Tree.bareAll children = [left, .leaf operator, right] ∧
        operator.kind.infixPower? = some (leftPower, rightPower) ∧
        (left.hasKind .binaryExpr = true → ∃ inner innerPower edge, left.operator? = some inner ∧
          inner.infixPower? = some (innerPower, edge) ∧ leftPower ≤ innerPower) ∧
        (right.hasKind .binaryExpr = true → ∃ inner innerPower edge, right.operator? = some inner ∧
          inner.infixPower? = some (innerPower, edge) ∧ leftPower < innerPower) ∧
        left.hasKind .ternaryExpr = false ∧ right.hasKind .ternaryExpr = false) ∧
    (∀ children, .node .unaryExpr children ∈ (parse text).tree.preorder →
      ∃ sign operand, Tree.bareAll children = [.leaf sign, operand] ∧
        operand.hasKind .binaryExpr = false ∧ operand.hasKind .ternaryExpr = false) ∧
    (∀ children, .node .ternaryExpr children ∈ (parse text).tree.preorder →
      ∃ test rest, Tree.bareAll children = test :: rest ∧ test.hasKind .ternaryExpr = false) ∧
    (∀ kind children, kind ∈ [.fieldExpr, .callExpr, .indexExpr, NodeKind.postfixExpr] →
      .node kind children ∈ (parse text).tree.preorder →
      ∃ base rest, Tree.bareAll children = base :: rest ∧ base.hasKind .unaryExpr = false ∧
        base.hasKind .binaryExpr = false ∧ base.hasKind .ternaryExpr = false) := by
  refine ⟨fun children h => ?_, fun children h => ?_, fun children h => ?_,
    fun kind children hkind h => ?_⟩
  · obtain ⟨left, operator, right, leftPower, rightPower, hchildren, hpower, hleft, hright⟩ :=
      parse_grouped text h
    obtain ⟨rfl, hpos, -⟩ := Plan.infixPower?_eq hpower
    exact ⟨left, operator, right, leftPower, _, hchildren, hpower, hleft.operator,
      hright.operator, hleft.not_ternary hpos, hright.not_ternary (Nat.succ_pos _)⟩
  · obtain ⟨sign, operand, hchildren, hoperand⟩ := parse_grouped text h
    exact ⟨sign, operand, hchildren, hoperand.not_binary, hoperand.not_ternary (by decide)⟩
  · obtain ⟨test, rest, hchildren, htest⟩ := parse_grouped text h
    exact ⟨test, rest, hchildren, by simpa using htest⟩
  · have hbase : ∃ base rest, Tree.bareAll children = base :: rest ∧ base.Tight := by
      have hgroups := parse_grouped text h
      simp only [List.mem_cons, List.not_mem_nil, or_false] at hkind
      rcases hkind with rfl | rfl | rfl | rfl <;> exact hgroups
    obtain ⟨base, rest, hchildren, htight⟩ := hbase
    exact ⟨base, rest, hchildren, htight.kinds⟩

end Gml
