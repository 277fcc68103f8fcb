import Gml.Proofs.Grammar.Expr
import Gml.Proofs.Grammar.Grouping
import Gml.Proofs.Grammar.Finishing

/-!
# Parsing undoes printing

The tokens of a printed expression are read as its tree: first what stands at its left edge, and
then, while the tree grows, one operator or suffix after the other. An operand ends where its place
asks for: what follows does not extend its right edge, or there are parentheses around it.
-/
namespace Gml

namespace Tree

/-- The tree that a node stands for if its children stand for the given ones: that of the
expression in the parentheses. -/
def unwrapped : NodeKind → List Tree → Tree
  | .parenExpr, [_, inner, _] => inner
  | kind, children => .node kind children

mutual

/-- The tree without nodes for parentheses. -/
def withoutParens : Tree → Tree
  | .leaf token => .leaf token
  | .node kind children => unwrapped kind (withoutParensAll children)

def withoutParensAll : List Tree → List Tree
  | [] => []
  | tree :: trees => withoutParens tree :: withoutParensAll trees

end

/-- The tree without places and parentheses. -/
def plain (tree : Tree) : Tree := tree.placeless.withoutParens

def plainAll (trees : List Tree) : List Tree := withoutParensAll (placelessAll trees)

theorem plainAll_nil : plainAll [] = [] := rfl

theorem plainAll_cons (tree : Tree) (trees : List Tree) :
    plainAll (tree :: trees) = tree.plain :: plainAll trees := rfl

theorem plainAll_append (trees others : List Tree) :
    plainAll (trees ++ others) = plainAll trees ++ plainAll others := by
  induction trees with
  | nil => rfl
  | cons tree trees ih => rw [List.cons_append, plainAll_cons, plainAll_cons, ih, List.cons_append]

theorem plain_node {kind : NodeKind} (hkind : kind ≠ .parenExpr) (children : List Tree) :
    (node kind children).plain = .node kind (plainAll children) := by
  unfold plain placeless withoutParens unwrapped
  split
  · exact absurd rfl hkind
  · rfl

theorem plain_parens (first inner last : Tree) :
    (node .parenExpr [first, inner, last]).plain = inner.plain := rfl

end Tree

namespace Plan

/-! ### Where an expression can end -/

theorem extension?_mono {power greater : Nat} {kind : TokenKind}
    (h : extension? power kind = none) (hle : power ≤ greater) :
    extension? greater kind = none := by
  cases hsuffix : suffix? kind with
  | some plan => simp [extension?, hsuffix] at h
  | none =>
      cases hinfix : kind.infixPower? with
      | some powers =>
          simp only [extension?, hsuffix, hinfix, ite_eq_left_iff, reduceCtorEq, imp_false,
            Nat.not_lt, Nat.not_le] at h ⊢
          exact Nat.lt_of_lt_of_le h hle
      | none =>
          simp only [extension?, hsuffix, hinfix, Bool.and_eq_true, beq_iff_eq, ite_eq_right_iff,
            reduceCtorEq, imp_false, not_and] at h ⊢
          intro hquestion hzero
          exact h hquestion (Nat.le_zero.mp (hzero ▸ hle))

/-- The left and the right power of an operator. -/
theorem infixPower?_operator (operator : Word TokenKind.isOperator) :
    operator.kind.infixPower? =
      some (operator.kind.leftPower, operator.kind.leftPower + 1) := by
  have hfits := operator.fits
  cases hpowers : operator.kind.infixPower? with
  | none => simp [TokenKind.isOperator, hpowers] at hfits
  | some powers =>
      obtain ⟨left, right⟩ := powers
      obtain ⟨rfl, -, -⟩ := infixPower?_eq hpowers
      simp [TokenKind.leftPower, hpowers]

theorem extension?_operator {kind : TokenKind} {left right power : Nat}
    (h : kind.infixPower? = some (left, right)) :
    extension? power kind = if left < power then none else some (binary right) := by
  cases kind <;> cases h <;> rfl

end Plan

namespace Expr

open Plan

/-- The power at which something that follows would extend the right edge. -/
def edge? : Expr → Option Nat
  | .unary _ _ => some TokenKind.unaryPower
  | .binary _ operator _ => some (operator.kind.leftPower + 1)
  | .conditional _ _ _ => some 0
  | _ => none

/-- The expression ends in front of the token. -/
def Ends (e : Expr) (next : TokenKind) : Prop :=
  ∀ edge, e.edge? = some edge → extension? edge next = none

theorem power_le_edge {e : Expr} {edge : Nat} (h : e.edge? = some edge) : e.power ≤ edge := by
  cases e <;> cases h
  · exact Nat.le_refl _
  · exact Nat.le_succ _
  · exact Nat.le_refl _

/-- An operand ends where an expression at its place does. -/
theorem ends_of_le {e : Expr} {least : Nat} {next : TokenKind} (h : least ≤ e.power)
    (hnext : extension? least next = none) : e.Ends next :=
  fun _ hedge => extension?_mono hnext (Nat.le_trans h (power_le_edge hedge))

/-- What binds as tightly to the left as an operator ends in front of it. -/
theorem ends_before_operator {e : Expr} (operator : Word TokenKind.isOperator)
    (h : operator.kind.leftPower ≤ e.power) : e.Ends operator.kind := by
  have hpowers := infixPower?_operator operator
  obtain ⟨-, hpos, hlt⟩ := infixPower?_eq hpowers
  intro edge hedge
  rw [extension?_operator hpowers, if_pos]
  cases e <;> cases hedge
  · exact hlt
  · exact Nat.lt_succ_of_le h
  · exact absurd (Nat.lt_of_lt_of_le hpos h) (Nat.lt_irrefl 0)

/-- What is no conditional ends in front of a question mark. -/
theorem ends_before_question {e : Expr} (h : 1 ≤ e.power) : e.Ends .question :=
  ends_of_le h rfl

/-- Words and suffixes end in front of everything. -/
theorem ends_of_tight {e : Expr} (h : TokenKind.unaryPower + 1 ≤ e.power) (next : TokenKind) :
    e.Ends next := by
  intro edge hedge
  cases e <;> cases hedge
  · exact absurd h (Nat.not_succ_le_self _)
  next left operator right =>
      have hlt := (infixPower?_eq (infixPower?_operator operator)).2.2
      exact absurd (Nat.le_of_succ_le h) (Nat.not_le_of_lt hlt)
  · cases h

end Expr

/-! ### Steps of a run -/

namespace Plan

variable {plan : Plan} {c d e : Cursor} {kind : TokenKind} {token : Token} {rest : List Token}
  {trees : List Tree} {power : Nat} {test : TokenKind → Bool} {other : Plan}

theorem runs_chosen (htest : test c.kind = true) (h : Runs plan c d []) :
    Runs (choice test plan other) c d [] := by
  refine .look ?_
  rw [htest]
  exact h

theorem runs_other (htest : test c.kind = false) (h : Runs other c d []) :
    Runs (choice test plan other) c d [] := by
  refine .look ?_
  rw [htest]
  exact h

theorem runs_orFault {missing : Fault} (hkind : c.kind = kind) (h : Runs plan c d []) :
    Runs (orFault kind plan missing) c d [] :=
  runs_chosen (beq_iff_eq.mpr hkind) h

theorem runs_expect {missing : Fault} (hkind : token.kind = kind) :
    Runs (expect kind missing) ⟨token :: rest, trees⟩ ⟨rest, .leaf token :: trees⟩ [] :=
  runs_orFault hkind (.take _ _ _)

theorem runs_primary (hkind : token.kind = kind) (hsign : kind.prefixPower? = none)
    (h : Runs (primary kind) ⟨token :: rest, trees⟩ d []) :
    Runs operand ⟨token :: rest, trees⟩ d [] := by
  subst hkind
  refine .look ?_
  rw [kind_mk, nextKind_cons, hsign]
  exact h

theorem runs_signed {rest' : List Token} {tree : Tree}
    (hsign : token.kind.prefixPower? = some power)
    (h : Runs (rule (.expression power)) ⟨rest, [.leaf token]⟩ ⟨rest', [tree, .leaf token]⟩ []) :
    Runs operand ⟨token :: rest, trees⟩
      ⟨rest', .node .unaryExpr [.leaf token, tree] :: trees⟩ [] := by
  refine .look ?_
  rw [kind_mk, nextKind_cons, hsign]
  exact .node (.seq (.take _ _ _) h)

theorem runs_extension_none (hnone : extension? power (nextKind rest) = none)
    (trees : List Tree) : Runs (rule (.extension power)) ⟨rest, trees⟩ ⟨rest, trees⟩ [] := by
  have hbody : Runs (body (.extension power)) ⟨rest, trees⟩ ⟨rest, trees⟩ [] := by
    refine .look ?_
    rw [kind_mk, hnone]
    exact .done _
  exact .rule hbody

theorem runs_extension (hsome : extension? power (nextKind rest) = some plan)
    (h : Runs plan ⟨rest, trees⟩ d []) (hmore : Runs (rule (.extension power)) d e []) :
    Runs (rule (.extension power)) ⟨rest, trees⟩ e [] := by
  have hbody : Runs (body (.extension power)) ⟨rest, trees⟩ e [] := by
    refine .look ?_
    rw [kind_mk, hsome]
    exact .seq h hmore
  exact .rule hbody

end Plan

/-! ### Reading printed tokens -/

namespace Expr

open Plan

/-- Tokens with the given contents are read as a tree, at every power up to the given one, if they
stand in front of a token that lets them end; then what follows may extend the tree. -/
def ReadsAs (words : List (TokenKind × String)) (target : Tree) (bound : Nat)
    (ends : TokenKind → Prop) : Prop :=
  ∀ tokens, tokens.map Token.content = words → ∃ tree, tree.plain = target ∧
    ∀ power ≤ bound, ∀ rest, ends (nextKind rest) → ∀ trees d,
      Runs (rule (.extension power)) ⟨rest, tree :: trees⟩ d [] →
      Runs (rule (.expression power)) ⟨tokens ++ rest, trees⟩ d []

/-- The printed expression is read as its tree. -/
def Reads (e : Expr) : Prop := ReadsAs e.words e.tree e.power e.Ends

/-- The printed operand is read as its tree at a place that asks for the power. -/
def ReadsAt (e : Expr) (least : Nat) : Prop :=
  ReadsAs (wordsAt least e.power e.words) e.tree least fun next => least ≤ e.power → e.Ends next

/-- Tokens that are read as a whole expression: nothing extends the tree further. -/
def ReadsWhole (power : Nat) (tokens : List Token) (target : Tree) : Prop :=
  ∃ tree, tree.plain = target ∧ ∀ rest, extension? power (nextKind rest) = none → ∀ trees,
    Runs (rule (.expression power)) ⟨tokens ++ rest, trees⟩ ⟨rest, tree :: trees⟩ []

theorem Reads.whole {e : Expr} (h : e.Reads) {tokens : List Token}
    (htokens : tokens.map Token.content = e.words) : ReadsWhole 0 tokens e.tree := by
  obtain ⟨tree, htree, hreads⟩ := h tokens htokens
  exact ⟨tree, htree, fun rest hrest trees => hreads 0 (Nat.zero_le _) rest
    (ends_of_le (Nat.zero_le _) hrest) trees _ (runs_extension_none hrest _)⟩

theorem ReadsAt.whole {e : Expr} {least : Nat} (h : e.ReadsAt least) {tokens : List Token}
    (htokens : tokens.map Token.content = wordsAt least e.power e.words) :
    ReadsWhole least tokens e.tree := by
  obtain ⟨tree, htree, hreads⟩ := h tokens htokens
  exact ⟨tree, htree, fun rest hrest trees => hreads least (Nat.le_refl _) rest
    (fun hle => ends_of_le hle hrest) trees _ (runs_extension_none hrest _)⟩

/-- In parentheses an expression can stand anywhere. -/
theorem Reads.parens {e : Expr} (h : e.Reads) (bound : Nat) (ends : TokenKind → Prop) :
    ReadsAs ((.lParen, "(") :: (e.words ++ [(.rParen, ")")])) e.tree bound ends := by
  intro tokens htokens
  obtain ⟨opening, tokens, rfl, hopening, htokens⟩ := List.map_eq_cons_iff.mp htokens
  obtain ⟨inner, last, rfl, hinner, hlast⟩ := List.map_eq_append_iff.mp htokens
  obtain ⟨closing, rfl, hclosing⟩ := List.map_eq_singleton_iff.mp hlast
  obtain ⟨tree, htree, hreads⟩ := h.whole hinner
  have hopen : opening.kind = .lParen := congrArg Prod.fst hopening
  have hclose : closing.kind = .rParen := congrArg Prod.fst hclosing
  refine ⟨.node .parenExpr [.leaf opening, tree, .leaf closing],
    (Tree.plain_parens _ _ _).trans htree, fun power _ rest _ trees d hmore => ?_⟩
  have hnext : extension? 0 (nextKind (closing :: rest)) = none := by
    rw [nextKind_cons, hclose]
    rfl
  have hparens : Runs parenthesized ⟨opening :: (inner ++ closing :: rest), trees⟩
      ⟨rest, .node .parenExpr [.leaf opening, tree, .leaf closing] :: trees⟩ [] :=
    .node (.seq (.seq (.take _ _ _) (hreads _ hnext _)) (runs_expect hclose))
  rw [List.cons_append, List.append_assoc]
  exact .rule (.seq (runs_primary hopen rfl hparens) hmore)

theorem Reads.readsAt {e : Expr} (h : e.Reads) (least : Nat) : e.ReadsAt least := by
  unfold ReadsAt wordsAt
  split
  next => exact h.parens _ _
  next hle =>
      intro tokens htokens
      have hle' := Nat.le_of_not_lt hle
      obtain ⟨tree, htree, hreads⟩ := h tokens htokens
      exact ⟨tree, htree, fun power hpower rest hends =>
        hreads power (Nat.le_trans hpower hle') rest (hends hle')⟩

/-! ### Each kind of expression -/

theorem placeless_leaf {token : Token} {kind : TokenKind} {text : String}
    (h : token.content = (kind, text)) : (Tree.leaf token).placeless = sign kind text := by
  cases h
  rfl

theorem plain_leaf {token : Token} {kind : TokenKind} {text : String}
    (h : token.content = (kind, text)) : (Tree.leaf token).plain = sign kind text := by
  rw [Tree.plain, placeless_leaf h]
  rfl

variable {e left right callee base operand test yes no : Expr}

theorem reads_name (word : Word (· == .ident)) : (name word).Reads := by
  intro tokens htokens
  obtain ⟨token, rfl, htoken⟩ := List.map_eq_singleton_iff.mp htokens
  have hkind : token.kind = .ident :=
    (congrArg Prod.fst htoken).trans (beq_iff_eq.mp word.fits)
  refine ⟨.node .nameRef [.leaf token], ?_, fun power _ rest _ trees d hmore => ?_⟩
  · rw [Tree.plain_node (by decide), Tree.plainAll_cons, plain_leaf htoken]
    rfl
  · exact .rule (.seq (runs_primary hkind rfl (.node (.take _ _ _))) hmore)

theorem reads_real (word : Word (· == .realLiteral)) : (real word).Reads := by
  intro tokens htokens
  obtain ⟨token, rfl, htoken⟩ := List.map_eq_singleton_iff.mp htokens
  have hkind : token.kind = .realLiteral :=
    (congrArg Prod.fst htoken).trans (beq_iff_eq.mp word.fits)
  refine ⟨.node .literal [.leaf token], ?_, fun power _ rest _ trees d hmore => ?_⟩
  · rw [Tree.plain_node (by decide), Tree.plainAll_cons, plain_leaf htoken]
    rfl
  · exact .rule (.seq (runs_primary hkind rfl (.node (.take _ _ _))) hmore)

theorem reads_unary (sign : Word TokenKind.isSign)
    (hoperand : operand.ReadsAt TokenKind.unaryPower) : (unary sign operand).Reads := by
  intro tokens htokens
  obtain ⟨token, tokens, rfl, htoken, htokens⟩ := List.map_eq_cons_iff.mp htokens
  obtain ⟨tree, htree, hreads⟩ := hoperand.whole htokens
  have hkind : token.kind = sign.kind := congrArg Prod.fst htoken
  have hsign : token.kind.prefixPower? = some TokenKind.unaryPower := by
    rw [hkind]
    obtain ⟨power, hpower⟩ := Option.isSome_iff_exists.mp sign.fits
    rw [hpower, prefixPower?_eq hpower]
  refine ⟨.node .unaryExpr [.leaf token, tree], ?_, fun power _ rest hends trees d hmore => ?_⟩
  · rw [Tree.plain_node (by decide), Tree.plainAll_cons, Tree.plainAll_cons, plain_leaf htoken,
      htree]
    rfl
  · exact .rule (.seq (runs_signed hsign (hreads rest (hends _ rfl) _)) hmore)

theorem reads_binary (operator : Word TokenKind.isOperator)
    (hleft : left.ReadsAt operator.kind.leftPower)
    (hright : right.ReadsAt (operator.kind.leftPower + 1)) :
    (binary left operator right).Reads := by
  intro tokens htokens
  obtain ⟨before, tokens, rfl, hbefore, htokens⟩ := List.map_eq_append_iff.mp htokens
  obtain ⟨token, after, rfl, htoken, hafter⟩ := List.map_eq_cons_iff.mp htokens
  obtain ⟨tree, htree, hreads⟩ := hleft before hbefore
  obtain ⟨tree', htree', hreads'⟩ := hright.whole hafter
  have hkind : token.kind = operator.kind := congrArg Prod.fst htoken
  refine ⟨.node .binaryExpr [tree, .leaf token, tree'], ?_,
    fun power hpower rest hends trees d hmore => ?_⟩
  · rw [Tree.plain_node (by decide), Tree.plainAll_cons, Tree.plainAll_cons, Tree.plainAll_cons,
      plain_leaf htoken, htree, htree']
    rfl
  · have hpower' : power ≤ operator.kind.leftPower := hpower
    have hnext : nextKind (token :: (after ++ rest)) = operator.kind := hkind
    have hsome : extension? power (nextKind (token :: (after ++ rest))) =
        some (Plan.binary (operator.kind.leftPower + 1)) := by
      rw [hnext, extension?_operator (infixPower?_operator operator),
        if_neg (Nat.not_lt_of_le hpower')]
    rw [List.append_assoc]
    refine hreads power hpower _ (fun hle => ?_) trees d (runs_extension hsome ?_ hmore)
    · rw [List.cons_append, hnext]
      exact ends_before_operator operator hle
    · exact .wrap (.seq (.take _ _ _) (hreads' rest (hends _ rfl) _))

theorem reads_conditional (htest : test.ReadsAt 1) (hyes : yes.Reads) (hno : no.Reads) :
    (conditional test yes no).Reads := by
  intro tokens htokens
  obtain ⟨before, tokens, rfl, hbefore, htokens⟩ := List.map_eq_append_iff.mp htokens
  obtain ⟨question, tokens, rfl, hquestion, htokens⟩ := List.map_eq_cons_iff.mp htokens
  obtain ⟨middle, tokens, rfl, hmiddle, htokens⟩ := List.map_eq_append_iff.mp htokens
  obtain ⟨colon, after, rfl, hcolon, hafter⟩ := List.map_eq_cons_iff.mp htokens
  obtain ⟨tree, htree, hreads⟩ := htest before hbefore
  obtain ⟨tree', htree', hreads'⟩ := hyes.whole hmiddle
  obtain ⟨tree'', htree'', hreads''⟩ := hno.whole hafter
  have hkind : question.kind = .question := congrArg Prod.fst hquestion
  have hkind' : colon.kind = .colon := congrArg Prod.fst hcolon
  refine ⟨.node .ternaryExpr [tree, .leaf question, tree', .leaf colon, tree''], ?_,
    fun power hpower rest hends trees d hmore => ?_⟩
  · simp only [Tree.plain_node, ne_eq, reduceCtorEq, not_false_eq_true, Tree.plainAll_cons,
      Tree.plainAll_nil, plain_leaf hquestion, plain_leaf hcolon, htree, htree', htree'']
    rfl
  · obtain rfl : power = 0 := Nat.le_zero.mp hpower
    have hnext : nextKind (question :: (middle ++ colon :: after) ++ rest) = .question := hkind
    have hsome : extension? 0 (nextKind (question :: (middle ++ colon :: after) ++ rest)) =
        some Plan.conditional := by
      rw [hnext]
      rfl
    have hnone : extension? 0 (nextKind (colon :: (after ++ rest))) = none := by
      rw [nextKind_cons, hkind']
      rfl
    rw [List.append_assoc]
    refine hreads 0 (Nat.zero_le _) _ (fun hle => ?_) trees d (runs_extension hsome ?_ hmore)
    · rw [hnext]
      exact ends_before_question hle
    · rw [List.cons_append, List.append_assoc]
      exact .wrap (.seq (.seq (.seq (.take _ _ _) (hreads' _ hnone _)) (runs_expect hkind'))
        (hreads'' rest (hends _ rfl) _))

/-- What is put behind a base: a node around the base and the trees behind it. -/
theorem reads_suffix {kind : NodeKind} (body : Plan) {words : List (TokenKind × String)}
    {targets : List Tree} (hkind : kind ≠ .parenExpr)
    (hbase : base.ReadsAt (TokenKind.unaryPower + 1)) (ends : TokenKind → Prop)
    (hsuffix : ∀ tokens, tokens.map Token.content = words → ∃ more, Tree.plainAll more = targets ∧
      ∀ rest, suffix? (nextKind (tokens ++ rest)) = some (.wrap kind body) ∧
        ∀ trees, Runs body ⟨tokens ++ rest, trees⟩ ⟨rest, more.reverse ++ trees⟩ []) :
    ReadsAs (wordsAt (TokenKind.unaryPower + 1) base.power base.words ++ words)
      (.node kind (base.tree :: targets)) (TokenKind.unaryPower + 1) ends := by
  intro tokens htokens
  obtain ⟨before, after, rfl, hbefore, hafter⟩ := List.map_eq_append_iff.mp htokens
  obtain ⟨tree, htree, hreads⟩ := hbase before hbefore
  obtain ⟨more, hmore, hruns⟩ := hsuffix after hafter
  refine ⟨.node kind (tree :: more), ?_, fun power hpower rest _ trees d hextends => ?_⟩
  · rw [Tree.plain_node hkind, Tree.plainAll_cons, htree, hmore]
  · obtain ⟨hsome, hbody⟩ := hruns rest
    have hwrap : Runs (.wrap kind body) ⟨after ++ rest, tree :: trees⟩
        ⟨rest, .node kind (tree :: more) :: trees⟩ [] := by
      have hnode : Runs (.wrap kind body) ⟨after ++ rest, tree :: trees⟩
          ⟨rest, .node kind (more.reverse ++ [tree]).reverse :: trees⟩ [] := .wrap (hbody [tree])
      rwa [List.reverse_append, List.reverse_reverse] at hnode
    rw [List.append_assoc]
    exact hreads power hpower _ (fun hle => ends_of_tight hle _) trees d
      (runs_extension (extension?_of_suffix hsome power) hwrap hextends)

theorem reads_field (hbase : base.ReadsAt (TokenKind.unaryPower + 1))
    (word : Word (· == .ident)) : (field base word).Reads := by
  refine reads_suffix (take.seq (orFault .ident Plan.name .noFieldName)) (by decide) hbase _
    fun tokens htokens => ?_
  obtain ⟨dot, tokens, rfl, hdot, htokens⟩ := List.map_eq_cons_iff.mp htokens
  obtain ⟨token, rfl, htoken⟩ := List.map_eq_singleton_iff.mp htokens
  have hkind : dot.kind = .dot := congrArg Prod.fst hdot
  have hkind' : token.kind = .ident := (congrArg Prod.fst htoken).trans (beq_iff_eq.mp word.fits)
  refine ⟨[.leaf dot, .node .name [.leaf token]], ?_, fun rest => ⟨?_, fun trees => ?_⟩⟩
  · simp only [Tree.plain_node, ne_eq, reduceCtorEq, not_false_eq_true, Tree.plainAll_cons,
      Tree.plainAll_nil, plain_leaf hdot, plain_leaf htoken]
    rfl
  · rw [List.cons_append, nextKind_cons, hkind]
    rfl
  · exact .seq (.take _ _ _) (runs_orFault hkind' (.node (.take _ _ _)))

theorem reads_step (hbase : base.ReadsAt (TokenKind.unaryPower + 1))
    (sign : Word TokenKind.isStep) : (step base sign).Reads := by
  refine reads_suffix take (by decide) hbase _ fun tokens htokens => ?_
  obtain ⟨token, rfl, htoken⟩ := List.map_eq_singleton_iff.mp htokens
  have hkind : token.kind = sign.kind := congrArg Prod.fst htoken
  refine ⟨[.leaf token], ?_, fun rest => ⟨?_, fun trees => .take _ _ _⟩⟩
  · rw [Tree.plainAll_cons, plain_leaf htoken]
    rfl
  · rw [List.cons_append, nextKind_cons, hkind]
    have hfits := sign.fits
    rw [TokenKind.isStep, Bool.or_eq_true, beq_iff_eq, beq_iff_eq] at hfits
    rcases hfits with hfits | hfits <;> rw [hfits] <;> rfl

/-! ### Lists of expressions -/

theorem headKind_append (words more : List (TokenKind × String)) (kind : TokenKind) :
    headKind (words ++ more) kind = headKind words (headKind more kind) := by
  cases words <;> rfl

theorem startsExpr_of_isSign {kind : TokenKind} (h : kind.isSign = true) :
    kind.startsExpr = true := by
  cases kind <;> first | rfl | cases h

theorem starts_wordsAt {e : Expr} {next : TokenKind}
    (h : (headKind e.words next).startsExpr = true) (least : Nat) :
    (headKind (wordsAt least e.power e.words) next).startsExpr = true := by
  unfold wordsAt
  split
  · rfl
  · exact h

/-- A printed expression begins with a token with which an expression can begin. -/
theorem starts_words (e : Expr) (next : TokenKind) :
    (headKind e.words next).startsExpr = true := by
  match e with
  | .name word =>
      rw [words, show headKind [word.content] next = word.kind from rfl, beq_iff_eq.mp word.fits]
      rfl
  | .real word =>
      rw [words, show headKind [word.content] next = word.kind from rfl, beq_iff_eq.mp word.fits]
      rfl
  | .unary sign operand => exact startsExpr_of_isSign sign.fits
  | .binary left operator right =>
      rw [words, headKind_append]
      exact starts_wordsAt (starts_words left _) _
  | .conditional test yes no =>
      rw [words, headKind_append]
      exact starts_wordsAt (starts_words test _) _
  | .call callee arguments =>
      rw [words, headKind_append]
      exact starts_wordsAt (starts_words callee _) _
  | .field base word =>
      rw [words, headKind_append]
      exact starts_wordsAt (starts_words base _) _
  | .index base opening first more =>
      rw [words, headKind_append]
      exact starts_wordsAt (starts_words base _) _
  | .step base sign =>
      rw [words, headKind_append]
      exact starts_wordsAt (starts_words base _) _

theorem starts_tokens {e : Expr} {tokens : List Token}
    (htokens : tokens.map Token.content = e.words) (rest : List Token) :
    (nextKind (tokens ++ rest)).startsExpr = true := by
  rw [nextKind_append htokens]
  exact starts_words e _

/-- What stands behind an item of a list lets it end. -/
theorem extension?_behind_item {es : List Expr} {others rest : List Token}
    (hothers : others.map Token.content = moreWords es)
    (hrest : extension? 0 (nextKind rest) = none) :
    extension? 0 (nextKind (others ++ rest)) = none := by
  rw [nextKind_append hothers]
  cases es with
  | nil => exact hrest
  | cons e es => rfl

/-- An item and what is read behind it. -/
theorem runs_items {inner behind : List Token} {tree : Tree} {trees : List Tree} {d : Cursor}
    (hstarts : (nextKind (inner ++ behind)).startsExpr = true)
    (hfirst : Runs anyExpression ⟨inner ++ behind, trees⟩ ⟨behind, tree :: trees⟩ [])
    (hmore : Runs (moreAfterComma (rule (.items .rParen))) ⟨behind, tree :: trees⟩ d []) :
    Runs (rule (.items .rParen)) ⟨inner ++ behind, trees⟩ d [] := by
  have hnext : (nextKind (inner ++ behind) == .rParen || nextKind (inner ++ behind) == .eof) =
      false := by
    generalize nextKind (inner ++ behind) = kind at hstarts
    cases kind <;> first | rfl | cases hstarts
  have hbody : Runs (body (.items .rParen)) ⟨inner ++ behind, trees⟩ d [] :=
    runs_other hnext (.seq hfirst hmore)
  exact .rule hbody

/-- Expressions behind commas are read by a plan that ends in front of what closes the list and
takes a comma, an expression and more of the same. -/
theorem reads_more {plan : Plan} {close : TokenKind} (hclose : extension? 0 close = none)
    (hends : ∀ rest, nextKind rest = close → ∀ trees, Runs plan ⟨rest, trees⟩ ⟨rest, trees⟩ [])
    (htakes : ∀ comma inner behind tree trees d, Token.kind comma = .comma →
      (nextKind (inner ++ behind)).startsExpr = true →
      Runs anyExpression ⟨inner ++ behind, .leaf comma :: trees⟩
        ⟨behind, tree :: .leaf comma :: trees⟩ [] →
      Runs plan ⟨behind, tree :: .leaf comma :: trees⟩ d [] →
      Runs plan ⟨comma :: (inner ++ behind), trees⟩ d [])
    {es : List Expr} (hes : ∀ e ∈ es, e.Reads) {tokens : List Token}
    (htokens : tokens.map Token.content = moreWords es) :
    ∃ more, Tree.plainAll more = moreTrees es ∧ ∀ rest, nextKind rest = close → ∀ trees,
      Runs plan ⟨tokens ++ rest, trees⟩ ⟨rest, more.reverse ++ trees⟩ [] := by
  induction es generalizing tokens with
  | nil =>
      obtain rfl := List.map_eq_nil_iff.mp htokens
      exact ⟨[], rfl, hends⟩
  | cons e es ih =>
      obtain ⟨comma, tokens, rfl, hcomma, htokens⟩ := List.map_eq_cons_iff.mp htokens
      obtain ⟨inner, others, rfl, hinner, hothers⟩ := List.map_eq_append_iff.mp htokens
      obtain ⟨tree, htree, hreads⟩ := (hes e List.mem_cons_self).whole hinner
      obtain ⟨more, hmore, hruns⟩ := ih (fun e he => hes e (List.mem_cons_of_mem _ he)) hothers
      refine ⟨.leaf comma :: tree :: more, ?_, fun rest hrest trees => ?_⟩
      · rw [Tree.plainAll_cons, Tree.plainAll_cons, plain_leaf hcomma, htree, hmore]
        rfl
      · have hnone : extension? 0 (nextKind (others ++ rest)) = none :=
          extension?_behind_item hothers (by rw [hrest, hclose])
        have hplan := htakes comma inner (others ++ rest) tree trees _ (congrArg Prod.fst hcomma)
          (starts_tokens hinner _) (hreads _ hnone _) (hruns rest hrest _)
        rw [List.cons_append, List.append_assoc]
        simpa using hplan

/-- Expressions behind commas are read as more items of an argument list. -/
theorem reads_moreItems {es : List Expr} (hes : ∀ e ∈ es, e.Reads) {tokens : List Token}
    (htokens : tokens.map Token.content = moreWords es) :
    ∃ more, Tree.plainAll more = moreTrees es ∧ ∀ rest, nextKind rest = .rParen → ∀ trees,
      Runs (moreAfterComma (rule (.items .rParen))) ⟨tokens ++ rest, trees⟩
        ⟨rest, more.reverse ++ trees⟩ [] := by
  refine reads_more rfl (fun rest hrest trees => runs_other ?_ (.done _)) ?_ hes htokens
  · rw [kind_mk, hrest]
    rfl
  · intro comma inner behind tree trees d hcomma hstarts hfirst hmore
    exact runs_chosen (beq_iff_eq.mpr hcomma)
      (.seq (.take _ _ _) (runs_items hstarts hfirst hmore))

/-- The arguments of a call. -/
theorem reads_items {es : List Expr} (hes : ∀ e ∈ es, e.Reads) {tokens : List Token}
    (htokens : tokens.map Token.content = itemWords es) :
    ∃ items, Tree.plainAll items = itemTrees es ∧ ∀ rest, nextKind rest = .rParen → ∀ trees,
      Runs (rule (.items .rParen)) ⟨tokens ++ rest, trees⟩ ⟨rest, items.reverse ++ trees⟩ [] := by
  cases es with
  | nil =>
      obtain rfl := List.map_eq_nil_iff.mp htokens
      refine ⟨[], rfl, fun rest hrest trees => ?_⟩
      have hbody : Runs (body (.items .rParen)) ⟨rest, trees⟩ ⟨rest, trees⟩ [] := by
        refine runs_chosen ?_ (.done _)
        rw [kind_mk, hrest]
        rfl
      exact .rule hbody
  | cons e es =>
      obtain ⟨inner, others, rfl, hinner, hothers⟩ := List.map_eq_append_iff.mp htokens
      obtain ⟨tree, htree, hreads⟩ := (hes e List.mem_cons_self).whole hinner
      obtain ⟨more, hmore, hruns⟩ :=
        reads_moreItems (fun e he => hes e (List.mem_cons_of_mem _ he)) hothers
      refine ⟨tree :: more, ?_, fun rest hrest trees => ?_⟩
      · rw [Tree.plainAll_cons, htree, hmore]
        rfl
      · have hnone : extension? 0 (nextKind (others ++ rest)) = none :=
          extension?_behind_item hothers (by rw [hrest]; rfl)
        have hstarts := starts_tokens hinner (others ++ rest)
        rw [List.append_assoc]
        simpa using runs_items hstarts (hreads _ hnone trees) (hruns rest hrest _)

/-- Expressions behind commas are read as more indices. -/
theorem reads_indices {es : List Expr} (hes : ∀ e ∈ es, e.Reads) {tokens : List Token}
    (htokens : tokens.map Token.content = moreWords es) :
    ∃ more, Tree.plainAll more = moreTrees es ∧ ∀ rest, nextKind rest = .rBracket → ∀ trees,
      Runs (rule .indices) ⟨tokens ++ rest, trees⟩ ⟨rest, more.reverse ++ trees⟩ [] := by
  refine reads_more rfl (fun rest hrest trees => ?_) ?_ hes htokens
  · have hbody : Runs (body .indices) ⟨rest, trees⟩ ⟨rest, trees⟩ [] := by
      refine runs_chosen ?_ (.done _)
      rw [kind_mk, hrest]
      rfl
    exact .rule hbody
  · intro comma inner behind tree trees d hcomma _ hfirst hmore
    have hbody : Runs (body .indices) ⟨comma :: (inner ++ behind), trees⟩ d [] := by
      refine runs_other ?_ (.seq (.seq (.take _ _ _) hfirst) hmore)
      rw [kind_mk, nextKind_cons, hcomma]
      rfl
    exact .rule hbody

theorem reads_call {arguments : List Expr} (hcallee : callee.ReadsAt (TokenKind.unaryPower + 1))
    (harguments : ∀ e ∈ arguments, e.Reads) : (call callee arguments).Reads := by
  refine reads_suffix argumentList (by decide) hcallee _ fun tokens htokens => ?_
  obtain ⟨opening, tokens, rfl, hopening, htokens⟩ := List.map_eq_cons_iff.mp htokens
  obtain ⟨inner, last, rfl, hinner, hlast⟩ := List.map_eq_append_iff.mp htokens
  obtain ⟨closing, rfl, hclosing⟩ := List.map_eq_singleton_iff.mp hlast
  obtain ⟨items, hitems, hruns⟩ := reads_items harguments hinner
  have hopen : opening.kind = .lParen := congrArg Prod.fst hopening
  have hclose : closing.kind = .rParen := congrArg Prod.fst hclosing
  refine ⟨[.node .argList (.leaf opening :: (items ++ [.leaf closing]))], ?_,
    fun rest => ⟨?_, fun trees => ?_⟩⟩
  · simp only [Tree.plain_node, ne_eq, reduceCtorEq, not_false_eq_true, Tree.plainAll_cons,
      Tree.plainAll_append, Tree.plainAll_nil, plain_leaf hopening, plain_leaf hclosing, hitems]
  · rw [List.cons_append, nextKind_cons, hopen]
    rfl
  · have hlist : Runs ((take.seq (rule (.items .rParen))).seq (expect .rParen .noCloseParen))
        ⟨opening :: (inner ++ closing :: rest), []⟩
        ⟨rest, .leaf closing :: (items.reverse ++ [.leaf opening])⟩ [] :=
      .seq (.seq (.take _ _ _) (hruns (closing :: rest) hclose _)) (runs_expect hclose)
    rw [List.cons_append, List.append_assoc]
    have hnode : Runs argumentList ⟨opening :: (inner ++ closing :: rest), trees⟩ ⟨rest,
        .node .argList (.leaf closing :: (items.reverse ++ [.leaf opening])).reverse :: trees⟩ [] :=
      .node hlist
    simpa using hnode

theorem suffix?_index {kind : TokenKind} (h : kind.isIndexOpen = true) :
    suffix? kind = some Plan.index := by
  cases kind <;> first | rfl | cases h

theorem reads_index {first : Expr} {more : List Expr}
    (hbase : base.ReadsAt (TokenKind.unaryPower + 1)) (opening : Word TokenKind.isIndexOpen)
    (hfirst : first.Reads) (hmore : ∀ e ∈ more, e.Reads) :
    (index base opening first more).Reads := by
  refine reads_suffix (((take.seq anyExpression).seq (rule .indices)).seq
    (expect .rBracket .noCloseBracket)) (by decide) hbase _ fun tokens htokens => ?_
  obtain ⟨token, tokens, rfl, htoken, htokens⟩ := List.map_eq_cons_iff.mp htokens
  obtain ⟨inner, tokens, rfl, hinner, htokens⟩ := List.map_eq_append_iff.mp htokens
  obtain ⟨others, last, rfl, hothers, hlast⟩ := List.map_eq_append_iff.mp htokens
  obtain ⟨closing, rfl, hclosing⟩ := List.map_eq_singleton_iff.mp hlast
  obtain ⟨tree, htree, hreads⟩ := hfirst.whole hinner
  obtain ⟨trees', htrees', hruns⟩ := reads_indices hmore hothers
  have hopen : token.kind = opening.kind := congrArg Prod.fst htoken
  have hclose : closing.kind = .rBracket := congrArg Prod.fst hclosing
  refine ⟨.leaf token :: tree :: (trees' ++ [.leaf closing]), ?_, fun rest => ⟨?_, fun trees => ?_⟩⟩
  · simp only [Tree.plainAll_cons, Tree.plainAll_append, Tree.plainAll_nil, plain_leaf htoken,
      plain_leaf hclosing, htree, htrees']
    rfl
  · have hindex : token.kind.isIndexOpen = true := by
      rw [hopen]
      exact opening.fits
    exact suffix?_index hindex
  · have hnone : extension? 0 (nextKind (others ++ closing :: rest)) = none := by
      refine extension?_behind_item hothers ?_
      rw [nextKind_cons, hclose]
      rfl
    have hindex : Runs (((take.seq anyExpression).seq (rule .indices)).seq
        (expect .rBracket .noCloseBracket))
        ⟨token :: (inner ++ (others ++ closing :: rest)), trees⟩
        ⟨rest, .leaf closing :: (trees'.reverse ++ tree :: .leaf token :: trees)⟩ [] :=
      .seq (.seq (.seq (.take _ _ _) (hreads _ hnone _)) (hruns (closing :: rest) hclose _))
        (runs_expect hclose)
    simpa using hindex

/-! ### Whole expressions -/

mutual

/-- Every printed expression is read as its tree. -/
theorem reads (e : Expr) : e.Reads := by
  match e with
  | .name word => exact reads_name word
  | .real word => exact reads_real word
  | .unary sign operand => exact reads_unary sign ((reads operand).readsAt _)
  | .binary left operator right =>
      exact reads_binary operator ((reads left).readsAt _) ((reads right).readsAt _)
  | .conditional test yes no =>
      exact reads_conditional ((reads test).readsAt _) (reads yes) (reads no)
  | .call callee arguments => exact reads_call ((reads callee).readsAt _) (reads_all arguments)
  | .field base word => exact reads_field ((reads base).readsAt _) word
  | .index base opening first more =>
      exact reads_index ((reads base).readsAt _) opening (reads first) (reads_all more)
  | .step base sign => exact reads_step ((reads base).readsAt _) sign

theorem reads_all (es : List Expr) : ∀ e ∈ es, e.Reads := by
  match es with
  | [] => exact fun _ he => absurd he List.not_mem_nil
  | e :: es => exact List.forall_mem_cons.mpr ⟨reads e, reads_all es⟩

end

/-! ### The text of an assignment -/

theorem words_ne_nil (e : Expr) : e.words ≠ [] := by
  intro hnil
  have hstarts := starts_words e .eof
  rw [hnil] at hstarts
  cases hstarts

/-- A lexeme that can stand in front of a blank. -/
def Lexeme (content : TokenKind × String) : Prop :=
  Token.Spelled content ∧ content.1.isPlain = true

theorem lexeme_word {test : TokenKind → Bool} (word : Word test)
    (h : ∀ kind, test kind = true → kind.isPlain = true) : Lexeme word.content :=
  ⟨word.spelled, h _ word.fits⟩

theorem lexeme_name (word : Word (· == .ident)) : Lexeme word.content := by
  refine lexeme_word word fun kind hkind => ?_
  rw [beq_iff_eq.mp hkind]
  rfl

theorem lexemes_wordsAt {words : List (TokenKind × String)} (h : ∀ content ∈ words, Lexeme content)
    (least power : Nat) : ∀ content ∈ wordsAt least power words, Lexeme content := by
  unfold wordsAt
  split
  · have hopening : Lexeme (.lParen, "(") := ⟨Token.spelled_lParen, rfl⟩
    have hclosing : Lexeme (.rParen, ")") := ⟨Token.spelled_rParen, rfl⟩
    rw [List.forall_mem_cons, List.forall_mem_append, List.forall_mem_singleton]
    exact ⟨hopening, h, hclosing⟩
  · exact h

mutual

/-- The words of an expression are such lexemes. -/
theorem lexemes_words (e : Expr) : ∀ content ∈ e.words, Lexeme content := by
  match e with
  | .name word =>
      rw [words, List.forall_mem_singleton]
      exact lexeme_name word
  | .real word =>
      rw [words, List.forall_mem_singleton]
      refine lexeme_word word fun kind hkind => ?_
      rw [beq_iff_eq.mp hkind]
      rfl
  | .unary sign operand =>
      rw [words, List.forall_mem_cons]
      refine ⟨lexeme_word sign fun kind hkind => ?_, lexemes_wordsAt (lexemes_words operand) _ _⟩
      cases kind <;> first | rfl | cases hkind
  | .binary left operator right =>
      rw [words, List.forall_mem_append, List.forall_mem_cons]
      refine ⟨lexemes_wordsAt (lexemes_words left) _ _,
        lexeme_word operator fun kind hkind => ?_, lexemes_wordsAt (lexemes_words right) _ _⟩
      cases kind <;> first | rfl | cases hkind
  | .conditional test yes no =>
      rw [words, List.forall_mem_append, List.forall_mem_cons, List.forall_mem_append,
        List.forall_mem_cons]
      exact ⟨lexemes_wordsAt (lexemes_words test) _ _, ⟨Token.spelled_question, rfl⟩,
        lexemes_words yes, ⟨Token.spelled_colon, rfl⟩, lexemes_words no⟩
  | .call callee arguments =>
      rw [words, List.forall_mem_append, List.forall_mem_cons, List.forall_mem_append,
        List.forall_mem_singleton]
      exact ⟨lexemes_wordsAt (lexemes_words callee) _ _, ⟨Token.spelled_lParen, rfl⟩,
        lexemes_itemWords arguments, ⟨Token.spelled_rParen, rfl⟩⟩
  | .field base word =>
      rw [words, List.forall_mem_append, List.forall_mem_cons, List.forall_mem_singleton]
      exact ⟨lexemes_wordsAt (lexemes_words base) _ _, ⟨Token.spelled_dot, rfl⟩,
        lexeme_name word⟩
  | .index base opening first more =>
      rw [words, List.forall_mem_append, List.forall_mem_cons, List.forall_mem_append,
        List.forall_mem_append, List.forall_mem_singleton]
      refine ⟨lexemes_wordsAt (lexemes_words base) _ _, lexeme_word opening fun kind hkind => ?_,
        lexemes_words first, lexemes_moreWords more, ⟨Token.spelled_rBracket, rfl⟩⟩
      cases kind <;> first | rfl | cases hkind
  | .step base sign =>
      rw [words, List.forall_mem_append, List.forall_mem_singleton]
      refine ⟨lexemes_wordsAt (lexemes_words base) _ _, lexeme_word sign fun kind hkind => ?_⟩
      cases kind <;> first | rfl | cases hkind

theorem lexemes_itemWords (es : List Expr) : ∀ content ∈ itemWords es, Lexeme content := by
  match es with
  | [] => exact fun _ hmem => absurd hmem List.not_mem_nil
  | e :: es =>
      rw [itemWords, List.forall_mem_append]
      exact ⟨lexemes_words e, lexemes_moreWords es⟩

theorem lexemes_moreWords (es : List Expr) : ∀ content ∈ moreWords es, Lexeme content := by
  match es with
  | [] => exact fun _ hmem => absurd hmem List.not_mem_nil
  | e :: es =>
      rw [moreWords, List.forall_mem_cons, List.forall_mem_append]
      exact ⟨⟨Token.spelled_comma, rfl⟩, lexemes_words e, lexemes_moreWords es⟩

end

theorem spaced_assigned (e : Expr) :
    Token.spaced (((.ident, "x") :: (.assign, "=") :: e.words).map Prod.snd) =
      "x = " ++ e.print := by
  obtain ⟨first, more, hwords⟩ := List.exists_cons_of_ne_nil e.words_ne_nil
  rw [print, hwords, List.map_cons, List.map_cons, List.map_cons, Token.spaced,
    String.intercalate_cons_cons, String.intercalate_cons_cons, Token.spaced,
    ← String.append_assoc, ← String.append_assoc]
  rfl

/-- The tokens of an assignment of a printed expression. -/
theorem lex_assigned (e : Expr) :
    (Tree.meaningful (lex ("x = " ++ e.print))).map Token.content =
      (.ident, "x") :: (.assign, "=") :: e.words := by
  have hlexemes : ∀ content ∈ (.ident, "x") :: (.assign, "=") :: e.words, Lexeme content := by
    rw [List.forall_mem_cons, List.forall_mem_cons]
    exact ⟨⟨Token.spelled_identifier, rfl⟩, ⟨Token.spelled_assign, rfl⟩, lexemes_words e⟩
  rw [← spaced_assigned]
  exact Token.lex_spaced (fun content hcontent => (hlexemes content hcontent).1)
    fun content hcontent => (hlexemes content hcontent).2

/-- A file ends where nothing is left. -/
theorem runs_fileEnd (trees : List Tree) : Runs (rule .file) ⟨[], trees⟩ ⟨[], trees⟩ [] := by
  have hbody : Runs (body .file) ⟨[], trees⟩ ⟨[], trees⟩ [] := runs_chosen rfl (.done _)
  exact .rule hbody

/-- A file of one statement that begins with a name. -/
theorem runs_file {first : Token} {rest : List Token} {trees : List Tree}
    (hfirst : first.kind = .ident)
    (hstatement : Runs (expressionStatement true) ⟨first :: rest, []⟩ ⟨[], trees⟩ []) :
    Runs (rule .file) ⟨first :: rest, []⟩ ⟨[], trees⟩ [] := by
  have hkind : (Cursor.mk (first :: rest) []).kind = .ident := hfirst
  have hlook : Runs (body .statement) ⟨first :: rest, []⟩ ⟨[], trees⟩ [] := by
    refine .look ?_
    rw [hkind]
    exact hstatement
  have hitem : Runs (choice (· == .rBrace) (failAndTake .strayCloseBrace) (rule .statement))
      ⟨first :: rest, []⟩ ⟨[], trees⟩ [] :=
    runs_other (by rw [hkind]; rfl) (.rule hlook)
  have hbody : Runs (body .file) ⟨first :: rest, []⟩ ⟨[], trees⟩ [] :=
    runs_other (by rw [hkind]; rfl) (.seq hitem (runs_fileEnd trees))
  exact .rule hbody

/-- An assignment of a printed expression is read to the end of a file. -/
theorem runs_assigned (e : Expr) {first second : Token} {tokens : List Token}
    (hfirst : first.kind = .ident) (hsecond : second.kind = .assign)
    (htokens : tokens.map Token.content = e.words) : ∃ value, value.plain = e.tree ∧
      Runs (rule .file) ⟨first :: second :: tokens, []⟩
        ⟨[], [.node .assignStmt [.node .nameRef [.leaf first], .leaf second, value]]⟩ [] := by
  obtain ⟨value, hvalue, hreads⟩ := (reads e).whole htokens
  refine ⟨value, hvalue, runs_file hfirst ?_⟩
  have htarget : Runs (rule (.expression TokenKind.unaryPower)) ⟨first :: second :: tokens, []⟩
      ⟨second :: tokens, [.node .nameRef [.leaf first]]⟩ [] := by
    have hnone : extension? TokenKind.unaryPower (nextKind (second :: tokens)) = none := by
      rw [nextKind_cons, hsecond]
      rfl
    exact .rule (.seq (runs_primary hfirst rfl (.node (.take _ _ _)))
      (runs_extension_none hnone _))
  have hassign : (Cursor.mk (second :: tokens) [.node .nameRef [.leaf first]]).kind.isAssignOp =
      true := by
    rw [kind_mk, nextKind_cons, hsecond]
    rfl
  have hexpression := hreads [] rfl [.leaf second, .node .nameRef [.leaf first]]
  rw [List.append_nil] at hexpression
  have hend : Runs (terminator true) ⟨[], [value, .leaf second, .node .nameRef [.leaf first]]⟩
      ⟨[], [value, .leaf second, .node .nameRef [.leaf first]]⟩ [] :=
    runs_other rfl (.done _)
  have hbehind : Runs (expressionAfter.seq (terminator true))
      ⟨second :: tokens, [.node .nameRef [.leaf first]]⟩
      ⟨[], [value, .leaf second, .node .nameRef [.leaf first]]⟩ [] :=
    .seq (.seq (.take _ _ _) hexpression) hend
  have hassignment : Runs (.wrap .assignStmt (expressionAfter.seq (terminator true)))
      ⟨second :: tokens, [.node .nameRef [.leaf first]]⟩
      ⟨[], [.node .assignStmt [value, .leaf second, .node .nameRef [.leaf first]].reverse]⟩ [] :=
    .wrap hbehind
  exact .seq htarget (runs_chosen hassign hassignment)

end Expr

open Plan

/-- Parsing undoes printing. A printed expression is parsed without an error as the value of an
assignment, and without the parentheses its tree is that of the expression and of no other. -/
theorem parse_print (e : Expr) :
    (parse ("x = " ++ e.print)).errors = [] ∧ ∃ value,
      (parse ("x = " ++ e.print)).tree.bare.placeless =
        .node .sourceFile [.node .assignStmt
          [.node .nameRef [Expr.sign .ident "x"], Expr.sign .assign "=", value]] ∧
      ∀ other : Expr, value.withoutParens = other.tree ↔ other = e := by
  obtain ⟨trees, reports, hruns, htree, hleaves, herrors⟩ := parse_runs ("x = " ++ e.print)
  obtain ⟨first, rest, hlex, hfirst, hrest⟩ := List.map_eq_cons_iff.mp e.lex_assigned
  obtain ⟨second, tokens, rfl, hsecond, htokens⟩ := List.map_eq_cons_iff.mp hrest
  obtain ⟨value, hvalue, hassigned⟩ := e.runs_assigned (congrArg Prod.fst hfirst)
    (congrArg Prod.fst hsecond) htokens
  rw [hlex] at hruns
  obtain ⟨hcursor, rfl⟩ := hassigned.unique hruns
  have htrees : trees =
      [.node .assignStmt [.node .nameRef [.leaf first], .leaf second, value]] := by
    rw [← List.reverse_inj]
    exact (congrArg Cursor.trees hcursor).symm
  refine ⟨herrors, value.placeless, ?_, fun other => ?_⟩
  · rw [htree, Tree.bare_weaveRoot _ _ _ hleaves.symm, htrees, ← Expr.placeless_leaf hfirst,
      ← Expr.placeless_leaf hsecond]
    rfl
  · rw [show value.placeless.withoutParens = e.tree from hvalue]
    exact ⟨fun h => (Expr.tree_injective h).symm, fun h => by rw [h]⟩

end Gml
