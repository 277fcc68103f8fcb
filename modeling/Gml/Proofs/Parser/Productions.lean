import Gml.Proofs.Parser.Rules
import Gml.Proofs.Parser.Shapes

/-!
# The rules follow the productions

Each rule of the grammar yields the production of the node that it makes, if the grammar
below it yields statements and expressions. The grammar below need only do so for fewer
tokens than the rule itself: each rule first takes the token that it begins with.
-/
namespace Gml.Grammar

open Gml.Parser Shape Computability

/-- With less than `n` tokens left the grammar yields statements and expressions. -/
structure Fits (g : Grammar) (n : Nat) : Prop where
  statement : Parses n Shape.statement g.statement
  expression : ∀ power, Parses n Shape.expression (g.expression power)

variable {g : Grammar} {n : Nat}

theorem Fits.anyExpression (hg : g.Fits n) : Parses n Shape.expression g.anyExpression :=
  hg.expression 0

theorem Fits.statements (hg : g.Fits n) (more : Parser → Bool) :
    Parses n Shape.statement∗ (repeatWhile more g.statement) :=
  parses_repeatWhile fun p hp _ => hg.statement p hp

/-! ### Functions -/

theorem leads_block (hg : g.Fits n) : Leads n .lBrace (Shape.node .block) g.block := by
  have hbody := ((leads_bump n .lBrace (by decide)).comp
    (hg.statements fun p => !p.isAt .rBrace && !p.atEnd)).comp
    (parses_expect n .rBrace .noCloseBrace (by decide))
  exact hbody.node rfl

theorem parses_initializer (hg : g.Fits n) : Parses n (optional Shape.initializer) g.initializer :=
  ((leads_bump n .assign (by decide)).comp hg.anyExpression).option

theorem leads_parameter (hg : g.Fits n) :
    Leads n .ident parameter (fun p => g.initializer p.name) :=
  (leads_name n).comp (parses_initializer hg)

theorem parses_parameters (hg : g.Fits n) (rounds : Nat) :
    Parses n (listed parameter) (g.parameters rounds) := by
  induction rounds with
  | zero => exact (parses_id n).mono (one_le_optional _)
  | succ rounds ih =>
      have hmore := ((leads_bump n .comma (by decide)).comp ih).option
      intro p hp
      rw [parameters]
      split
      · exact (Yields.refl p).mono (one_le_optional _)
      · split
        · exact p.fail_yields .noParameterName _
        next hident =>
            have hitem := (leads_parameter hg).yieldsAt hp.le (by simpa using hident)
            have hrest := hmore _ (Nat.lt_of_le_of_lt hitem.length_le hp)
            exact (hitem.trans hrest).mono listed_step

theorem leads_parameterList (hg : g.Fits n) :
    Leads n .lParen (Shape.node .paramList) g.parameterList := by
  have hparameters : Parses n (listed parameter) (fun p => g.parameters p.rounds p) :=
    fun p hp => parses_parameters hg p.rounds p hp
  have hbody := ((leads_bump n .lParen (by decide)).comp hparameters).comp
    (parses_expect n .rParen .noCloseParen (by decide))
  exact hbody.node rfl

theorem parses_word (n : Nat) (text : String) :
    Parses n (optional (word text))
      (fun p => if p.isAt .ident && p.currentText == text then p.bump else p) := by
  refine .ite (fun p _ hword => ?_) ((parses_id n).mono (one_le_optional _))
  rw [Bool.and_eq_true, isAt, beq_iff_eq, beq_iff_eq] at hword
  obtain ⟨t, rest, hrest, hident⟩ := exists_token (by decide) hword.1
  have htext : t.text = text := by simpa [currentText, hrest] using hword.2
  have hmem : [Tree.leaf t] ∈ word text := ⟨t, hident, htext, rfl⟩
  have hyields := bump_yields hrest (by rw [hident]; decide) hmem
  exact hyields.1.mono (le_optional _)

/-- The parts of a function, from its first word on. -/
theorem leads_functionParts (hg : g.Fits n) :
    Leads n .kwFunction Shape.function (fun p =>
      let p := p.bump
      let p := if p.isAt .ident then p.name else p
      let p := if p.isAt .lParen then g.parameterList p else p.fail .noOpenParen
      let p := if p.isAt .ident && p.currentText == "constructor" then p.bump else p
      if p.isAt .lBrace then g.block p else p.fail .noFunctionBody) := by
  have hparts := ((((leads_bump n .kwFunction (by decide)).comp (leads_name n).option).comp
    ((leads_parameterList hg).orFail .noOpenParen)).comp (parses_word n "constructor")).comp
    ((leads_block hg).orFail .noFunctionBody)
  exact hparts

theorem function_forms (hg : g.Fits n) {kind : NodeKind} (hkind : Shape.function = kind.production)
    {p : Parser} (hp : p.rest.length ≤ n) (hcurrent : p.current = .kwFunction) :
    p.Forms (Shape.node kind) (g.function kind p) :=
  (leads_functionParts hg).completeNode hkind hp hcurrent

/-! ### Operands -/

theorem parses_items (hg : g.Fits n) (close : TokenKind) :
    Parses n (listed Shape.expression) (fun p => itemsUntil close g.anyExpression p.rounds p) :=
  fun p hp => parses_itemsUntil close hg.anyExpression p.rounds p hp

theorem leads_argumentList (hg : g.Fits n) :
    Leads n .lParen (Shape.node .argList) g.argumentList := by
  have hbody := ((leads_bump n .lParen (by decide)).comp (parses_items hg .rParen)).comp
    (parses_expect n .rParen .noCloseParen (by decide))
  exact hbody.node rfl

theorem parses_indices (hg : g.Fits n) :
    Parses n (separated Shape.expression * token .rBracket) g.indices := by
  have hnext := (leads_bump n .comma (by decide)).comp hg.anyExpression
  have hmore : Parses n (token .comma * Shape.expression)∗
      (repeatWhile (·.isAt .comma) (fun p => g.anyExpression p.bump)) :=
    parses_repeatWhile fun p hp hat => hnext.yieldsAt hp.le hat
  exact (hg.anyExpression.comp hmore).comp (parses_expect n .rBracket .noCloseBracket (by decide))

/-- What is no expression is reported. -/
theorem noExpression_forms (p : Parser) (shape : Language Tree) :
    p.Forms shape (p.completeNode .error fun p =>
      let p := p.fail .noExpression
      if isCloser p.current then p else p.bump) := by
  refine .of_errors_lt ?_ ?_ shape
  · exact (noExpression_advances p.reserve.2).length_le
  · have herrors : ∀ q : Parser, (if isCloser q.current then q else q.bump).errors = q.errors := by
      intro q
      split
      · rfl
      · exact errors_bump q
    change _ < (if isCloser _ then _ else _ : Parser).errors.size
    rw [herrors]
    simp [fail, emit]

theorem primary_forms (hg : g.Fits n) {p : Parser} (hp : p.rest.length ≤ n) :
    p.Forms Shape.expression (g.primary p) := by
  have hsingle : ∀ {kind : TokenKind} {kinds : List TokenKind} {nodeKind : NodeKind},
      kinds.contains kind = true → Plain kind → anyOf kinds = nodeKind.production →
      nodeKind.isExpression = true → p.current = kind →
      p.Forms Shape.expression (p.completeNode nodeKind bump) := by
    intro kind kinds nodeKind hmem hplain hshape hnode hcurrent
    have hbump : Leads n kind (anyOf kinds) bump :=
      (leads_bump n kind hplain).mono (tokenThat_of_token hmem)
    exact (hbump.completeNode hshape hp hcurrent).mono (nodeThat_of_node hnode)
  unfold primary
  split
  iterate 5 next h => exact hsingle (by decide) (by decide) rfl rfl h
  iterate 6 next h => exact hsingle (by decide) (by decide) rfl rfl h
  next h => exact (function_forms hg rfl hp h).mono (nodeThat_of_node rfl)
  next h =>
      have hbody := ((leads_bump n .lParen (by decide)).comp hg.anyExpression).comp
        (parses_expect n .rParen .noCloseParen (by decide))
      exact (hbody.completeNode rfl hp h).mono (nodeThat_of_node rfl)
  next h =>
      have hbody := ((leads_bump n .lBracket (by decide)).comp (parses_items hg .rBracket)).comp
        (parses_expect n .rBracket .noCloseBracket (by decide))
      exact (hbody.completeNode rfl hp h).mono (nodeThat_of_node rfl)
  next => exact noExpression_forms p Shape.expression

theorem operand_forms (hg : g.Fits n) {p : Parser} (hp : p.rest.length ≤ n) :
    p.Forms Shape.expression (g.operand p) := by
  unfold operand
  split
  next power hpower =>
      have hoperator : p.current.prefixPower?.isSome = true := by rw [hpower]; rfl
      have htoken : Leads n p.current (tokenThat (·.prefixPower?.isSome)) bump :=
        leads_bumpThat n hoperator rfl rfl
      have hbody := htoken.comp (hg.expression power)
      exact (hbody.completeNode rfl hp rfl).mono (nodeThat_of_node rfl)
  next => exact primary_forms hg hp

/-! ### What follows an operand -/

/-- A finished expression becomes the first part of a larger one. -/
theorem wrapNode_forms {p q : Parser} {operand : Completed} {kind : TokenKind}
    {shape : Language Tree} {body : Parser → Parser} {nodeKind : NodeKind}
    (h : Leads n kind shape body) (hshape : Shape.expression * shape = nodeKind.production)
    (hnode : nodeKind.isExpression = true) (hoperand : p.Forms Shape.expression (operand, q))
    (hq : q.rest.length ≤ n) (hcurrent : q.current = kind) :
    p.Forms Shape.expression (q.wrapNode operand nodeKind body) :=
  (h.wrapNode hshape hoperand hq hcurrent).mono (nodeThat_of_node hnode)

theorem leads_field (n : Nat) :
    Leads n .dot (token .dot * Shape.node .name) (fun p =>
      let p := p.bump
      if p.isAt .ident then p.name else p.fail .noFieldName) :=
  (leads_bump n .dot (by decide)).comp ((leads_name n).orFail .noFieldName)

theorem leads_conditional (hg : g.Fits n) :
    Leads n .question (token .question * Shape.expression * token .colon * Shape.expression)
      (fun p => g.anyExpression ((g.anyExpression p.bump).expect .colon .noConditionalColon)) :=
  (((leads_bump n .question (by decide)).comp hg.anyExpression).comp
    (parses_expect n .colon .noConditionalColon (by decide))).comp hg.anyExpression

theorem suffix_forms (hg : g.Fits n) {p q : Parser} {operand : Completed} {r : Completed × Parser}
    (hoperand : p.Forms Shape.expression (operand, q)) (hq : q.rest.length ≤ n)
    (h : g.suffix? operand q = some r) : p.Forms Shape.expression r := by
  have hstep : ∀ {kind : TokenKind}, [TokenKind.plusPlus, .minusMinus].contains kind = true →
      Leads n kind (anyOf [.plusPlus, .minusMinus]) bump :=
    fun hmem => leads_bumpThat n hmem rfl rfl
  unfold suffix? at h
  split at h
  next hcurrent =>
      cases h
      exact wrapNode_forms (leads_field n) rfl rfl hoperand hq hcurrent
  next hcurrent =>
      cases h
      exact wrapNode_forms (leads_argumentList hg) rfl rfl hoperand hq hcurrent
  next hcurrent =>
      cases h
      exact wrapNode_forms (hstep rfl) rfl rfl hoperand hq hcurrent
  next hcurrent =>
      cases h
      exact wrapNode_forms (hstep rfl) rfl rfl hoperand hq hcurrent
  next =>
      split at h
      next hopen =>
          cases h
          have hbody := (leads_bumpThat n hopen rfl rfl).comp (parses_indices hg)
          rw [← mul_assoc] at hbody
          exact wrapNode_forms hbody rfl rfl hoperand hq rfl
      · cases h

theorem extend_forms (hg : g.Fits n) (minPower rounds : Nat) {p q : Parser} {left : Completed}
    (hp : p.rest.length ≤ n) (hleft : p.Forms Shape.expression (left, q)) :
    p.Forms Shape.expression (g.extend minPower rounds left q) := by
  induction rounds generalizing left q with
  | zero => exact hleft
  | succ rounds ih =>
      have hq : q.rest.length ≤ n := Nat.le_trans hleft.length_le hp
      rw [extend]
      split
      next next r hsuffix => exact ih (suffix_forms hg hleft hq hsuffix)
      next =>
          split
          next leftPower rightPower hpower =>
              split
              · exact hleft
              · have hoperator : q.current.infixPower?.isSome = true := by rw [hpower]; rfl
                have htoken : Leads n q.current (tokenThat (·.infixPower?.isSome)) bump :=
                  leads_bumpThat n hoperator rfl rfl
                have hbody := htoken.comp (hg.expression rightPower)
                exact ih (wrapNode_forms hbody rfl rfl hleft hq rfl)
          next =>
              split
              next hquestion =>
                  have hcurrent : q.current = .question := by simp_all [isAt]
                  exact ih (wrapNode_forms (leads_conditional hg) rfl rfl hleft hq hcurrent)
              · exact hleft

theorem expressionRule_forms (hg : g.Fits n) (minPower : Nat) {p : Parser}
    (hp : p.rest.length ≤ n) : p.Forms Shape.expression (g.expressionRule minPower p) :=
  extend_forms hg minPower _ hp (operand_forms hg hp)

/-! ### Declarations -/

/-- Enough rounds read all items, and after a comma there is another one. -/
theorem parses_declared {item : Parser → Parser} {shape : Language Tree}
    (h : Leads n .ident shape item) (rounds : Nat) :
    Parses (min n rounds) (separated shape) (declared item rounds) := by
  -- The item takes a token, so that one round less is enough for what is behind it.
  induction rounds with
  | zero =>
      intro p hp
      omega
  | succ rounds ih =>
      have hmore := ((leads_bump (min n rounds) .comma (by decide)).comp ih)
      intro p hp
      rw [declared]
      split
      · exact p.fail_yields .noVariableName _
      next hident =>
          have hitem := h.yieldsAt (show p.rest.length ≤ n by omega) (by simpa using hident)
          have hlength := hitem.length_le
          dsimp only
          split
          next hcomma =>
              have hrest := hmore.yieldsAt (show (item p).rest.length ≤ min n rounds by omega) hcomma
              exact ((hitem.trans (hrest.mono (le_optional _))).mono separated_step)
          · have hlast : (item p).Yields (optional (token .comma * separated shape)) (item p) :=
              (Yields.refl _).mono (one_le_optional _)
            exact (hitem.trans hlast).mono separated_step

theorem parses_declarations {item : Parser → Parser} {shape : Language Tree}
    (h : Leads n .ident shape item) :
    Parses n (separated shape) (fun p => declared item p.rounds p) := by
  intro p hp
  refine parses_declared h p.rounds p ?_
  rw [rounds]
  omega

theorem leads_declarator (hg : g.Fits n) :
    Leads n .ident (Shape.node .varDeclarator) g.declarator := by
  have hvalue : Parses n (optional (anyOf [.assign, .colonAssign] * Shape.expression))
      (fun p => if p.isAt .assign || p.isAt .colonAssign then g.anyExpression p.bump else p) := by
    refine .ite (fun p hp hat => ?_) ((parses_id n).mono (one_le_optional _))
    have hmem : [TokenKind.assign, .colonAssign].contains p.current = true := by
      simpa [isAt] using hat
    have hbody := (leads_bumpThat n hmem rfl rfl).comp hg.anyExpression
    exact (hbody.yields hp.le rfl).mono (le_optional _)
  exact ((leads_name n).comp hvalue).node rfl

theorem parses_terminator (n : Nat) (terminated : Bool) :
    Parses n (optional (token .semicolon)) (fun p => if terminated then p.skip .semicolon else p) :=
  .ite (fun p hp _ => parses_skip n .semicolon (by decide) p hp)
    ((parses_id n).mono (one_le_optional _))

theorem leads_varStatement (hg : g.Fits n) (terminated : Bool) :
    Leads n .kwVar (Shape.node .varStmt) (g.varStatement terminated) := by
  have hbody := ((leads_bump n .kwVar (by decide)).comp
    (parses_declarations (leads_declarator hg))).comp (parses_terminator n terminated)
  exact hbody.node rfl

theorem leads_globalVarStatement (n : Nat) :
    Leads n .kwGlobalvar (Shape.node .globalVarStmt) globalVarStatement := by
  have hbody := ((leads_bump n .kwGlobalvar (by decide)).comp
    (parses_declarations (leads_name n))).comp (parses_skip n .semicolon (by decide))
  exact hbody.node rfl

theorem leads_enumMember (hg : g.Fits n) : Leads n .ident (Shape.node .enumMember) g.enumMember :=
  (leads_parameter hg).node rfl

theorem parses_enumMembers (hg : g.Fits n) (rounds : Nat) :
    Parses n (listed (Shape.node .enumMember)) (g.enumMembers rounds) := by
  induction rounds with
  | zero => exact (parses_id n).mono (one_le_optional _)
  | succ rounds ih =>
      have hmore := ((leads_bump n .comma (by decide)).comp ih).option
      intro p hp
      rw [enumMembers]
      split
      · exact (Yields.refl p).mono (one_le_optional _)
      · split
        -- Behind a fault the shape is not promised any more: the empty language stands for it.
        · have hfault := p.failAndBump_yields .noEnumMember 0
          have hrest := ih _ (Nat.lt_of_le_of_lt hfault.length_le hp)
          exact (hfault.trans hrest).mono (by rw [zero_mul]; exact bot_le)
        next hident =>
            have hitem := (leads_enumMember hg).yieldsAt hp.le (by simpa using hident)
            have hrest := hmore _ (Nat.lt_of_le_of_lt hitem.length_le hp)
            exact (hitem.trans hrest).mono listed_step

theorem leads_enumDeclaration (hg : g.Fits n) :
    Leads n .kwEnum (Shape.node .enumDecl) g.enumDeclaration := by
  have hmembers : Parses n (listed (Shape.node .enumMember)) (fun p => g.enumMembers p.rounds p) :=
    fun p hp => parses_enumMembers hg p.rounds p hp
  have hbraces := ((leads_bump n .lBrace (by decide)).comp hmembers).comp
    (parses_expect n .rBrace .noCloseBrace (by decide))
  have hbody := (((leads_bump n .kwEnum (by decide)).comp ((leads_name n).orFail .noEnumName)).comp
    (hbraces.orFail .noOpenBrace)).comp (parses_skip n .semicolon (by decide))
  exact hbody.node rfl

/-! ### Control flow -/

theorem leads_ifStatement (hg : g.Fits n) : Leads n .kwIf (Shape.node .ifStmt) g.ifStatement := by
  have helse : Leads n .kwElse (Shape.node .elseBranch)
      (fun p => p.node .elseBranch fun p => g.statement p.bump) :=
    ((leads_bump n .kwElse (by decide)).comp hg.statement).node rfl
  have hbody := ((((leads_bump n .kwIf (by decide)).comp hg.anyExpression).comp
    (parses_skip n .kwThen (by decide))).comp hg.statement).comp helse.option
  exact hbody.node rfl

theorem leads_whileStatement (hg : g.Fits n) :
    Leads n .kwWhile (Shape.node .whileStmt) g.whileStatement := by
  have hbody := (((leads_bump n .kwWhile (by decide)).comp hg.anyExpression).comp
    (parses_skip n .kwDo (by decide))).comp hg.statement
  exact hbody.node rfl

theorem leads_doStatement (hg : g.Fits n) : Leads n .kwDo (Shape.node .doStmt) g.doStatement := by
  have huntil := ((leads_bump n .kwUntil (by decide)).comp hg.anyExpression).orFail .noUntil
  have hbody := (((leads_bump n .kwDo (by decide)).comp hg.statement).comp huntil).comp
    (parses_skip n .semicolon (by decide))
  exact hbody.node rfl

theorem leads_headedStatement (hg : g.Fits n) {kind : TokenKind} {nodeKind : NodeKind}
    (hkind : Plain kind)
    (hshape : token kind * Shape.expression * Shape.statement = nodeKind.production) :
    Leads n kind (Shape.node nodeKind) (g.headedStatement nodeKind) :=
  (((leads_bump n kind hkind).comp hg.anyExpression).comp hg.statement).node hshape

theorem leads_jumpStatement {kind : TokenKind} {nodeKind : NodeKind} (hkind : Plain kind)
    (hshape : token kind * optional (token .semicolon) = nodeKind.production) :
    Leads n kind (Shape.node nodeKind) (jumpStatement nodeKind) :=
  ((leads_bump n kind hkind).comp (parses_skip n .semicolon (by decide))).node hshape

theorem leads_returnStatement (hg : g.Fits n) :
    Leads n .kwReturn (Shape.node .returnStmt) g.returnStatement := by
  have hvalue : Parses n (optional Shape.expression)
      (fun p => if p.current.startsExpr then g.anyExpression p else p) :=
    .ite (fun p hp _ => (hg.anyExpression p hp).mono (le_optional _))
      ((parses_id n).mono (one_le_optional _))
  have hbody := ((leads_bump n .kwReturn (by decide)).comp hvalue).comp
    (parses_skip n .semicolon (by decide))
  exact hbody.node rfl

theorem parses_clause (hg : g.Fits n) :
    Parses n (Shape.node .caseClause + Shape.node .defaultClause) g.clause := by
  have hstatements := hg.statements fun p => !isClauseEnd p.current
  have hcase := ((((leads_bump n .kwCase (by decide)).comp hg.anyExpression).comp
    (parses_expect n .colon .noColon (by decide))).comp hstatements).node
    (show _ = NodeKind.caseClause.production from rfl)
  have hdefault := (((leads_bump n .kwDefault (by decide)).comp
    (parses_expect n .colon .noColon (by decide))).comp hstatements).node
    (show _ = NodeKind.defaultClause.production from rfl)
  intro p hp
  unfold clause
  split
  next hcurrent => exact (hcase.yields hp.le hcurrent).mono le_self_add
  next hcurrent => exact (hdefault.yields hp.le hcurrent).mono le_add_self
  next =>
      have hfault := p.fail_yields .noClause 0
      have hrest := hg.statement _ (Nat.lt_of_le_of_lt hfault.length_le hp)
      exact (hfault.trans hrest).mono (by rw [zero_mul]; exact bot_le)

theorem leads_switchStatement (hg : g.Fits n) :
    Leads n .kwSwitch (Shape.node .switchStmt) g.switchStatement := by
  have hclauses : Parses n _ (repeatWhile (fun p => !p.isAt .rBrace && !p.atEnd) g.clause) :=
    parses_repeatWhile fun p hp _ => parses_clause hg p hp
  have hbraces := ((leads_bump n .lBrace (by decide)).comp hclauses).comp
    (parses_expect n .rBrace .noCloseBrace (by decide))
  have hbody := ((leads_bump n .kwSwitch (by decide)).comp hg.anyExpression).comp
    (hbraces.orFail .noOpenBrace)
  exact hbody.node rfl

/-! ### Assignments, calls and steps -/

/-- A call, or a step by one before or behind its operand, by the first token of the
expression and the kind of its node. -/
def HasEffect (first : TokenKind) (kind : NodeKind) : Prop :=
  kind = .callExpr ∨ kind = .postfixExpr ∨
    kind = .unaryExpr ∧ (first = .plusPlus ∨ first = .minusMinus)

theorem effect_yields {p q : Parser} {target : Completed}
    (h : p.Forms Shape.expression (target, q)) (hkind : HasEffect p.current target.kind) :
    p.Yields effect q where
  length_le := h.length_le
  errors_le := h.errors_le
  reads hclean := by
    obtain ⟨children, hcompletes, -, hshaped⟩ := h.completes hclean
    refine ⟨[.node target.kind children], ?_, hcompletes.reads, ?_⟩
    · rcases hkind with hcall | hbehind | ⟨hunary, hstep⟩
      · exact .inl (.inl ⟨children, by rw [hcall]⟩)
      · exact .inl (.inr ⟨children, by rw [hbehind]⟩)
      · rw [hunary] at hcompletes hshaped ⊢
        cases hshaped with
        | node hmem _ =>
            obtain ⟨-, ⟨t, -, rfl⟩, operand, -, rfl⟩ := hmem
            have hfirst : p.current = t.kind := by
              rw [current, hcompletes.taken]
              rfl
            exact .inr ⟨t, operand, hfirst ▸ hstep, rfl⟩
    · intro tree htree
      rw [List.mem_singleton.mp htree]
      exact hshaped

/-- An expression alone is a statement if it has an effect, and else is reported. -/
theorem effectOrFail_yields {p q : Parser} {target : Completed}
    (h : p.Forms Shape.expression (target, q)) {hasEffect : Bool}
    (heffect : hasEffect = true → HasEffect p.current target.kind) :
    p.Yields effect (if hasEffect then q else q.fail .noEffect) := by
  split
  next htrue => exact effect_yields h (heffect htrue)
  · exact h.yields.fail .noEffect effect

theorem parses_expressionStatement (hg : g.Fits n) (terminated : Bool) {p : Parser}
    (hp : p.rest.length ≤ n) : p.Yields step (g.expressionStatement terminated p) := by
  have hforms := expressionRule_forms hg TokenKind.unaryPower (p := p.reserve.2) hp
  -- Which statement it is shows only behind the first expression, once its place is reserved.
  unfold expressionStatement
  dsimp only
  generalize g.expressionRule TokenKind.unaryPower p.reserve.2 = r at hforms
  obtain ⟨target, q⟩ := r
  have hq : q.rest.length ≤ n := Nat.le_trans hforms.length_le hp
  split
  next hassign =>
      have hvalue := ((leads_bumpThat n hassign rfl rfl).comp hg.anyExpression).comp
        (parses_terminator n terminated)
      have hbody := hforms.yields.trans (hvalue.yields hq rfl)
      rw [← mul_assoc, ← mul_assoc] at hbody
      have hstatement : p.Forms (Shape.node .assignStmt) _ := complete_forms hbody
      exact hstatement.yields.mono le_self_add
  next =>
      have hstatement : ∀ hasEffect : Bool,
          (hasEffect = true → HasEffect p.reserve.2.current target.kind) →
          p.Forms (Shape.node .exprStmt) _ := fun hasEffect heffect =>
        complete_forms ((effectOrFail_yields hforms heffect).trans
          (parses_terminator _ terminated _ (Nat.lt_succ_self _)))
      refine (hstatement _ fun heffect => ?_).yields.mono le_add_self
      split at heffect
      next hcall => exact .inl hcall
      next hbehind => exact .inr (.inl hbehind)
      next hunary => exact .inr (.inr ⟨hunary, by simpa using heffect⟩)
      next => cases heffect

theorem leads_forHead (hg : g.Fits n) : Leads n .lParen Shape.forHead g.forHead := by
  have hstep : Parses n step (g.expressionStatement false) :=
    fun p hp => parses_expressionStatement hg false hp.le
  have hinit : Parses n (optional (Shape.node .varStmt + step)) (fun p =>
      if p.isAt .kwVar then g.varStatement false p
      else if p.isAt .semicolon then p
      else g.expressionStatement false p) := by
    refine .ite (fun p hp hat => ?_) (.ite (fun p _ _ => ?_) ?_)
    · exact ((leads_varStatement hg false).yieldsAt hp.le hat).mono
        (le_self_add.trans (le_optional _))
    · exact (Yields.refl p).mono (one_le_optional _)
    · exact hstep.mono (le_add_self.trans (le_optional _))
  have htest : Parses n (optional Shape.expression)
      (fun p => if p.isAt .semicolon then p else g.anyExpression p) :=
    .ite (fun p _ _ => (Yields.refl p).mono (one_le_optional _))
      (hg.anyExpression.mono (le_optional _))
  have hlast : Parses n (optional step)
      (fun p => if p.isAt .rParen then p else g.expressionStatement false p) :=
    .ite (fun p _ _ => (Yields.refl p).mono (one_le_optional _)) (hstep.mono (le_optional _))
  have hsemicolon : Parses n (token .semicolon) (expect .semicolon .noSemicolon) :=
    parses_expect n .semicolon .noSemicolon (by decide)
  exact ((((((leads_bump n .lParen (by decide)).comp hinit).comp hsemicolon).comp htest).comp
    hsemicolon).comp hlast).comp (parses_expect n .rParen .noCloseParen (by decide))

theorem leads_forStatement (hg : g.Fits n) :
    Leads n .kwFor (Shape.node .forStmt) g.forStatement := by
  have hbody := ((leads_bump n .kwFor (by decide)).comp
    ((leads_forHead hg).orFail .noOpenParen)).comp hg.statement
  exact hbody.node rfl

/-! ### Statements -/

theorem parses_statementRule (hg : g.Fits n) :
    Parses (n + 1) Shape.statement g.statementRule := by
  intro p hp
  replace hp : p.rest.length ≤ n := Nat.le_of_lt_succ hp
  have hnode : ∀ {kind : TokenKind} {nodeKind : NodeKind} {rule : Parser → Parser},
      Leads n kind (Shape.node nodeKind) rule → p.current = kind →
      nodeKind.isStatement = true → p.Yields Shape.statement (rule p) :=
    fun h hcurrent hstatement => (h.yields hp hcurrent).mono (nodeThat_of_node hstatement)
  have hstep : step ≤ Shape.statement := add_le (nodeThat_of_node rfl) (nodeThat_of_node rfl)
  unfold statementRule
  split
  next h => exact hnode ((leads_bump n .semicolon (by decide)).node rfl) h rfl
  next h => exact hnode (leads_block hg) h rfl
  next h => exact hnode ((leads_bump n .macroLine (by decide)).node rfl) h rfl
  next h => exact hnode (leads_varStatement hg true) h rfl
  next h => exact hnode (leads_globalVarStatement n) h rfl
  next h => exact hnode (leads_enumDeclaration hg) h rfl
  next h => exact (function_forms hg rfl hp h).yields.mono (nodeThat_of_node rfl)
  next h => exact hnode (leads_ifStatement hg) h rfl
  next h => exact hnode (leads_whileStatement hg) h rfl
  next h => exact hnode (leads_doStatement hg) h rfl
  next h => exact hnode (leads_forStatement hg) h rfl
  next h => exact hnode (leads_headedStatement hg (by decide) rfl) h rfl
  next h => exact hnode (leads_headedStatement hg (by decide) rfl) h rfl
  next h => exact hnode (leads_switchStatement hg) h rfl
  next h => exact hnode (leads_jumpStatement (by decide) rfl) h rfl
  next h => exact hnode (leads_jumpStatement (by decide) rfl) h rfl
  next h => exact hnode (leads_jumpStatement (by decide) rfl) h rfl
  next h => exact hnode (leads_returnStatement hg) h rfl
  next => exact p.fail_yields .noStatement _
  next =>
      split
      · exact (parses_expressionStatement hg true hp).mono hstep
      · exact p.failAndBump_yields .noStatement _

/-- The grammar yields statements and expressions up to as many tokens as it is deep. -/
theorem ofDepth_fits (depth : Nat) : (ofDepth depth).Fits depth := by
  induction depth with
  | zero => exact ⟨nofun, nofun⟩
  | succ depth ih =>
      refine ⟨parses_statementRule ih, fun power p hp => ?_⟩
      exact (expressionRule_forms ih power (Nat.le_of_lt_succ hp)).yields

theorem parses_topLevelStatement (hg : g.Fits n) :
    Parses n Shape.statement g.topLevelStatement :=
  .ite (fun p _ _ => p.failAndBump_yields .strayCloseBrace _) hg.statement

end Gml.Grammar
