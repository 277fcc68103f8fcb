import Gml.Proofs.Grammar.Realizing
import Gml.Proofs.Parse.Lossless
import Gml.Proofs.Parser.Productions

/-!
# The rules of the parser run their plans
-/
namespace Gml.Grammar

open Gml.Parser Plan

/-- With less than `n` tokens left the grammar does what the plans of statements and expressions
say, and a statement takes a token except before a closing brace and at the end. -/
structure Realized (g : Grammar) (n : Nat) : Prop where
  sound : g.Sound
  statement : Realizes n (.rule .statement) g.statement
  expression : ∀ power, Realizes n (.rule (.expression power)) (g.expression power)
  takes : ∀ p : Parser, p.rest.length < n → p.current ≠ .rBrace → p.current ≠ .eof →
    (g.statement p).rest.length < p.rest.length

variable {g : Grammar} {n : Nat}

theorem Realized.anyExpression (hg : g.Realized n) :
    Realizes n Plan.anyExpression g.anyExpression :=
  hg.expression 0

theorem Realized.expressionAfter (hg : g.Realized n) {kind : TokenKind} (hkind : kind ≠ .eof) :
    Begins n kind Plan.expressionAfter (fun p => g.anyExpression p.bump) :=
  (begins_take n hkind).comp hg.anyExpression

theorem Realized.below {m : Nat} (hg : g.Realized n) (hle : m ≤ n) : g.Realized m where
  sound := hg.sound
  statement := hg.statement.below hle
  expression power := (hg.expression power).below hle
  takes p hp := hg.takes p (Nat.lt_of_lt_of_le hp hle)

theorem rest_ne_nil {p : Parser} (hp : p.current ≠ .eof) : p.rest ≠ [] := by
  intro hrest
  rw [current, hrest] at hp
  exact hp rfl

/-! ### Functions -/

theorem realizes_statements (hg : g.Realized n) : Realizes n (.rule .statements)
    (repeatWhile (fun p => !p.isAt .rBrace && !p.atEnd) g.statement) := by
  refine realizes_repeatWhile _ rfl (fun p => ?_) fun p hp hstops => ?_
  · rw [Bool.not_or]
    rfl
  · rw [Bool.or_eq_false_iff, beq_eq_false_iff_ne, beq_eq_false_iff_ne] at hstops
    exact ⟨hg.statement p hp, hg.takes p hp hstops.1 hstops.2⟩

theorem begins_block (hg : g.Realized n) : Begins n .lBrace Plan.block g.block :=
  (((begins_take n (by decide)).comp (realizes_statements hg)).comp
    (realizes_expect n .noCloseBrace (by decide))).node .block

theorem realizes_initializer (hg : g.Realized n) : Realizes n Plan.initializer g.initializer :=
  (hg.expressionAfter (by decide)).option

theorem begins_parameter (hg : g.Realized n) :
    Begins n .ident Plan.parameter (fun p => g.initializer p.name) :=
  (begins_name n).comp (realizes_initializer hg)

theorem realizes_parameters (hg : g.Realized n) (rounds : Nat) :
    Realizes (min n rounds) (.rule .parameters) (g.parameters rounds) := by
  induction rounds with
  | zero =>
      intro p hp
      omega
  | succ rounds ih =>
      intro p hp
      refine .rule ?_
      rw [parameters]
      refine follows_choice (fun _ => follows_done p) fun _ => ?_
      refine follows_choice_not (fun hident => ?_) fun _ => follows_fault .noParameterName p
      have hitem := (begins_parameter hg).follows (p := p) (by omega) (beq_iff_eq.mp hident)
      have hlength := hitem.length_le
      exact hitem.beforeComma (fun p => g.initializer p.name) (by omega) ih

theorem begins_parameterList (hg : g.Realized n) :
    Begins n .lParen Plan.parameterList g.parameterList := by
  have hparameters : Realizes n (.rule .parameters) (fun p => g.parameters p.rounds p) :=
    fun p hp => realizes_parameters hg p.rounds p (by rw [rounds]; omega)
  exact (((begins_take n (by decide)).comp hparameters).comp
    (realizes_expect n .noCloseParen (by decide))).node .paramList

theorem realizes_constructorWord (n : Nat) : Realizes n Plan.constructorWord
    (fun p => if p.isAt .ident && p.currentText == "constructor" then p.bump else p) := by
  intro p hp
  refine .look ?_
  change p.Follows _ (if p.current == .ident && p.currentText == "constructor" then p.bump else p)
  cases hword : p.current == .ident && p.currentText == "constructor" with
  | true =>
      rw [Bool.and_eq_true, beq_iff_eq] at hword
      exact (begins_take n (by decide)).follows (Nat.le_of_lt hp) hword.1
  | false => exact follows_done p

theorem function_settles (hg : g.Realized n) (kind : NodeKind) {p : Parser} (hp : p.rest.length ≤ n)
    (hcurrent : p.current = .kwFunction) : p.Settles (Plan.function kind) (g.function kind p) := by
  have hparts := ((((begins_take n (show TokenKind.kwFunction ≠ .eof by decide)).comp
    (begins_name n).option).comp ((begins_parameterList hg).orFault .noOpenParen)).comp
    (realizes_constructorWord n)).comp ((begins_block hg).orFault .noFunctionBody)
  exact hparts.completeNode kind hp hcurrent

/-! ### Operands -/

theorem realizes_items (hg : g.Realized n) (close : TokenKind) :
    Realizes n (.rule (.items close)) (fun p => itemsUntil close g.anyExpression p.rounds p) :=
  fun p hp => realizes_itemsUntil close hg.anyExpression p.rounds p (by rw [rounds]; omega)

theorem begins_argumentList (hg : g.Realized n) :
    Begins n .lParen Plan.argumentList g.argumentList :=
  (((begins_take n (by decide)).comp (realizes_items hg .rParen)).comp
    (realizes_expect n .noCloseParen (by decide))).node .argList

theorem realizes_indices (hg : g.Realized n) :
    Realizes n (.rule .indices)
      (repeatWhile (·.isAt .comma) (fun p => g.anyExpression p.bump)) := by
  have hmore : Begins n .comma Plan.expressionAfter (fun p => g.anyExpression p.bump) :=
    hg.expressionAfter (by decide)
  refine realizes_repeatWhile _ rfl (fun p => by rw [bne, Bool.not_not]; rfl) fun p hp hstops => ?_
  have hcomma : p.current = .comma := by simpa using hstops
  have hbump := (follows_take (p := p) (by rw [hcomma]; decide)).2
  have hvalue := hg.anyExpression p.bump (by omega)
  exact ⟨hmore.follows (Nat.le_of_lt hp) hcomma, Nat.lt_of_le_of_lt hvalue.length_le hbump⟩

theorem noExpression_settles (p : Parser) : p.Settles Plan.noExpression
    (p.completeNode .error fun p =>
      let p := p.fail .noExpression
      if isCloser p.current then p else p.bump) := by
  have hrest : ∀ q : Parser, q.Follows (.choice isCloser .done .take)
      (if isCloser q.current then q else q.bump) := fun q =>
    follows_choice (fun _ => follows_done q) fun hcloser => (follows_take (by
      rintro heof
      rw [heof] at hcloser
      cases hcloser)).1
  exact ((follows_fault .noExpression _).trans (hrest _)).completes .error

theorem primary_settles (hg : g.Realized n) {p : Parser} (hp : p.rest.length ≤ n) :
    p.Settles (Plan.primary p.current) (g.primary p) := by
  have htake : ∀ {kind : TokenKind} (nodeKind : NodeKind), kind ≠ .eof → p.current = kind →
      p.Settles (.node nodeKind .take) (p.completeNode nodeKind bump) :=
    fun nodeKind hkind hcurrent => (begins_take n hkind).completeNode nodeKind hp hcurrent
  unfold primary
  split
  iterate 5 next h => rw [h]; exact htake .literal (by decide) h
  iterate 6 next h => rw [h]; exact htake .nameRef (by decide) h
  next h =>
      rw [h]
      exact function_settles hg .functionExpr hp h
  next h =>
      rw [h]
      exact (((hg.expressionAfter (by decide)).comp
        (realizes_expect n .noCloseParen (by decide))).completeNode .parenExpr hp h)
  next h =>
      rw [h]
      exact ((((begins_take n (by decide)).comp (realizes_items hg .rBracket)).comp
        (realizes_expect n .noCloseBracket (by decide))).completeNode .arrayLiteral hp h)
  next =>
      have hplan : Plan.primary p.current = Plan.noExpression := by
        unfold Plan.primary
        split <;> first | rfl | contradiction
      rw [hplan]
      exact noExpression_settles p

theorem operand_settles (hg : g.Realized n) {p : Parser} (hp : p.rest.length ≤ n) :
    p.Settles Plan.operand (g.operand p) := by
  refine .look ?_
  unfold operand
  cases hpower : p.current.prefixPower? with
  | some power =>
      have hkind : p.current ≠ .eof := by
        intro heof
        rw [heof] at hpower
        cases hpower
      exact ((begins_take n hkind).comp (hg.expression power)).completeNode .unaryExpr hp rfl
  | none => exact primary_settles hg hp

/-! ### What follows an operand -/

theorem begins_field (n : Nat) : Begins n .dot (take.seq (.orFault .ident .name .noFieldName))
    (fun p =>
      let p := p.bump
      if p.isAt .ident then p.name else p.fail .noFieldName) :=
  (begins_take n (by decide)).comp ((begins_name n).orFault .noFieldName)

theorem begins_indices (hg : g.Realized n) {kind : TokenKind} (hkind : kind ≠ .eof) :
    Begins n kind (((take.seq .anyExpression).seq (.rule .indices)).seq
      (.expect .rBracket .noCloseBracket)) (fun p => g.indices p.bump) :=
  (((begins_take n hkind).comp hg.anyExpression).comp (realizes_indices hg)).comp
    (realizes_expect n .noCloseBracket (by decide))

theorem begins_conditional (hg : g.Realized n) :
    Begins n .question ((Plan.expressionAfter.seq (.expect .colon .noConditionalColon)).seq
      .anyExpression)
      (fun p => g.anyExpression ((g.anyExpression p.bump).expect .colon .noConditionalColon)) :=
  ((hg.expressionAfter (by decide)).comp (realizes_expect n .noConditionalColon (by decide))).comp
    hg.anyExpression

theorem suffix_grows (hg : g.Realized n) {p q : Parser} {tree : Tree} {left : Completed}
    {r : Completed × Parser} (hleft : p.Completes tree (left, q)) (hq : q.rest.length ≤ n)
    (h : g.suffix? left q = some r) : ∃ plan, Plan.suffix? q.current = some plan ∧
      p.Grows tree (left, q) plan r ∧ r.2.rest.length < n := by
  unfold suffix? at h
  split at h
  next hcurrent =>
      cases h
      rw [hcurrent]
      exact ⟨_, rfl, (begins_field n).wrapNode .fieldExpr hleft hq hcurrent⟩
  next hcurrent =>
      cases h
      rw [hcurrent]
      exact ⟨_, rfl, (begins_argumentList hg).wrapNode .callExpr hleft hq hcurrent⟩
  next hcurrent =>
      cases h
      rw [hcurrent]
      exact ⟨_, rfl, (begins_take n (by decide)).wrapNode .postfixExpr hleft hq hcurrent⟩
  next hcurrent =>
      cases h
      rw [hcurrent]
      exact ⟨_, rfl, (begins_take n (by decide)).wrapNode .postfixExpr hleft hq hcurrent⟩
  next hdot hparen hplus hminus =>
      split at h
      next hopen =>
          cases h
          have hkind : q.current ≠ .eof := by
            intro heof
            rw [heof] at hopen
            cases hopen
          refine ⟨_, ?_, (begins_indices hg hkind).wrapNode .indexExpr hleft hq rfl⟩
          unfold Plan.suffix?
          split <;> first | contradiction | exact if_pos hopen
      · cases h

theorem suffix_eq_none {q : Parser} {left : Completed} (h : g.suffix? left q = none) :
    Plan.suffix? q.current = none := by
  unfold suffix? at h
  split at h
  iterate 4 cases h
  next hdot hparen hplus hminus =>
      split at h
      · cases h
      next hopen =>
          unfold Plan.suffix?
          split <;> first | contradiction | exact if_neg hopen

theorem extension_grows {power : Nat} {plan : Plan} {p q : Parser} {tree : Tree} {left : Completed}
    {r : Completed × Parser} (hplan : Plan.extension? power q.current = some plan)
    (h : p.Grows tree (left, q) (plan.seq (.rule (.extension power))) r) :
    p.Grows tree (left, q) (.rule (.extension power)) r := by
  refine .rule (.look ?_)
  rw [hplan]
  exact h

theorem extension_done {power : Nat} {p q : Parser} {left : Completed} {children : List Tree}
    (hplan : Plan.extension? power q.current = none)
    (h : p.Completes (.node left.kind children) (left, q)) :
    p.Grows (.node left.kind children) (left, q) (.rule (.extension power)) (left, q) := by
  refine .rule (.look ?_)
  rw [hplan]
  exact grows_done h

theorem extend_grows (hg : g.Realized n) (power rounds : Nat) {p q : Parser} {left : Completed}
    {children : List Tree} (hleft : p.Completes (.node left.kind children) (left, q))
    (hq : q.rest.length ≤ n) (hrounds : q.rest.length < rounds) :
    p.Grows (.node left.kind children) (left, q) (.rule (.extension power))
      (g.extend power rounds left q) := by
  induction rounds generalizing children left q with
  | zero => omega
  | succ rounds ih =>
      -- Below this place the grammar is used for what is left, so that each round takes a token.
      have hbelow := hg.below hq
      have hmore : ∀ {plan : Plan} {r : Completed × Parser},
          Plan.extension? power q.current = some plan →
          p.Grows (.node left.kind children) (left, q) plan r ∧ r.2.rest.length < q.rest.length →
          p.Grows (.node left.kind children) (left, q) (.rule (.extension power))
            (g.extend power rounds r.1 r.2) := fun hplan hgrows =>
        extension_grows hplan (hgrows.1.trans fun _ hcompletes =>
          ih hcompletes ((Nat.le_of_lt hgrows.2).trans hq)
            (Nat.lt_of_lt_of_le hgrows.2 (Nat.le_of_lt_succ hrounds)))
      rw [extend]
      cases hsuffix : g.suffix? left q with
      | some r =>
          obtain ⟨plan, hplan, hgrows⟩ := suffix_grows hbelow hleft (Nat.le_refl _) hsuffix
          exact hmore (by rw [Plan.extension?, hplan]) hgrows
      | none =>
          have hnone := suffix_eq_none hsuffix
          dsimp only
          cases hpower : q.current.infixPower? with
          | some powers =>
              obtain ⟨leftPower, rightPower⟩ := powers
              dsimp only
              split
              next hlt =>
                  refine extension_done ?_ hleft
                  simp only [Plan.extension?, hnone, hpower, if_pos hlt]
              next hlt =>
                  have hkind : q.current ≠ .eof := by
                    intro heof
                    rw [heof] at hpower
                    cases hpower
                  refine hmore ?_ (((begins_take _ hkind).comp
                    (hbelow.expression rightPower)).wrapNode .binaryExpr hleft (Nat.le_refl _) rfl)
                  simp only [Plan.extension?, hnone, hpower, if_neg hlt]
                  rfl
          | none =>
              dsimp only
              split
              next hquestion =>
                  have hcurrent : q.current = .question := by simp_all [isAt]
                  refine hmore ?_ ((begins_conditional hbelow).wrapNode .ternaryExpr hleft
                    (Nat.le_refl _) hcurrent)
                  simp only [Plan.extension?, hnone, hpower]
                  exact if_pos hquestion
              next hquestion =>
                  refine extension_done ?_ hleft
                  simp only [Plan.extension?, hnone, hpower]
                  exact if_neg hquestion

theorem expressionRule_settles (hg : g.Realized n) (power : Nat) {p : Parser}
    (hp : p.rest.length ≤ n) :
    p.Settles (Plan.body (.expression power)) (g.expressionRule power p) := by
  have hoperand := operand_settles hg hp
  have hlength := hoperand.follows.length_le
  unfold expressionRule
  generalize g.operand p = r at hoperand hlength
  obtain ⟨left, q⟩ := r
  exact hoperand.trans fun children hcompletes =>
    extend_grows hg power q.rounds hcompletes (hlength.trans hp) (Nat.lt_succ_self _)

/-! ### Declarations -/

/-- Enough rounds read all items. -/
theorem realizes_declared {item : Parser → Parser} {plan : Plan} {listed : Rule}
    (hbody : Plan.body listed = .orFault .ident (plan.seq (.moreAfterComma (.rule listed)))
      .noVariableName)
    (h : Begins n .ident plan item) (rounds : Nat) :
    Realizes (min n rounds) (.rule listed) (declared item rounds) := by
  induction rounds with
  | zero =>
      intro p hp
      omega
  | succ rounds ih =>
      intro p hp
      refine .rule ?_
      rw [hbody, declared]
      refine follows_choice_not (fun hident => ?_) fun _ => follows_fault .noVariableName p
      have hitem := h.follows (p := p) (by omega) (beq_iff_eq.mp hident)
      have hlength := hitem.length_le
      exact hitem.beforeComma item (by omega) ih

theorem realizes_declarations {item : Parser → Parser} {plan : Plan} {listed : Rule}
    (hbody : Plan.body listed = .orFault .ident (plan.seq (.moreAfterComma (.rule listed)))
      .noVariableName)
    (h : Begins n .ident plan item) :
    Realizes n (.rule listed) (fun p => declared item p.rounds p) :=
  fun p hp => realizes_declared hbody h p.rounds p (by rw [rounds]; omega)

theorem begins_declarator (hg : g.Realized n) : Begins n .ident Plan.declarator g.declarator := by
  have hvalue : Realizes n
      (.option (fun kind => kind == .assign || kind == .colonAssign) Plan.expressionAfter)
      (fun p => if p.isAt .assign || p.isAt .colonAssign then g.anyExpression p.bump else p) := by
    refine .choice (fun p hp htest => ?_) fun p _ _ => follows_done p
    refine (hg.expressionAfter ?_).follows (Nat.le_of_lt hp) rfl
    intro heof
    rw [heof] at htest
    cases htest
  exact ((begins_name n).comp hvalue).node .varDeclarator

theorem realizes_terminator (n : Nat) (terminated : Bool) :
    Realizes n (Plan.terminator terminated)
      (fun p => if terminated then p.skip .semicolon else p) := by
  cases terminated with
  | true => exact realizes_skip n (by decide)
  | false => exact realizes_done n

theorem begins_varStatement (hg : g.Realized n) (terminated : Bool) :
    Begins n .kwVar (Plan.varStatement terminated) (g.varStatement terminated) :=
  (((begins_take n (by decide)).comp (realizes_declarations rfl (begins_declarator hg))).comp
    (realizes_terminator n terminated)).node .varStmt

theorem begins_globalVarStatement (n : Nat) :
    Begins n .kwGlobalvar Plan.globalVarStatement Grammar.globalVarStatement :=
  (((begins_take n (by decide)).comp (realizes_declarations rfl (begins_name n))).comp
    (realizes_skip n (by decide))).node .globalVarStmt

theorem begins_enumMember (hg : g.Realized n) : Begins n .ident Plan.enumMember g.enumMember :=
  (begins_parameter hg).node .enumMember

theorem realizes_enumMembers (hg : g.Realized n) (rounds : Nat) :
    Realizes (min n rounds) (.rule .members) (g.enumMembers rounds) := by
  induction rounds with
  | zero =>
      intro p hp
      omega
  | succ rounds ih =>
      intro p hp
      refine .rule ?_
      rw [enumMembers]
      refine follows_choice (fun _ => follows_done p) fun hstops => ?_
      refine follows_choice_not (fun hident => ?_) fun _ => ?_
      · have hitem := (begins_enumMember hg).follows (p := p) (by omega) (beq_iff_eq.mp hident)
        have hlength := hitem.length_le
        exact hitem.beforeComma g.enumMember (by omega) ih
      · have hfault := realizes_failAndTake n .noEnumMember p (by omega)
        have heof : p.current ≠ .eof := by
          rw [Bool.or_eq_false_iff] at hstops
          simpa using hstops.2
        have htakes := (failAndBump_takes .noEnumMember p heof).2 (rest_ne_nil heof)
        exact hfault.trans (ih _ (by omega))

theorem begins_enumDeclaration (hg : g.Realized n) :
    Begins n .kwEnum Plan.enumDeclaration g.enumDeclaration := by
  have hmembers : Realizes n (.rule .members) (fun p => g.enumMembers p.rounds p) :=
    fun p hp => realizes_enumMembers hg p.rounds p (by rw [rounds]; omega)
  have hbraces := ((begins_take n (show TokenKind.lBrace ≠ .eof by decide)).comp hmembers).comp
    (realizes_expect n .noCloseBrace (show TokenKind.rBrace ≠ .eof by decide))
  exact ((((begins_take n (by decide)).comp ((begins_name n).orFault .noEnumName)).comp
    (hbraces.orFault .noOpenBrace)).comp (realizes_skip n (by decide))).node .enumDecl

/-! ### Control flow -/

theorem begins_ifStatement (hg : g.Realized n) : Begins n .kwIf Plan.ifStatement g.ifStatement := by
  have helse : Begins n .kwElse Plan.elseBranch
      (fun p => p.node .elseBranch fun p => g.statement p.bump) :=
    ((begins_take n (by decide)).comp hg.statement).node .elseBranch
  exact ((((hg.expressionAfter (by decide)).comp (realizes_skip n (by decide))).comp
    hg.statement).comp helse.option).node .ifStmt

theorem begins_whileStatement (hg : g.Realized n) :
    Begins n .kwWhile Plan.whileStatement g.whileStatement :=
  (((hg.expressionAfter (by decide)).comp (realizes_skip n (by decide))).comp
    hg.statement).node .whileStmt

theorem begins_doStatement (hg : g.Realized n) : Begins n .kwDo Plan.doStatement g.doStatement := by
  have huntil := (hg.expressionAfter (show TokenKind.kwUntil ≠ .eof by decide)).orFault .noUntil
  exact ((((begins_take n (by decide)).comp hg.statement).comp huntil).comp
    (realizes_skip n (by decide))).node .doStmt

theorem begins_headedStatement (hg : g.Realized n) {kind : TokenKind} (nodeKind : NodeKind)
    (hkind : kind ≠ .eof) :
    Begins n kind (Plan.headedStatement nodeKind) (g.headedStatement nodeKind) :=
  ((hg.expressionAfter hkind).comp hg.statement).node nodeKind

theorem begins_jumpStatement (n : Nat) {kind : TokenKind} (nodeKind : NodeKind)
    (hkind : kind ≠ .eof) :
    Begins n kind (Plan.jumpStatement nodeKind) (Grammar.jumpStatement nodeKind) :=
  ((begins_take n hkind).comp (realizes_skip n (by decide))).node nodeKind

theorem begins_returnStatement (hg : g.Realized n) :
    Begins n .kwReturn Plan.returnStatement g.returnStatement := by
  have hvalue : Realizes n (.option TokenKind.startsExpr Plan.anyExpression)
      (fun p => if p.current.startsExpr then g.anyExpression p else p) :=
    .choice (fun p hp _ => hg.anyExpression p hp) fun p _ _ => follows_done p
  exact (((begins_take n (by decide)).comp hvalue).comp
    (realizes_skip n (by decide))).node .returnStmt

theorem realizes_clauseBody (hg : g.Realized n) :
    Realizes n (.rule .clauseBody) g.clauseBody := by
  refine realizes_repeatWhile _ rfl (fun p => rfl) fun p hp hstops => ?_
  refine ⟨hg.statement p hp, hg.takes p hp ?_ ?_⟩
  · intro hkind
    rw [hkind] at hstops
    cases hstops
  · intro hkind
    rw [hkind] at hstops
    cases hstops

/-- A clause takes a token where a statement does. -/
theorem clause_follows (hg : g.Realized n) (p : Parser) (hp : p.rest.length < n)
    (hbrace : p.current ≠ .rBrace) (hend : p.current ≠ .eof) :
    p.Follows (.look fun kind _ => Plan.clause kind) (g.clause p) ∧
      (g.clause p).rest.length < p.rest.length := by
  have hbelow := hg.below (Nat.le_of_lt hp)
  have hcolon := realizes_expect p.rest.length .noColon (show TokenKind.colon ≠ .eof by decide)
  have hcase := (((hbelow.expressionAfter (show TokenKind.kwCase ≠ .eof by decide)).comp
    hcolon).comp
    (realizes_clauseBody hbelow)).node .caseClause
  have hdefault := (((begins_take _ (show TokenKind.kwDefault ≠ .eof by decide)).comp
    hcolon).comp
    (realizes_clauseBody hbelow)).node .defaultClause
  have hplan : p.Follows (Plan.clause p.current) (g.clause p) ∧
      (g.clause p).rest.length < p.rest.length := by
    unfold clause
    split
    next hcurrent =>
        rw [hcurrent]
        exact hcase p (Nat.le_refl _) hcurrent
    next hcurrent =>
        rw [hcurrent]
        exact hdefault p (Nat.le_refl _) hcurrent
    next =>
        have hplan : Plan.clause p.current = (Plan.fault .noClause).seq (.rule .statement) := by
          unfold Plan.clause
          split <;> first | rfl | contradiction
        rw [hplan]
        exact ⟨(follows_fault .noClause p).trans (hg.statement _ hp),
          hg.takes (p.fail .noClause) hp hbrace hend⟩
  exact ⟨hplan.1.look, hplan.2⟩

theorem begins_switchStatement (hg : g.Realized n) :
    Begins n .kwSwitch Plan.switchStatement g.switchStatement := by
  have hclauses : Realizes n (.rule .clauses)
      (repeatWhile (fun p => !p.isAt .rBrace && !p.atEnd) g.clause) := by
    refine realizes_repeatWhile _ rfl (fun p => ?_) fun p hp hstops => ?_
    · rw [Bool.not_or]
      rfl
    · rw [Bool.or_eq_false_iff, beq_eq_false_iff_ne, beq_eq_false_iff_ne] at hstops
      exact clause_follows hg p hp hstops.1 hstops.2
  have hbraces := ((begins_take n (show TokenKind.lBrace ≠ .eof by decide)).comp hclauses).comp
    (realizes_expect n .noCloseBrace (show TokenKind.rBrace ≠ .eof by decide))
  exact ((hg.expressionAfter (by decide)).comp (hbraces.orFault .noOpenBrace)).node .switchStmt

/-! ### Assignments, calls and steps -/

/-- Whether an expression alone is a statement can be told from its tree. -/
theorem hasEffect_iff {p q : Parser} {target : Completed} {children : List Tree}
    (h : p.Completes (.node target.kind children) (target, q))
    (htakes : isCloser p.current = false → p.rest ≠ [] → q.rest.length < p.rest.length) :
    (q.cursor [.node target.kind children]).hasEffect = true ↔ HasEffect p.current target.kind := by
  have htaken : p.rest = Tree.leavesAll children ++ q.rest := h.taken
  unfold Cursor.hasEffect cursor HasEffect
  dsimp only
  cases hkind : target.kind with
  | unaryExpr =>
      dsimp only
      cases hleaves : Tree.leavesAll children with
      | nil =>
          -- Nothing was taken, so that the next token closes something and is no sign.
          rw [hleaves, List.nil_append] at htaken
          have hcloser : isCloser p.current = true := by
            by_contra hopen
            rw [Bool.not_eq_true] at hopen
            have hlt := htakes hopen (rest_ne_nil (by
              intro heof
              rw [heof] at hopen
              cases hopen))
            rw [htaken] at hlt
            exact Nat.lt_irrefl _ hlt
          cases hsign : p.current <;>
            first | (rw [hsign] at hcloser; exact absurd hcloser (by decide)) | simp
      | cons sign leaves =>
          rw [hleaves] at htaken
          simp [current, htaken]
  | _ => simp

theorem expressionStatement_follows (hg : g.Realized n) (terminated : Bool) {p : Parser}
    (hp : p.rest.length ≤ n) :
    p.Follows (Plan.expressionStatement terminated) (g.expressionStatement terminated p) := by
  have hsettles := expressionRule_settles hg TokenKind.unaryPower (p := p.reserve.2) hp
  have hlength := hsettles.follows.length_le
  have htakes := fun hcloser =>
    (expressionRule_takes hg.sound TokenKind.unaryPower p.reserve.2 hcloser).2
  -- Which statement it is shows only behind the first expression, once its place is reserved.
  unfold expressionStatement
  dsimp only
  generalize g.expressionRule TokenKind.unaryPower p.reserve.2 = r at hsettles hlength htakes
  obtain ⟨target, q⟩ := r
  have hq : q.rest.length ≤ n := hlength.trans hp
  have hrule : p.reserve.2.Settles (.rule (.expression TokenKind.unaryPower)) (target, q) :=
    hsettles.rule
  split
  next hassign =>
      refine hrule.embeds fun children hcompletes => .look ?_
      have hkind : q.current ≠ .eof := by
        intro heof
        rw [heof] at hassign
        cases hassign
      have hvalue := (hg.expressionAfter hkind).comp (realizes_terminator n terminated)
      have hembeds := (hvalue.follows hq rfl).embeds (.node target.kind children) .assignStmt
      dsimp only
      rw [if_pos hassign]
      exact hembeds
  next hassign =>
      refine hrule.embeds fun children hcompletes => .look ?_
      dsimp only
      rw [if_neg hassign]
      refine effect_embeds (realizes_terminator (n + 1) terminated) (Nat.lt_succ_of_le hq)
        .exprStmt ?_
      rw [Bool.eq_iff_iff, hasEffect_iff hcompletes htakes]
      split <;> simp_all [HasEffect]

theorem begins_forHead (hg : g.Realized n) : Begins n .lParen Plan.forHead g.forHead := by
  have hstep : Realizes n (Plan.expressionStatement false) (g.expressionStatement false) :=
    fun p hp => expressionStatement_follows hg false (Nat.le_of_lt hp)
  have hinit : Realizes n Plan.forInit (fun p =>
      if p.isAt .kwVar then g.varStatement false p
      else if p.isAt .semicolon then p
      else g.expressionStatement false p) :=
    (begins_varStatement hg false).choice (.choice (fun p _ _ => follows_done p)
      fun p hp _ => hstep p hp)
  have htest : Realizes n (.choice (· == .semicolon) .done Plan.anyExpression)
      (fun p => if p.isAt .semicolon then p else g.anyExpression p) :=
    .choice (fun p _ _ => follows_done p) fun p hp _ => hg.anyExpression p hp
  have hlast : Realizes n (.choice (· == .rParen) .done (Plan.expressionStatement false))
      (fun p => if p.isAt .rParen then p else g.expressionStatement false p) :=
    .choice (fun p _ _ => follows_done p) fun p hp _ => hstep p hp
  have hsemicolon : Realizes n (.expect .semicolon .noSemicolon)
      (Parser.expect .semicolon .noSemicolon) := realizes_expect n .noSemicolon (by decide)
  exact ((((((begins_take n (by decide)).comp hinit).comp hsemicolon).comp htest).comp
    hsemicolon).comp hlast).comp (realizes_expect n .noCloseParen (by decide))

theorem begins_forStatement (hg : g.Realized n) :
    Begins n .kwFor Plan.forStatement g.forStatement :=
  (((begins_take n (by decide)).comp ((begins_forHead hg).orFault .noOpenParen)).comp
    hg.statement).node .forStmt

/-! ### Statements -/

theorem statementRule_follows (hg : g.Realized n) {p : Parser} (hp : p.rest.length ≤ n) :
    p.Follows (.rule .statement) (g.statementRule p) := by
  have hbegins : ∀ {kind : TokenKind} {reader : Parser → Parser},
      Begins n kind (Plan.statement kind) reader → p.current = kind →
      p.Follows (Plan.statement p.current) (reader p) := by
    intro kind reader h hcurrent
    rw [hcurrent]
    exact h.follows hp hcurrent
  refine .rule (.look ?_)
  unfold statementRule
  split
  next h => exact hbegins ((begins_take n (by decide)).node .emptyStmt) h
  next h => exact hbegins (begins_block hg) h
  next h => exact hbegins ((begins_take n (by decide)).node .macroDecl) h
  next h => exact hbegins (begins_varStatement hg true) h
  next h => exact hbegins (begins_globalVarStatement n) h
  next h => exact hbegins (begins_enumDeclaration hg) h
  next h =>
      rw [h]
      exact (function_settles hg .functionDecl hp h).follows
  next h => exact hbegins (begins_ifStatement hg) h
  next h => exact hbegins (begins_whileStatement hg) h
  next h => exact hbegins (begins_doStatement hg) h
  next h => exact hbegins (begins_forStatement hg) h
  next h => exact hbegins (begins_headedStatement hg .repeatStmt (by decide)) h
  next h => exact hbegins (begins_headedStatement hg .withStmt (by decide)) h
  next h => exact hbegins (begins_switchStatement hg) h
  next h => exact hbegins (begins_jumpStatement n .breakStmt (by decide)) h
  next h => exact hbegins (begins_jumpStatement n .continueStmt (by decide)) h
  next h => exact hbegins (begins_jumpStatement n .exitStmt (by decide)) h
  next h => exact hbegins (begins_returnStatement hg) h
  next h =>
      rw [h]
      exact follows_fault .noStatement p
  next =>
      have hplan : Plan.statement p.current = if p.current.startsExpr then
          Plan.expressionStatement true else .failAndTake .noStatement := by
        unfold Plan.statement
        split <;> first | rfl | contradiction
      rw [hplan]
      split
      · exact expressionStatement_follows hg true hp
      · exact realizes_failAndTake (n + 1) .noStatement p (Nat.lt_succ_of_le hp)

/-- The grammar does what the plans say up to as many tokens as it is deep. -/
theorem ofDepth_realized (depth : Nat) : (ofDepth depth).Realized depth := by
  induction depth with
  | zero => exact ⟨ofDepth_sound 0, fun _ h => by omega, fun _ _ h => by omega, fun _ h => by omega⟩
  | succ depth ih =>
      refine ⟨ofDepth_sound (depth + 1), fun p hp => ?_, fun power p hp => ?_, ?_⟩
      · exact statementRule_follows ih (Nat.le_of_lt_succ hp)
      · exact (expressionRule_settles ih power (Nat.le_of_lt_succ hp)).rule.follows
      · intro p hp hbrace hend
        exact (statementRule_takes (ofDepth_sound depth) p hbrace hend).2 (rest_ne_nil hend)

/-- A file is read as the plan of files says. -/
theorem follows_file (p : Parser) : p.Follows (.rule .file) p.read := by
  have hg := ofDepth_realized p.rounds
  refine realizes_repeatWhile .file rfl (fun q => rfl) (fun q hq hstops => ?_) p
    (Nat.lt_succ_self _)
  have hend : q.current ≠ .eof := by simpa using hstops
  refine ⟨follows_choice (fun _ => ?_) fun _ => hg.statement q hq,
    (topLevelStatement_takes _ q hend).2 (rest_ne_nil hend)⟩
  exact realizes_failAndTake _ .strayCloseBrace q hq

end Gml.Grammar

namespace Gml

/-- Reading a file is a run of its plan over the tokens that mean something. -/
theorem Parser.read_runs (tokens : List Token) (textEnd : Nat)
    (h : ∀ token ∈ tokens, token.kind ≠ .eof) : ∃ trees reports,
      (Parser.opened tokens textEnd).Reads trees (Parser.opened tokens textEnd).read ∧
      (Plan.rule .file).Runs ⟨Tree.meaningful tokens, []⟩ ⟨[], trees.reverse⟩ reports ∧
      (Parser.opened tokens textEnd).read.errors.toList = reports.map (Report.error textEnd) := by
  obtain ⟨trees, reports, hreads, hreports, hruns⟩ :=
    (Grammar.follows_file (Parser.opened tokens textEnd)).follows
  refine ⟨trees, reports, hreads, ?_, hreports.errors⟩
  have hfile := hruns []
  rwa [List.append_nil, Parser.cursor, Parser.cursor, Parser.rest_read tokens textEnd h] at hfile

/-- Parsing a text is a run of the plan of files. -/
theorem parse_runs (text : String) : ∃ trees reports,
    (Plan.rule .file).Runs ⟨Tree.meaningful (lex text), []⟩ ⟨[], trees.reverse⟩ reports ∧
    (parse text).tree = Tree.weaveRoot .sourceFile trees (lex text) ∧
    Tree.leavesAll trees = Tree.meaningful (lex text) ∧
    (parse text).errors = reports.map (Report.error text.utf8ByteSize) := by
  obtain ⟨trees, reports, hreads, hruns, herrors⟩ :=
    Parser.read_runs (lex text) text.utf8ByteSize (lex_ne_eof text)
  refine ⟨trees, reports, hruns, ?_, ?_, ?_⟩
  · rw [parse_tree_eq]
    exact hreads.build_eq_weaveRoot
  · exact hreads.leavesAll_eq (Parser.rest_read _ _ (lex_ne_eof text))
  · rw [parse_errors_eq]
    exact herrors

end Gml
