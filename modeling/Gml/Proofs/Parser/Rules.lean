import Gml.Parser.Statement
import Gml.Proofs.Parser.Reading

/-!
# What the rules of the grammar read

Each rule reads some trees, whatever text it meets, if the grammar below it does. Rules
that begin with a token of their own take at least this token, and a statement takes a
token wherever there is one left that closes nothing further out.
-/
namespace Gml.Grammar

open Gml.Parser

/-- Whatever is asked for, some trees are read. -/
structure Sound (g : Grammar) : Prop where
  statement : ∀ p : Parser, p.Advances (g.statement p)
  expression : ∀ (power : Nat) (p : Parser), p.Advances (g.expression power p)

variable {g : Grammar}

theorem Sound.anyExpression (hg : g.Sound) (p : Parser) : p.Advances (g.anyExpression p) :=
  hg.expression 0 p

/-- An expression behind a token. -/
theorem Sound.expressionAfter (hg : g.Sound) (p : Parser) :
    p.Takes (g.anyExpression p.bump) :=
  p.bump_takes.trans (hg.anyExpression p.bump)

/-! ### Functions -/

theorem block_takes (hg : g.Sound) (p : Parser) : p.Takes (g.block p) :=
  node_takes .block (fun p =>
    (p.bump_takes.trans (repeatWhile_advances _ hg.statement _)).trans
      (expect_advances .rBrace .noCloseBrace _)) p

theorem initializer_advances (hg : g.Sound) (p : Parser) : p.Advances (g.initializer p) := by
  unfold initializer
  exact advances_ite (hg.expressionAfter p).1 (.refl p)

theorem parameters_advances (hg : g.Sound) (rounds : Nat) (p : Parser) :
    p.Advances (g.parameters rounds p) := by
  induction rounds generalizing p with
  | zero => exact .refl p
  | succ rounds ih =>
      have hitem : p.Advances (g.initializer p.name) :=
        p.name_takes.1.trans (initializer_advances hg p.name)
      rw [parameters]
      refine advances_ite (.refl p) (advances_ite (p.fail_advances .noParameterName) ?_)
      exact advances_ite ((hitem.trans (bump_takes _).1).trans (ih _)) hitem

theorem parameterList_takes (hg : g.Sound) (p : Parser) : p.Takes (g.parameterList p) :=
  node_takes .paramList (fun p =>
    (p.bump_takes.trans (parameters_advances hg _ p.bump)).trans
      (expect_advances .rParen .noCloseParen _)) p

/-- The parts of a function, each of which may be missing. -/
theorem function_parts_take (hg : g.Sound) (p : Parser) :
    p.Takes
      (let p := p.bump
      let p := if p.isAt .ident then p.name else p
      let p := if p.isAt .lParen then g.parameterList p else p.fail .noOpenParen
      let p := if p.isAt .ident && p.currentText == "constructor" then p.bump else p
      if p.isAt .lBrace then g.block p else p.fail .noFunctionBody) := by
  have hname : ∀ q : Parser, q.Advances (if q.isAt .ident then q.name else q) :=
    fun q => advances_ite q.name_takes.1 (.refl q)
  have hparameters : ∀ q : Parser,
      q.Advances (if q.isAt .lParen then g.parameterList q else q.fail .noOpenParen) :=
    fun q => advances_ite (parameterList_takes hg q).1 (q.fail_advances .noOpenParen)
  have hconstructor : ∀ q : Parser,
      q.Advances (if q.isAt .ident && q.currentText == "constructor" then q.bump else q) :=
    fun q => advances_ite q.bump_takes.1 (.refl q)
  have hblock : ∀ q : Parser,
      q.Advances (if q.isAt .lBrace then g.block q else q.fail .noFunctionBody) :=
    fun q => advances_ite (block_takes hg q).1 (q.fail_advances .noFunctionBody)
  exact (((p.bump_takes.trans (hname _)).trans (hparameters _)).trans (hconstructor _)).trans
    (hblock _)

theorem function_finishes (hg : g.Sound) (kind : NodeKind) (p : Parser) :
    p.Finishes (g.function kind p) :=
  completeNode_finishes kind (function_parts_take hg _).1

theorem function_takes (hg : g.Sound) (kind : NodeKind) (p : Parser) :
    p.Takes (g.function kind p).2 :=
  completeNode_takes kind (function_parts_take hg _)

/-! ### Operands -/

theorem argumentList_takes (hg : g.Sound) (p : Parser) : p.Takes (g.argumentList p) :=
  node_takes .argList (fun p =>
    (p.bump_takes.trans (itemsUntil_advances _ hg.anyExpression _ p.bump)).trans
      (expect_advances .rParen .noCloseParen _)) p

theorem indices_advances (hg : g.Sound) (p : Parser) : p.Advances (g.indices p) :=
  ((hg.anyExpression p).trans
    (repeatWhile_advances _ (fun p => (hg.expressionAfter p).1) _)).trans
    (expect_advances .rBracket .noCloseBracket _)

theorem parenthesized_takes (hg : g.Sound) (p : Parser) :
    p.Takes ((g.anyExpression p.bump).expect .rParen .noCloseParen) :=
  (hg.expressionAfter p).trans (expect_advances .rParen .noCloseParen _)

theorem arrayItems_take (hg : g.Sound) (p : Parser) :
    p.Takes ((itemsUntil .rBracket g.anyExpression p.bump.rounds p.bump).expect
      .rBracket .noCloseBracket) :=
  (p.bump_takes.trans (itemsUntil_advances _ hg.anyExpression _ p.bump)).trans
    (expect_advances .rBracket .noCloseBracket _)

theorem noExpression_advances (p : Parser) :
    p.Advances (let p := p.fail .noExpression
      if isCloser p.current then p else p.bump) := by
  have hfail := p.fail_advances .noExpression
  exact advances_ite hfail (hfail.trans (bump_takes _).1)

theorem primary_finishes (hg : g.Sound) (p : Parser) : p.Finishes (g.primary p) := by
  unfold primary
  split
  iterate 5 exact completeNode_finishes .literal (bump_takes _).1
  iterate 6 exact completeNode_finishes .nameRef (bump_takes _).1
  · exact function_finishes hg .functionExpr p
  · exact completeNode_finishes .parenExpr (parenthesized_takes hg _).1
  · exact completeNode_finishes .arrayLiteral (arrayItems_take hg _).1
  · exact completeNode_finishes .error (noExpression_advances _)

theorem primary_takes (hg : g.Sound) (p : Parser) (hp : isCloser p.current = false) :
    p.Takes (g.primary p).2 := by
  unfold primary
  split
  iterate 5 exact completeNode_takes .literal (bump_takes _)
  iterate 6 exact completeNode_takes .nameRef (bump_takes _)
  · exact function_takes hg .functionExpr p
  · exact completeNode_takes .parenExpr (parenthesized_takes hg _)
  · exact completeNode_takes .arrayLiteral (arrayItems_take hg _)
  · apply completeNode_takes .error
    have hbump := (p.reserve.2.fail .noExpression).bump_takes
    have hcloser : isCloser (p.reserve.2.fail .noExpression).current = false := hp
    simp only [hcloser, Bool.false_eq_true, if_false]
    exact ⟨(fail_advances _ _).trans hbump.1, hbump.2⟩

theorem operand_finishes (hg : g.Sound) (p : Parser) : p.Finishes (g.operand p) := by
  unfold operand
  split
  next power _ =>
      exact completeNode_finishes .unaryExpr ((bump_takes _).1.trans (hg.expression power _))
  next => exact primary_finishes hg p

theorem operand_takes (hg : g.Sound) (p : Parser) (hp : isCloser p.current = false) :
    p.Takes (g.operand p).2 := by
  unfold operand
  split
  next power _ =>
      exact completeNode_takes .unaryExpr ((bump_takes _).trans (hg.expression power _))
  next => exact primary_takes hg p hp

/-! ### What follows an operand -/

/-- A finished node has become the first part of another one, or stayed as it is. -/
structure Extends (p : Parser) (r s : Completed × Parser) : Prop where
  finishes : p.Finishes r → p.Finishes s
  length_le : s.2.rest.length ≤ r.2.rest.length

theorem Extends.refl (p : Parser) (r : Completed × Parser) : Extends p r r :=
  ⟨id, Nat.le_refl _⟩

theorem Extends.trans {p : Parser} {r s t : Completed × Parser} (h : Extends p r s)
    (k : Extends p s t) : Extends p r t :=
  ⟨fun hr => k.finishes (h.finishes hr), Nat.le_trans k.length_le h.length_le⟩

theorem wrapNode_extends (p : Parser) {operand : Completed} {q : Parser} (kind : NodeKind)
    {body : Parser → Parser} (h : ∀ p : Parser, p.Advances (body p)) :
    Extends p (operand, q) (q.wrapNode operand kind body) :=
  ⟨fun hq => wrapNode_finishes hq kind h, length_wrapNode_le q operand kind h⟩

theorem field_advances (p : Parser) :
    p.Advances (let p := p.bump
      if p.isAt .ident then p.name else p.fail .noFieldName) :=
  p.bump_takes.1.trans (advances_ite (name_takes _).1 (fail_advances .noFieldName _))

theorem conditional_advances (hg : g.Sound) (p : Parser) :
    p.Advances (g.anyExpression ((g.anyExpression p.bump).expect .colon .noConditionalColon)) :=
  ((hg.expressionAfter p).1.trans (expect_advances .colon .noConditionalColon _)).trans
    (hg.anyExpression _)

theorem suffix_extends (hg : g.Sound) (p : Parser) {operand : Completed} {q : Parser}
    {r : Completed × Parser} (h : g.suffix? operand q = some r) : Extends p (operand, q) r := by
  unfold suffix? at h
  split at h
  · cases h
    exact wrapNode_extends p .fieldExpr field_advances
  · cases h
    exact wrapNode_extends p .callExpr fun p => (argumentList_takes hg p).1
  · cases h
    exact wrapNode_extends p .postfixExpr fun p => p.bump_takes.1
  · cases h
    exact wrapNode_extends p .postfixExpr fun p => p.bump_takes.1
  · split at h
    · cases h
      exact wrapNode_extends p .indexExpr fun p =>
        p.bump_takes.1.trans (indices_advances hg p.bump)
    · cases h

theorem extend_extends (hg : g.Sound) (p : Parser) (minPower rounds : Nat) (left : Completed)
    (q : Parser) : Extends p (left, q) (g.extend minPower rounds left q) := by
  induction rounds generalizing left q with
  | zero => exact .refl p (left, q)
  | succ rounds ih =>
      rw [extend]
      split
      next next r hsuffix => exact (suffix_extends hg p hsuffix).trans (ih next r)
      next =>
          split
          next leftPower rightPower _ =>
              split
              · exact .refl p (left, q)
              · exact (wrapNode_extends p .binaryExpr fun p =>
                  p.bump_takes.1.trans (hg.expression rightPower p.bump)).trans (ih _ _)
          next =>
              split
              · exact (wrapNode_extends p .ternaryExpr (conditional_advances hg)).trans (ih _ _)
              · exact .refl p (left, q)

theorem expressionRule_finishes (hg : g.Sound) (minPower : Nat) (p : Parser) :
    p.Finishes (g.expressionRule minPower p) :=
  (extend_extends hg p minPower _ _ _).finishes (operand_finishes hg p)

/-- An expression takes a token unless the next one closes something further out. -/
theorem expressionRule_takes (hg : g.Sound) (minPower : Nat) (p : Parser)
    (hp : isCloser p.current = false) : p.Takes (g.expressionRule minPower p).2 :=
  ⟨(expressionRule_finishes hg minPower p).advances, fun hrest =>
    Nat.lt_of_le_of_lt (extend_extends hg p minPower _ _ _).length_le
      ((operand_takes hg p hp).2 hrest)⟩

/-! ### Declarations -/

theorem declared_advances {item : Parser → Parser} (h : ∀ p : Parser, p.Advances (item p))
    (rounds : Nat) (p : Parser) : p.Advances (declared item rounds p) := by
  induction rounds generalizing p with
  | zero => exact .refl p
  | succ rounds ih =>
      rw [declared]
      refine advances_ite (p.fail_advances .noVariableName) ?_
      exact advances_ite (((h p).trans (bump_takes _).1).trans (ih _)) (h p)

theorem declarator_advances (hg : g.Sound) (p : Parser) : p.Advances (g.declarator p) :=
  node_advances .varDeclarator (fun p =>
    p.name_takes.1.trans (advances_ite (hg.expressionAfter _).1 (.refl _))) p

theorem varStatement_takes (hg : g.Sound) (terminated : Bool) (p : Parser) :
    p.Takes (g.varStatement terminated p) :=
  node_takes .varStmt (fun p =>
    (p.bump_takes.trans (declared_advances (declarator_advances hg) _ p.bump)).trans
      (advances_ite (skip_advances .semicolon _) (.refl _))) p

theorem globalVarStatement_takes (p : Parser) : p.Takes (globalVarStatement p) :=
  node_takes .globalVarStmt (fun p =>
    (p.bump_takes.trans (declared_advances (fun p => p.name_takes.1) _ p.bump)).trans
      (skip_advances .semicolon _)) p

theorem enumMember_advances (hg : g.Sound) (p : Parser) : p.Advances (g.enumMember p) :=
  node_advances .enumMember (fun p =>
    p.name_takes.1.trans (initializer_advances hg p.name)) p

theorem enumMembers_advances (hg : g.Sound) (rounds : Nat) (p : Parser) :
    p.Advances (g.enumMembers rounds p) := by
  induction rounds generalizing p with
  | zero => exact .refl p
  | succ rounds ih =>
      have hmember := enumMember_advances hg p
      rw [enumMembers]
      refine advances_ite (.refl p) (advances_ite ?_ ?_)
      · exact (p.failAndBump_advances .noEnumMember).trans (ih _)
      · exact advances_ite ((hmember.trans (bump_takes _).1).trans (ih _)) hmember

theorem enumDeclaration_takes (hg : g.Sound) (p : Parser) : p.Takes (g.enumDeclaration p) := by
  have hname : ∀ q : Parser, q.Advances (if q.isAt .ident then q.name else q.fail .noEnumName) :=
    fun q => advances_ite q.name_takes.1 (q.fail_advances .noEnumName)
  have hmembers : ∀ q : Parser, q.Advances
      (if q.isAt .lBrace then
        (g.enumMembers q.bump.rounds q.bump).expect .rBrace .noCloseBrace
      else q.fail .noOpenBrace) :=
    fun q => advances_ite
      ((q.bump_takes.1.trans (enumMembers_advances hg _ q.bump)).trans
        (expect_advances .rBrace .noCloseBrace _))
      (q.fail_advances .noOpenBrace)
  exact node_takes .enumDecl (fun p =>
    ((p.bump_takes.trans (hname _)).trans (hmembers _)).trans (skip_advances .semicolon _)) p

/-! ### Control flow -/

theorem ifStatement_takes (hg : g.Sound) (p : Parser) : p.Takes (g.ifStatement p) := by
  have helse : ∀ q : Parser, q.Advances
      (if q.isAt .kwElse then q.node .elseBranch fun p => g.statement p.bump else q) :=
    fun q => advances_ite
      (node_advances .elseBranch (fun p => p.bump_takes.1.trans (hg.statement p.bump)) q) (.refl q)
  exact node_takes .ifStmt (fun p =>
    (((hg.expressionAfter p).trans (skip_advances .kwThen _)).trans (hg.statement _)).trans
      (helse _)) p

theorem whileStatement_takes (hg : g.Sound) (p : Parser) : p.Takes (g.whileStatement p) :=
  node_takes .whileStmt (fun p =>
    ((hg.expressionAfter p).trans (skip_advances .kwDo _)).trans (hg.statement _)) p

theorem doStatement_takes (hg : g.Sound) (p : Parser) : p.Takes (g.doStatement p) := by
  have huntil : ∀ q : Parser, q.Advances
      (if q.isAt .kwUntil then g.anyExpression q.bump else q.fail .noUntil) :=
    fun q => advances_ite (hg.expressionAfter q).1 (q.fail_advances .noUntil)
  exact node_takes .doStmt (fun p =>
    ((p.bump_takes.trans (hg.statement p.bump)).trans (huntil _)).trans
      (skip_advances .semicolon _)) p

/-- A statement that begins with an expression is a node around its target and what
follows that. -/
theorem expressionStatement_eq_complete (hg : g.Sound) (terminated : Bool) (p : Parser) :
    ∃ q kind, (g.expressionRule TokenKind.unaryPower p.reserve.2).2.Advances q ∧
      g.expressionStatement terminated p = (q.complete p.reserve.1 kind).2 := by
  have hend : ∀ q : Parser, q.Advances (if terminated then q.skip .semicolon else q) :=
    fun q => advances_ite (q.skip_advances .semicolon) (.refl q)
  unfold expressionStatement
  dsimp only
  split
  · exact ⟨_, .assignStmt, (hg.expressionAfter _).1.trans (hend _), rfl⟩
  · exact ⟨_, .exprStmt, (advances_ite (.refl _) (fail_advances .noEffect _)).trans (hend _), rfl⟩

theorem expressionStatement_advances (hg : g.Sound) (terminated : Bool) (p : Parser) :
    p.Advances (g.expressionStatement terminated p) := by
  obtain ⟨q, kind, hq, heq⟩ := expressionStatement_eq_complete hg terminated p
  obtain ⟨trees, h⟩ := (expressionRule_finishes hg TokenKind.unaryPower p.reserve.2).advances.trans hq
  rw [heq]
  exact ⟨_, (h.completes kind).reads⟩

theorem expressionStatement_takes (hg : g.Sound) (terminated : Bool) (p : Parser)
    (hp : isCloser p.current = false) : p.Takes (g.expressionStatement terminated p) := by
  obtain ⟨q, kind, hq, heq⟩ := expressionStatement_eq_complete hg terminated p
  rw [heq]
  exact complete_takes kind ((expressionRule_takes hg TokenKind.unaryPower p.reserve.2 hp).trans hq)

theorem forHead_advances (hg : g.Sound) (p : Parser) : p.Advances (g.forHead p) := by
  have hinit : ∀ q : Parser, q.Advances
      (if q.isAt .kwVar then g.varStatement false q
      else if q.isAt .semicolon then q
      else g.expressionStatement false q) :=
    fun q => advances_ite (varStatement_takes hg false q).1
      (advances_ite (.refl q) (expressionStatement_advances hg false q))
  have htest : ∀ q : Parser, q.Advances (if q.isAt .semicolon then q else g.anyExpression q) :=
    fun q => advances_ite (.refl q) (hg.anyExpression q)
  have hstep : ∀ q : Parser,
      q.Advances (if q.isAt .rParen then q else g.expressionStatement false q) :=
    fun q => advances_ite (.refl q) (expressionStatement_advances hg false q)
  have hsemicolon : ∀ q : Parser, q.Advances (q.expect .semicolon .noSemicolon) :=
    expect_advances .semicolon .noSemicolon
  exact (((((p.bump_takes.1.trans (hinit _)).trans (hsemicolon _)).trans (htest _)).trans
    (hsemicolon _)).trans (hstep _)).trans (expect_advances .rParen .noCloseParen _)

theorem forStatement_takes (hg : g.Sound) (p : Parser) : p.Takes (g.forStatement p) := by
  have hhead : ∀ q : Parser,
      q.Advances (if q.isAt .lParen then g.forHead q else q.fail .noOpenParen) :=
    fun q => advances_ite (forHead_advances hg q) (q.fail_advances .noOpenParen)
  exact node_takes .forStmt (fun p =>
    (p.bump_takes.trans (hhead _)).trans (hg.statement _)) p

theorem headedStatement_takes (hg : g.Sound) (kind : NodeKind) (p : Parser) :
    p.Takes (g.headedStatement kind p) :=
  node_takes kind (fun p => (hg.expressionAfter p).trans (hg.statement _)) p

theorem clauseBody_advances (hg : g.Sound) (p : Parser) : p.Advances (g.clauseBody p) :=
  repeatWhile_advances _ hg.statement p

theorem clause_advances (hg : g.Sound) (p : Parser) : p.Advances (g.clause p) := by
  unfold clause
  split
  · exact node_advances .caseClause (fun p =>
      ((hg.expressionAfter p).1.trans (expect_advances .colon .noColon _)).trans
        (clauseBody_advances hg _)) p
  · exact node_advances .defaultClause (fun p =>
      (p.bump_takes.1.trans (expect_advances .colon .noColon _)).trans
        (clauseBody_advances hg _)) p
  · exact (p.fail_advances .noClause).trans (hg.statement _)

theorem switchStatement_takes (hg : g.Sound) (p : Parser) : p.Takes (g.switchStatement p) := by
  have hclauses : ∀ q : Parser, q.Advances
      (if q.isAt .lBrace then
        (repeatWhile (fun p => !p.isAt .rBrace && !p.atEnd) g.clause q.bump).expect
          .rBrace .noCloseBrace
      else q.fail .noOpenBrace) :=
    fun q => advances_ite
      ((q.bump_takes.1.trans (repeatWhile_advances _ (clause_advances hg) _)).trans
        (expect_advances .rBrace .noCloseBrace _))
      (q.fail_advances .noOpenBrace)
  exact node_takes .switchStmt (fun p => (hg.expressionAfter p).trans (hclauses _)) p

theorem jumpStatement_takes (kind : NodeKind) (p : Parser) : p.Takes (jumpStatement kind p) :=
  node_takes kind (fun p => p.bump_takes.trans (skip_advances .semicolon _)) p

theorem returnStatement_takes (hg : g.Sound) (p : Parser) : p.Takes (g.returnStatement p) := by
  have hvalue : ∀ q : Parser, q.Advances (if q.current.startsExpr then g.anyExpression q else q) :=
    fun q => advances_ite (hg.anyExpression q) (.refl q)
  exact node_takes .returnStmt (fun p =>
    (p.bump_takes.trans (hvalue _)).trans (skip_advances .semicolon _)) p

/-! ### Statements -/

/-- What can begin an expression closes nothing. -/
theorem isCloser_of_startsExpr {kind : TokenKind} (h : kind.startsExpr = true) :
    isCloser kind = false := by
  cases kind <;> first | rfl | cases h

theorem failAndBump_takes (fault : Fault) (p : Parser) (hp : p.current ≠ .eof) :
    p.Takes (p.failAndBump fault) := by
  have hnode := node_takes .error bump_takes (p.fail fault)
  have hend : (p.fail fault).atEnd = false := by
    change (p.current == .eof) = false
    simpa using hp
  unfold failAndBump
  simp only [hend, Bool.false_eq_true, if_false]
  exact ⟨(p.fail_advances fault).trans hnode.1, hnode.2⟩

/-- A statement takes a token except before a closing brace and at the end. -/
theorem statementRule_takes (hg : g.Sound) (p : Parser) (hbrace : p.current ≠ .rBrace)
    (hend : p.current ≠ .eof) : p.Takes (g.statementRule p) := by
  unfold statementRule
  split
  · exact node_takes .emptyStmt bump_takes p
  · exact block_takes hg p
  · exact node_takes .macroDecl bump_takes p
  · exact varStatement_takes hg true p
  · exact globalVarStatement_takes p
  · exact enumDeclaration_takes hg p
  · exact function_takes hg .functionDecl p
  · exact ifStatement_takes hg p
  · exact whileStatement_takes hg p
  · exact doStatement_takes hg p
  · exact forStatement_takes hg p
  · exact headedStatement_takes hg .repeatStmt p
  · exact headedStatement_takes hg .withStmt p
  · exact switchStatement_takes hg p
  · exact jumpStatement_takes .breakStmt p
  · exact jumpStatement_takes .continueStmt p
  · exact jumpStatement_takes .exitStmt p
  · exact returnStatement_takes hg p
  next h => exact absurd h hbrace
  · split
    next h => exact expressionStatement_takes hg true p (isCloser_of_startsExpr h)
    next => exact failAndBump_takes .noStatement p hend

theorem statementRule_advances (hg : g.Sound) (p : Parser) : p.Advances (g.statementRule p) := by
  by_cases hbrace : p.current = .rBrace
  · simp only [statementRule, hbrace]
    exact p.fail_advances .noStatement
  by_cases hend : p.current = .eof
  · simp only [statementRule, hend]
    exact p.failAndBump_advances .noStatement
  exact (statementRule_takes hg p hbrace hend).1

/-- The grammar is sound to every depth of nesting. -/
theorem ofDepth_sound (depth : Nat) : (ofDepth depth).Sound := by
  induction depth with
  | zero => exact ⟨Advances.refl, fun _ => Advances.refl⟩
  | succ depth ih =>
      exact ⟨statementRule_advances ih, fun power p => (expressionRule_finishes ih power p).advances⟩

theorem topLevelStatement_advances (hg : g.Sound) (p : Parser) :
    p.Advances (g.topLevelStatement p) := by
  unfold topLevelStatement
  exact advances_ite (p.failAndBump_advances .strayCloseBrace) (hg.statement p)

/-- Outside of blocks a statement takes a token wherever there is one left. -/
theorem topLevelStatement_takes (depth : Nat) (p : Parser) (hend : p.current ≠ .eof) :
    p.Takes ((ofDepth (depth + 1)).topLevelStatement p) := by
  unfold topLevelStatement
  split
  · exact failAndBump_takes .strayCloseBrace p hend
  next hbrace =>
      exact statementRule_takes (ofDepth_sound depth) p (by simpa [isAt] using hbrace) hend

end Gml.Grammar
