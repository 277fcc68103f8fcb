import Gml.Parse

/-!
# Reading does not depend on places

The grammar looks at the kinds of tokens and at the text of one of them, and counts those that
are left. Where a token stands it only writes down with an error. So if all tokens are moved to
other places, every rule does what it did, and the errors move with the tokens.
-/
namespace Gml

/-! ### Moving -/

/-- A span of the same length at another place. -/
def Span.relocate (place : Span → Nat) (span : Span) : Span :=
  ⟨place span, place span + (span.stop - span.start)⟩

def Token.relocate (place : Span → Nat) (token : Token) : Token :=
  { token with start := place token.span }

def ParseError.relocate (place : Span → Nat) (error : ParseError) : ParseError :=
  { error with span := error.span.relocate place }

variable {place : Span → Nat}

theorem Span.relocate_empty (offset : Nat) :
    (Span.empty offset).relocate place = .empty (place (.empty offset)) := by
  simp [Span.relocate, Span.empty]

theorem Token.span_relocate (token : Token) :
    (token.relocate place).span = token.span.relocate place := by
  simp [Token.relocate, Token.span, Token.stop, Span.relocate]

namespace Parser

/-- All that is still to be read, and the errors so far, at other places. -/
def relocate (place : Span → Nat) (p : Parser) : Parser :=
  { p with
    rest := p.rest.map (Token.relocate place)
    textEnd := place (.empty p.textEnd)
    errors := p.errors.map (ParseError.relocate place) }

/-! ### What the grammar looks at -/

@[simp] theorem current_relocate (p : Parser) : (p.relocate place).current = p.current := by
  cases h : p.rest with
  | nil => simp [current, relocate, h]
  | cons token rest => simp [current, relocate, h, Token.relocate]

@[simp] theorem currentText_relocate (p : Parser) :
    (p.relocate place).currentText = p.currentText := by
  cases h : p.rest with
  | nil => simp [currentText, relocate, h]
  | cons token rest => simp [currentText, relocate, h, Token.relocate]

@[simp] theorem currentSpan_relocate (p : Parser) :
    (p.relocate place).currentSpan = p.currentSpan.relocate place := by
  cases h : p.rest with
  | nil => simp [currentSpan, relocate, h, Span.relocate_empty]
  | cons token rest => simp [currentSpan, relocate, h, Token.span_relocate]

@[simp] theorem isAt_relocate (kind : TokenKind) (p : Parser) :
    (p.relocate place).isAt kind = p.isAt kind := by rw [isAt, isAt, current_relocate]

@[simp] theorem atEnd_relocate (p : Parser) : (p.relocate place).atEnd = p.atEnd :=
  isAt_relocate .eof p

@[simp] theorem rounds_relocate (p : Parser) : (p.relocate place).rounds = p.rounds := by
  simp [rounds, relocate]

@[simp] theorem ite_relocate {c : Prop} [Decidable c] (p q : Parser) :
    (if c then p.relocate place else q.relocate place) = (if c then p else q).relocate place :=
  (apply_ite (relocate place) c p q).symm

/-! ### Single operations -/

@[simp] theorem emit_relocate (event : Event) (p : Parser) :
    (p.relocate place).emit event = (p.emit event).relocate place := rfl

@[simp] theorem bump_relocate (p : Parser) : (p.relocate place).bump = p.bump.relocate place := by
  cases h : p.rest with
  | nil => simp [bump, relocate, h]
  | cons token rest => simp [bump, relocate, h, Token.relocate]

@[simp] theorem fail_relocate (fault : Fault) (p : Parser) :
    (p.relocate place).fail fault = (p.fail fault).relocate place := by
  rw [fail, currentSpan_relocate]
  simp [fail, relocate, ParseError.relocate]

@[simp] theorem skip_relocate (kind : TokenKind) (p : Parser) :
    (p.relocate place).skip kind = (p.skip kind).relocate place := by
  simp [skip]

@[simp] theorem expect_relocate (kind : TokenKind) (fault : Fault) (p : Parser) :
    (p.relocate place).expect kind fault = (p.expect kind fault).relocate place := by
  simp [expect]

@[simp] theorem node_relocate (kind : NodeKind) {body : Parser → Parser}
    (h : ∀ p : Parser, body (p.relocate place) = (body p).relocate place) (p : Parser) :
    (p.relocate place).node kind body = (p.node kind body).relocate place := by
  rw [node, emit_relocate, h, emit_relocate, node]

@[simp] theorem name_relocate (p : Parser) : (p.relocate place).name = p.name.relocate place :=
  node_relocate .name bump_relocate p

@[simp] theorem failAndBump_relocate (fault : Fault) (p : Parser) :
    (p.relocate place).failAndBump fault = (p.failAndBump fault).relocate place := by
  simp [failAndBump]

/-! ### Nodes that can be wrapped -/

/-- A finished node stays where it is in the events. -/
abbrev relocateBehind (place : Span → Nat) : Completed × Parser → Completed × Parser :=
  Prod.map id (relocate place)

@[simp] theorem complete_relocate (start : Nat) (kind : NodeKind) (p : Parser) :
    ((p.relocate place).complete start kind).2 = (p.complete start kind).2.relocate place := rfl

theorem completeNode_relocate (kind : NodeKind) {body : Parser → Parser}
    (h : ∀ p : Parser, body (p.relocate place) = (body p).relocate place) (p : Parser) :
    (p.relocate place).completeNode kind body = relocateBehind place (p.completeNode kind body) := by
  have hbody : body (p.relocate place).reserve.2 = (body p.reserve.2).relocate place :=
    h p.reserve.2
  rw [completeNode]
  dsimp only
  rw [hbody]
  rfl

theorem wrapNode_relocate (inner : Completed) (kind : NodeKind) {body : Parser → Parser}
    (h : ∀ p : Parser, body (p.relocate place) = (body p).relocate place) (p : Parser) :
    (p.relocate place).wrapNode inner kind body =
      relocateBehind place (p.wrapNode inner kind body) := by
  have hbody : body ((p.relocate place).wrap inner).2 = (body (p.wrap inner).2).relocate place :=
    h (p.wrap inner).2
  rw [wrapNode]
  dsimp only
  rw [hbody]
  rfl

/-! ### Loops -/

theorem iterate_relocate {more : Parser → Bool} {body : Parser → Parser}
    (hmore : ∀ p : Parser, more (p.relocate place) = more p)
    (h : ∀ p : Parser, body (p.relocate place) = (body p).relocate place) (rounds : Nat)
    (p : Parser) :
    iterate more body rounds (p.relocate place) = (iterate more body rounds p).relocate place := by
  induction rounds generalizing p with
  | zero => rfl
  | succ rounds ih => rw [iterate, hmore, h, ih, ite_relocate, iterate]

theorem repeatWhile_relocate {more : Parser → Bool} {body : Parser → Parser}
    (hmore : ∀ p : Parser, more (p.relocate place) = more p)
    (h : ∀ p : Parser, body (p.relocate place) = (body p).relocate place) (p : Parser) :
    (p.relocate place).repeatWhile more body = (p.repeatWhile more body).relocate place := by
  rw [repeatWhile, rounds_relocate, iterate_relocate hmore h, repeatWhile]

theorem itemsUntil_relocate (close : TokenKind) {item : Parser → Parser}
    (h : ∀ p : Parser, item (p.relocate place) = (item p).relocate place) (rounds : Nat)
    (p : Parser) :
    itemsUntil close item rounds (p.relocate place) =
      (itemsUntil close item rounds p).relocate place := by
  induction rounds generalizing p with
  | zero => rfl
  | succ rounds ih => simp [itemsUntil, h, ih]

end Parser

namespace Grammar

open Gml.Parser

/-- What is below a rule does not depend on places. -/
structure Placeless (place : Span → Nat) (g : Grammar) : Prop where
  statement : ∀ p : Parser, g.statement (p.relocate place) = (g.statement p).relocate place
  expression : ∀ (power : Nat) (p : Parser),
    g.expression power (p.relocate place) = (g.expression power p).relocate place

variable {g : Grammar}

theorem Placeless.anyExpression (hg : g.Placeless place) (p : Parser) :
    g.anyExpression (p.relocate place) = (g.anyExpression p).relocate place :=
  hg.expression 0 p

/-! ### Functions -/

theorem block_relocate (hg : g.Placeless place) (p : Parser) :
    g.block (p.relocate place) = (g.block p).relocate place :=
  node_relocate .block (fun p => by
    rw [bump_relocate, repeatWhile_relocate (by simp) hg.statement, expect_relocate]) p

theorem initializer_relocate (hg : g.Placeless place) (p : Parser) :
    g.initializer (p.relocate place) = (g.initializer p).relocate place := by
  simp [initializer, hg.anyExpression]

theorem parameters_relocate (hg : g.Placeless place) (rounds : Nat) (p : Parser) :
    g.parameters rounds (p.relocate place) = (g.parameters rounds p).relocate place := by
  induction rounds generalizing p with
  | zero => rfl
  | succ rounds ih => simp [parameters, initializer_relocate hg, ih]

theorem parameterList_relocate (hg : g.Placeless place) (p : Parser) :
    g.parameterList (p.relocate place) = (g.parameterList p).relocate place :=
  node_relocate .paramList (fun p => by simp [parameters_relocate hg]) p

theorem function_relocate (hg : g.Placeless place) (kind : NodeKind) (p : Parser) :
    g.function kind (p.relocate place) = relocateBehind place (g.function kind p) :=
  completeNode_relocate kind (fun p => by
    simp [parameterList_relocate hg, block_relocate hg]) p

/-! ### Operands -/

theorem argumentList_relocate (hg : g.Placeless place) (p : Parser) :
    g.argumentList (p.relocate place) = (g.argumentList p).relocate place :=
  node_relocate .argList (fun p => by
    simp [itemsUntil_relocate .rParen hg.anyExpression]) p

theorem indices_relocate (hg : g.Placeless place) (p : Parser) :
    g.indices (p.relocate place) = (g.indices p).relocate place := by
  have hitem : ∀ p : Parser, g.anyExpression (p.relocate place).bump =
      (g.anyExpression p.bump).relocate place := by simp [hg.anyExpression]
  rw [indices, hg.anyExpression, repeatWhile_relocate (by simp) hitem, expect_relocate, indices]

theorem primary_relocate (hg : g.Placeless place) (p : Parser) :
    g.primary (p.relocate place) = relocateBehind place (g.primary p) := by
  unfold primary
  rw [current_relocate]
  split
  iterate 5 exact completeNode_relocate .literal bump_relocate p
  iterate 6 exact completeNode_relocate .nameRef bump_relocate p
  · exact function_relocate hg .functionExpr p
  · exact completeNode_relocate .parenExpr (fun p => by simp [hg.anyExpression]) p
  · exact completeNode_relocate .arrayLiteral (fun p => by
      simp [itemsUntil_relocate .rBracket hg.anyExpression]) p
  · exact completeNode_relocate .error (fun p => by simp) p

theorem operand_relocate (hg : g.Placeless place) (p : Parser) :
    g.operand (p.relocate place) = relocateBehind place (g.operand p) := by
  unfold operand
  rw [current_relocate]
  split
  next power _ => exact completeNode_relocate .unaryExpr (fun p => by simp [hg.expression]) p
  next => exact primary_relocate hg p

theorem suffix_relocate (hg : g.Placeless place) (left : Completed) (p : Parser) :
    g.suffix? left (p.relocate place) = (g.suffix? left p).map (relocateBehind place) := by
  unfold suffix?
  rw [current_relocate]
  split
  · exact congrArg some (wrapNode_relocate left .fieldExpr (fun p => by simp) p)
  · exact congrArg some (wrapNode_relocate left .callExpr (argumentList_relocate hg) p)
  · exact congrArg some (wrapNode_relocate left .postfixExpr bump_relocate p)
  · exact congrArg some (wrapNode_relocate left .postfixExpr bump_relocate p)
  · split
    · exact congrArg some
        (wrapNode_relocate left .indexExpr (fun p => by simp [indices_relocate hg]) p)
    · rfl

theorem extend_relocate (hg : g.Placeless place) (minPower rounds : Nat) (left : Completed)
    (p : Parser) :
    g.extend minPower rounds left (p.relocate place) =
      relocateBehind place (g.extend minPower rounds left p) := by
  induction rounds generalizing left p with
  | zero => rfl
  | succ rounds ih =>
      rw [extend, extend, suffix_relocate hg]
      cases g.suffix? left p with
      | some r => exact ih r.1 r.2
      | none =>
          dsimp only [Option.map_none]
          rw [current_relocate, isAt_relocate]
          split
          next leftPower rightPower _ =>
              split
              · rfl
              · rw [wrapNode_relocate left .binaryExpr fun p => by simp [hg.expression]]
                exact ih _ _
          next =>
              split
              · rw [wrapNode_relocate left .ternaryExpr fun p => by simp [hg.anyExpression]]
                exact ih _ _
              · rfl

theorem expressionRule_relocate (hg : g.Placeless place) (minPower : Nat) (p : Parser) :
    g.expressionRule minPower (p.relocate place) =
      relocateBehind place (g.expressionRule minPower p) := by
  rw [expressionRule, operand_relocate hg]
  dsimp only [Prod.map]
  rw [rounds_relocate]
  exact extend_relocate hg minPower _ _ _

/-! ### Declarations -/

theorem declared_relocate {item : Parser → Parser}
    (h : ∀ p : Parser, item (p.relocate place) = (item p).relocate place) (rounds : Nat)
    (p : Parser) :
    declared item rounds (p.relocate place) = (declared item rounds p).relocate place := by
  induction rounds generalizing p with
  | zero => rfl
  | succ rounds ih => simp [declared, h, ih]

theorem declarator_relocate (hg : g.Placeless place) (p : Parser) :
    g.declarator (p.relocate place) = (g.declarator p).relocate place :=
  node_relocate .varDeclarator (fun p => by simp [hg.anyExpression]) p

theorem varStatement_relocate (hg : g.Placeless place) (terminated : Bool) (p : Parser) :
    g.varStatement terminated (p.relocate place) =
      (g.varStatement terminated p).relocate place :=
  node_relocate .varStmt (fun p => by
    simp [declared_relocate (declarator_relocate hg)]) p

theorem globalVarStatement_relocate (p : Parser) :
    globalVarStatement (p.relocate place) = (globalVarStatement p).relocate place :=
  node_relocate .globalVarStmt (fun p => by simp [declared_relocate name_relocate]) p

theorem enumMember_relocate (hg : g.Placeless place) (p : Parser) :
    g.enumMember (p.relocate place) = (g.enumMember p).relocate place :=
  node_relocate .enumMember (fun p => by simp [initializer_relocate hg]) p

theorem enumMembers_relocate (hg : g.Placeless place) (rounds : Nat) (p : Parser) :
    g.enumMembers rounds (p.relocate place) = (g.enumMembers rounds p).relocate place := by
  induction rounds generalizing p with
  | zero => rfl
  | succ rounds ih => simp [enumMembers, enumMember_relocate hg, ih]

theorem enumDeclaration_relocate (hg : g.Placeless place) (p : Parser) :
    g.enumDeclaration (p.relocate place) = (g.enumDeclaration p).relocate place :=
  node_relocate .enumDecl (fun p => by simp [enumMembers_relocate hg]) p

/-! ### Control flow -/

theorem ifStatement_relocate (hg : g.Placeless place) (p : Parser) :
    g.ifStatement (p.relocate place) = (g.ifStatement p).relocate place := by
  have helse : ∀ p : Parser, (p.relocate place).node .elseBranch (fun p => g.statement p.bump) =
      (p.node .elseBranch fun p => g.statement p.bump).relocate place :=
    node_relocate .elseBranch fun p => by simp [hg.statement]
  exact node_relocate .ifStmt (fun p => by simp [hg.anyExpression, hg.statement, helse]) p

theorem whileStatement_relocate (hg : g.Placeless place) (p : Parser) :
    g.whileStatement (p.relocate place) = (g.whileStatement p).relocate place :=
  node_relocate .whileStmt (fun p => by simp [hg.anyExpression, hg.statement]) p

theorem doStatement_relocate (hg : g.Placeless place) (p : Parser) :
    g.doStatement (p.relocate place) = (g.doStatement p).relocate place :=
  node_relocate .doStmt (fun p => by simp [hg.anyExpression, hg.statement]) p

theorem expressionStatement_relocate (hg : g.Placeless place) (terminated : Bool) (p : Parser) :
    g.expressionStatement terminated (p.relocate place) =
      (g.expressionStatement terminated p).relocate place := by
  have hrule : g.expressionRule TokenKind.unaryPower (p.relocate place).reserve.2 =
      relocateBehind place (g.expressionRule TokenKind.unaryPower p.reserve.2) :=
    expressionRule_relocate hg TokenKind.unaryPower p.reserve.2
  have hfirst : (p.relocate place).reserve.2.current = p.reserve.2.current :=
    current_relocate p.reserve.2
  have hstart : (p.relocate place).reserve.1 = p.reserve.1 := rfl
  unfold expressionStatement
  dsimp only
  rw [hrule, hfirst, hstart]
  generalize g.expressionRule TokenKind.unaryPower p.reserve.2 = target
  simp [hg.anyExpression]

theorem forHead_relocate (hg : g.Placeless place) (p : Parser) :
    g.forHead (p.relocate place) = (g.forHead p).relocate place := by
  simp [forHead, varStatement_relocate hg, expressionStatement_relocate hg, hg.anyExpression]

theorem forStatement_relocate (hg : g.Placeless place) (p : Parser) :
    g.forStatement (p.relocate place) = (g.forStatement p).relocate place :=
  node_relocate .forStmt (fun p => by simp [forHead_relocate hg, hg.statement]) p

theorem headedStatement_relocate (hg : g.Placeless place) (kind : NodeKind) (p : Parser) :
    g.headedStatement kind (p.relocate place) = (g.headedStatement kind p).relocate place :=
  node_relocate kind (fun p => by simp [hg.anyExpression, hg.statement]) p

theorem clauseBody_relocate (hg : g.Placeless place) (p : Parser) :
    g.clauseBody (p.relocate place) = (g.clauseBody p).relocate place :=
  repeatWhile_relocate (by simp) hg.statement p

theorem clause_relocate (hg : g.Placeless place) (p : Parser) :
    g.clause (p.relocate place) = (g.clause p).relocate place := by
  unfold clause
  rw [current_relocate]
  split
  · exact node_relocate .caseClause (fun p => by
      simp [hg.anyExpression, clauseBody_relocate hg]) p
  · exact node_relocate .defaultClause (fun p => by simp [clauseBody_relocate hg]) p
  · rw [fail_relocate, hg.statement]

theorem switchStatement_relocate (hg : g.Placeless place) (p : Parser) :
    g.switchStatement (p.relocate place) = (g.switchStatement p).relocate place :=
  node_relocate .switchStmt (fun p => by
    simp [hg.anyExpression, repeatWhile_relocate _ (clause_relocate hg)]) p

theorem jumpStatement_relocate (kind : NodeKind) (p : Parser) :
    jumpStatement kind (p.relocate place) = (jumpStatement kind p).relocate place :=
  node_relocate kind (fun p => by simp) p

theorem returnStatement_relocate (hg : g.Placeless place) (p : Parser) :
    g.returnStatement (p.relocate place) = (g.returnStatement p).relocate place :=
  node_relocate .returnStmt (fun p => by simp [hg.anyExpression]) p

/-! ### Statements -/

theorem statementRule_relocate (hg : g.Placeless place) (p : Parser) :
    g.statementRule (p.relocate place) = (g.statementRule p).relocate place := by
  unfold statementRule
  rw [current_relocate]
  split
  · exact node_relocate .emptyStmt bump_relocate p
  · exact block_relocate hg p
  · exact node_relocate .macroDecl bump_relocate p
  · exact varStatement_relocate hg true p
  · exact globalVarStatement_relocate p
  · exact enumDeclaration_relocate hg p
  · rw [function_relocate hg .functionDecl p]
    rfl
  · exact ifStatement_relocate hg p
  · exact whileStatement_relocate hg p
  · exact doStatement_relocate hg p
  · exact forStatement_relocate hg p
  · exact headedStatement_relocate hg .repeatStmt p
  · exact headedStatement_relocate hg .withStmt p
  · exact switchStatement_relocate hg p
  · exact jumpStatement_relocate .breakStmt p
  · exact jumpStatement_relocate .continueStmt p
  · exact jumpStatement_relocate .exitStmt p
  · exact returnStatement_relocate hg p
  · exact fail_relocate .noStatement p
  · split
    · exact expressionStatement_relocate hg true p
    · exact failAndBump_relocate .noStatement p

/-- To every depth of nesting the grammar does not depend on places. -/
theorem placeless_ofDepth (place : Span → Nat) (depth : Nat) : (ofDepth depth).Placeless place := by
  induction depth with
  | zero => exact ⟨fun _ => rfl, fun _ _ => rfl⟩
  | succ depth ih =>
      exact ⟨statementRule_relocate ih, fun power p =>
        congrArg Prod.snd (expressionRule_relocate ih power p)⟩

theorem topLevelStatement_relocate (hg : g.Placeless place) (p : Parser) :
    g.topLevelStatement (p.relocate place) = (g.topLevelStatement p).relocate place := by
  simp [topLevelStatement, hg.statement]

end Grammar

/-- A file is read alike wherever its tokens stand. -/
theorem Parser.sourceFile_relocate (place : Span → Nat) (p : Parser) :
    (p.relocate place).sourceFile = p.sourceFile.relocate place := by
  rw [sourceFile, rounds_relocate]
  exact node_relocate .sourceFile (repeatWhile_relocate (by simp)
    (Grammar.topLevelStatement_relocate (Grammar.placeless_ofDepth place p.rounds))) p

end Gml
