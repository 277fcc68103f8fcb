import Gml.Parser.Expression

/-!
# Statements

Declarations, assignments, calls, control flow and blocks. A semicolon may follow
every statement and is never required outside the head of a `for`.
-/
namespace Gml

namespace Grammar

open Gml.Parser

variable (g : Grammar)

/-- Names after `var` or `globalvar`, with commas between. -/
def declared (item : Parser → Parser) : Nat → Parser → Parser
  | 0, p => p
  | n + 1, p =>
      if !p.isAt .ident then p.fail .noVariableName
      else
        let p := item p
        if p.isAt .comma then declared item n p.bump else p

def declarator (p : Parser) : Parser :=
  p.node .varDeclarator fun p =>
    let p := p.name
    if p.isAt .assign || p.isAt .colonAssign then g.anyExpression p.bump else p

/-- `var a = 1, b`; in the head of a `for` the semicolon is not part of it. -/
def varStatement (terminated : Bool) (p : Parser) : Parser :=
  p.node .varStmt fun p =>
    let p := p.bump
    let p := declared g.declarator p.rounds p
    if terminated then p.skip .semicolon else p

/-- `globalvar a, b` -/
def globalVarStatement (p : Parser) : Parser :=
  p.node .globalVarStmt fun p =>
    let p := p.bump
    (declared Parser.name p.rounds p).skip .semicolon

def enumMember (p : Parser) : Parser :=
  p.node .enumMember fun p => g.initializer p.name

def enumMembers : Nat → Parser → Parser
  | 0, p => p
  | n + 1, p =>
      if p.isAt .rBrace || p.atEnd then p
      else if !p.isAt .ident then enumMembers n (p.failAndBump .noEnumMember)
      else
        let p := g.enumMember p
        if p.isAt .comma then enumMembers n p.bump else p

/-- `enum E { A, B = 2 }` -/
def enumDeclaration (p : Parser) : Parser :=
  p.node .enumDecl fun p =>
    let p := p.bump
    let p := if p.isAt .ident then p.name else p.fail .noEnumName
    let p :=
      if p.isAt .lBrace then
        let p := p.bump
        (g.enumMembers p.rounds p).expect .rBrace .noCloseBrace
      else p.fail .noOpenBrace
    p.skip .semicolon

/-- `if e [then] s [else s]` -/
def ifStatement (p : Parser) : Parser :=
  p.node .ifStmt fun p =>
    let p := g.statement ((g.anyExpression p.bump).skip .kwThen)
    if p.isAt .kwElse then p.node .elseBranch fun p => g.statement p.bump else p

/-- `while e [do] s` -/
def whileStatement (p : Parser) : Parser :=
  p.node .whileStmt fun p => g.statement ((g.anyExpression p.bump).skip .kwDo)

/-- `do s until e` -/
def doStatement (p : Parser) : Parser :=
  p.node .doStmt fun p =>
    let p := g.statement p.bump
    let p := if p.isAt .kwUntil then g.anyExpression p.bump else p.fail .noUntil
    p.skip .semicolon

/-- An assignment, a call or a step by one. The target is read above every infix
binding power, which leaves `=` for the assignment. -/
def expressionStatement (terminated : Bool) (p : Parser) : Parser :=
  let (start, p) := p.reserve
  let first := p.current
  let (target, p) := g.expressionRule TokenKind.unaryPower p
  if p.current.isAssignOp then
    let p := g.anyExpression p.bump
    let p := if terminated then p.skip .semicolon else p
    (p.complete start .assignStmt).2
  else
    let hasEffect : Bool := match target.kind with
      | .callExpr | .postfixExpr => true
      | .unaryExpr => first == .plusPlus || first == .minusMinus
      | _ => false
    let p := if hasEffect then p else p.fail .noEffect
    let p := if terminated then p.skip .semicolon else p
    (p.complete start .exprStmt).2

/-- `(init; e; step)` -/
def forHead (p : Parser) : Parser :=
  let p := p.bump
  let p :=
    if p.isAt .kwVar then g.varStatement false p
    else if p.isAt .semicolon then p
    else g.expressionStatement false p
  let p := p.expect .semicolon .noSemicolon
  let p := if p.isAt .semicolon then p else g.anyExpression p
  let p := p.expect .semicolon .noSemicolon
  let p := if p.isAt .rParen then p else g.expressionStatement false p
  p.expect .rParen .noCloseParen

def forStatement (p : Parser) : Parser :=
  p.node .forStmt fun p =>
    let p := p.bump
    let p := if p.isAt .lParen then g.forHead p else p.fail .noOpenParen
    g.statement p

/-- `repeat e s` and `with e s` -/
def headedStatement (kind : NodeKind) (p : Parser) : Parser :=
  p.node kind fun p => g.statement (g.anyExpression p.bump)

def isClauseEnd : TokenKind → Bool
  | .kwCase | .kwDefault | .rBrace | .eof => true
  | _ => false

def clauseBody (p : Parser) : Parser :=
  p.repeatWhile (fun p => !isClauseEnd p.current) g.statement

def clause (p : Parser) : Parser :=
  match p.current with
  | .kwCase =>
      p.node .caseClause fun p =>
        g.clauseBody ((g.anyExpression p.bump).expect .colon .noColon)
  | .kwDefault => p.node .defaultClause fun p => g.clauseBody (p.bump.expect .colon .noColon)
  | _ => g.statement (p.fail .noClause)

/-- `switch e { case a: ... default: ... }` -/
def switchStatement (p : Parser) : Parser :=
  p.node .switchStmt fun p =>
    let p := g.anyExpression p.bump
    if p.isAt .lBrace then
      p.bump
        |> repeatWhile (fun p => !p.isAt .rBrace && !p.atEnd) g.clause
        |>.expect .rBrace .noCloseBrace
    else p.fail .noOpenBrace

/-- `break`, `continue` and `exit` -/
def jumpStatement (kind : NodeKind) (p : Parser) : Parser :=
  p.node kind fun p => p.bump.skip .semicolon

/-- `return [e]` -/
def returnStatement (p : Parser) : Parser :=
  p.node .returnStmt fun p =>
    let p := p.bump
    let p := if p.current.startsExpr then g.anyExpression p else p
    p.skip .semicolon

/-- One statement. It takes at least one token except before `}` and at the end. -/
def statementRule (p : Parser) : Parser :=
  match p.current with
  | .semicolon => p.node .emptyStmt bump
  | .lBrace => g.block p
  | .macroLine => p.node .macroDecl bump
  | .kwVar => g.varStatement true p
  | .kwGlobalvar => globalVarStatement p
  | .kwEnum => g.enumDeclaration p
  | .kwFunction => (g.function .functionDecl p).2
  | .kwIf => g.ifStatement p
  | .kwWhile => g.whileStatement p
  | .kwDo => g.doStatement p
  | .kwFor => g.forStatement p
  | .kwRepeat => g.headedStatement .repeatStmt p
  | .kwWith => g.headedStatement .withStmt p
  | .kwSwitch => g.switchStatement p
  | .kwBreak => jumpStatement .breakStmt p
  | .kwContinue => jumpStatement .continueStmt p
  | .kwExit => jumpStatement .exitStmt p
  | .kwReturn => g.returnStatement p
  | .rBrace => p.fail .noStatement
  | kind => if kind.startsExpr then g.expressionStatement true p else p.failAndBump .noStatement

/-- A statement outside of blocks, where a closing brace is a fault and is taken. -/
def topLevelStatement (p : Parser) : Parser :=
  if p.isAt .rBrace then p.failAndBump .strayCloseBrace else g.statement p

/-- The grammar for nesting up to a depth. -/
def ofDepth : Nat → Grammar
  | 0 => ⟨id, fun _ => id⟩
  | n + 1 => ⟨fun p => (ofDepth n).statementRule p, fun power p => ((ofDepth n).expressionRule power p).2⟩

end Grammar

end Gml
