import Gml.Parser.Statement
import Gml.Tree.Basic

/-!
# The grammar as plans

A plan says what one part of the grammar does with the tokens in front of it: it takes them into
the open node, looks at the next one to choose what to do, opens nodes, puts a node around the last
tree, or reports a fault. The rules name the plans that call each other, so that a run of the
grammar can be reasoned about by induction, without a bound on the nesting.
-/
namespace Gml

/-- The parts of the grammar that call each other. -/
inductive Rule where
  | file
  | statement
  /-- Statements up to a closing brace. -/
  | statements
  /-- Statements up to the end of a clause. -/
  | clauseBody
  | clauses
  | expression (power : Nat)
  /-- What extends an operand to the right. -/
  | extension (power : Nat)
  | items (close : TokenKind)
  /-- The indices behind the first one. -/
  | indices
  | parameters
  | declarators
  | names
  | members
  deriving DecidableEq

inductive Plan where
  | done
  /-- Takes the next token into the open node. -/
  | take
  | fault (fault : Fault)
  /-- Reports the last tree unless it is a call or a step by one. -/
  | effect
  | seq (first second : Plan)
  | look (choose : TokenKind → String → Plan)
  | node (kind : NodeKind) (body : Plan)
  /-- A node around the last tree and what `body` adds. -/
  | wrap (kind : NodeKind) (body : Plan)
  | rule (rule : Rule)

namespace Plan

/-! ### Parts of plans -/

def choice (test : TokenKind → Bool) (plan other : Plan) : Plan :=
  look fun kind _ => if test kind then plan else other

def option (test : TokenKind → Bool) (plan : Plan) : Plan := choice test plan done

def skip (kind : TokenKind) : Plan := option (· == kind) take

def orFault (kind : TokenKind) (plan : Plan) (missing : Fault) : Plan :=
  choice (· == kind) plan (fault missing)

def expect (kind : TokenKind) (missing : Fault) : Plan := orFault kind take missing

def name : Plan := node .name take

def anyExpression : Plan := rule (.expression 0)

/-- An expression behind a token. -/
def expressionAfter : Plan := take.seq anyExpression

def failAndTake (missing : Fault) : Plan :=
  (fault missing).seq (choice (· == .eof) done (node .error take))

/-- Behind an item more of its kind if there is a comma. -/
def moreAfterComma (more : Plan) : Plan := option (· == .comma) (take.seq more)

/-! ### Expressions -/

def block : Plan :=
  node .block ((take.seq (rule .statements)).seq (expect .rBrace .noCloseBrace))

def initializer : Plan := option (· == .assign) expressionAfter

def parameter : Plan := name.seq initializer

def parameterList : Plan :=
  node .paramList ((take.seq (rule .parameters)).seq (expect .rParen .noCloseParen))

def constructorWord : Plan :=
  look fun kind text => if kind == .ident && text == "constructor" then take else done

def functionParts : Plan :=
  (((take.seq (option (· == .ident) name)).seq (orFault .lParen parameterList .noOpenParen)).seq
    constructorWord).seq (orFault .lBrace block .noFunctionBody)

def function (kind : NodeKind) : Plan := node kind functionParts

def argumentList : Plan :=
  node .argList ((take.seq (rule (.items .rParen))).seq (expect .rParen .noCloseParen))

def parenthesized : Plan := node .parenExpr (expressionAfter.seq (expect .rParen .noCloseParen))

def array : Plan :=
  node .arrayLiteral ((take.seq (rule (.items .rBracket))).seq (expect .rBracket .noCloseBracket))

/-- A fault that takes the next token unless it closes something. -/
def noExpression : Plan :=
  node .error ((fault .noExpression).seq (choice Grammar.isCloser done take))

def primary : TokenKind → Plan
  | .realLiteral | .hexLiteral | .stringLiteral | .kwTrue | .kwFalse => node .literal take
  | .ident | .kwSelf | .kwOther | .kwAll | .kwNoone | .kwGlobal => node .nameRef take
  | .kwFunction => function .functionExpr
  | .lParen => parenthesized
  | .lBracket => array
  | _ => noExpression

def operand : Plan :=
  look fun kind _ =>
    match kind.prefixPower? with
    | some power => node .unaryExpr (take.seq (rule (.expression power)))
    | none => primary kind

def field : Plan := wrap .fieldExpr (take.seq (orFault .ident name .noFieldName))

def call : Plan := wrap .callExpr argumentList

def index : Plan :=
  wrap .indexExpr (((take.seq anyExpression).seq (rule .indices)).seq
    (expect .rBracket .noCloseBracket))

def suffix? (kind : TokenKind) : Option Plan :=
  match kind with
  | .dot => some field
  | .lParen => some call
  | .plusPlus | .minusMinus => some (wrap .postfixExpr take)
  | kind => if kind.isIndexOpen then some index else none

def binary (power : Nat) : Plan := wrap .binaryExpr (take.seq (rule (.expression power)))

def conditional : Plan :=
  wrap .ternaryExpr ((expressionAfter.seq (expect .colon .noConditionalColon)).seq anyExpression)

/-- What extends an operand first, if anything does. -/
def extension? (power : Nat) (kind : TokenKind) : Option Plan :=
  match suffix? kind with
  | some plan => some plan
  | none =>
      match kind.infixPower? with
      | some (left, right) => if left < power then none else some (binary right)
      | none => if kind == .question && power == 0 then some conditional else none

/-! ### Statements -/

def declarator : Plan :=
  node .varDeclarator (name.seq
    (option (fun kind => kind == .assign || kind == .colonAssign) expressionAfter))

def terminator (terminated : Bool) : Plan := if terminated then skip .semicolon else done

def varStatement (terminated : Bool) : Plan :=
  node .varStmt ((take.seq (rule .declarators)).seq (terminator terminated))

def globalVarStatement : Plan :=
  node .globalVarStmt ((take.seq (rule .names)).seq (skip .semicolon))

def enumMember : Plan := node .enumMember parameter

def enumBody : Plan := (take.seq (rule .members)).seq (expect .rBrace .noCloseBrace)

def enumDeclaration : Plan :=
  node .enumDecl (((take.seq (orFault .ident name .noEnumName)).seq
    (orFault .lBrace enumBody .noOpenBrace)).seq (skip .semicolon))

def elseBranch : Plan := node .elseBranch (take.seq (rule .statement))

def ifStatement : Plan :=
  node .ifStmt (((expressionAfter.seq (skip .kwThen)).seq (rule .statement)).seq
    (option (· == .kwElse) elseBranch))

def whileStatement : Plan :=
  node .whileStmt ((expressionAfter.seq (skip .kwDo)).seq (rule .statement))

def doStatement : Plan :=
  node .doStmt (((take.seq (rule .statement)).seq (orFault .kwUntil expressionAfter .noUntil)).seq
    (skip .semicolon))

def assignment (terminated : Bool) : Plan :=
  wrap .assignStmt (expressionAfter.seq (terminator terminated))

def effectStatement (terminated : Bool) : Plan :=
  wrap .exprStmt (effect.seq (terminator terminated))

def expressionStatement (terminated : Bool) : Plan :=
  (rule (.expression TokenKind.unaryPower)).seq
    (choice TokenKind.isAssignOp (assignment terminated) (effectStatement terminated))

def forInit : Plan :=
  choice (· == .kwVar) (varStatement false)
    (choice (· == .semicolon) done (expressionStatement false))

def forHead : Plan :=
  (((((take.seq forInit).seq (expect .semicolon .noSemicolon)).seq
    (choice (· == .semicolon) done anyExpression)).seq (expect .semicolon .noSemicolon)).seq
    (choice (· == .rParen) done (expressionStatement false))).seq (expect .rParen .noCloseParen)

def forStatement : Plan :=
  node .forStmt ((take.seq (orFault .lParen forHead .noOpenParen)).seq (rule .statement))

def headedStatement (kind : NodeKind) : Plan :=
  node kind (expressionAfter.seq (rule .statement))

def caseClause : Plan :=
  node .caseClause ((expressionAfter.seq (expect .colon .noColon)).seq (rule .clauseBody))

def defaultClause : Plan :=
  node .defaultClause ((take.seq (expect .colon .noColon)).seq (rule .clauseBody))

def clause : TokenKind → Plan
  | .kwCase => caseClause
  | .kwDefault => defaultClause
  | _ => (fault .noClause).seq (rule .statement)

def switchBody : Plan := (take.seq (rule .clauses)).seq (expect .rBrace .noCloseBrace)

def switchStatement : Plan :=
  node .switchStmt (expressionAfter.seq (orFault .lBrace switchBody .noOpenBrace))

def jumpStatement (kind : NodeKind) : Plan := node kind (take.seq (skip .semicolon))

def returnStatement : Plan :=
  node .returnStmt ((take.seq (option TokenKind.startsExpr anyExpression)).seq (skip .semicolon))

def statement : TokenKind → Plan
  | .semicolon => node .emptyStmt take
  | .lBrace => block
  | .macroLine => node .macroDecl take
  | .kwVar => varStatement true
  | .kwGlobalvar => globalVarStatement
  | .kwEnum => enumDeclaration
  | .kwFunction => function .functionDecl
  | .kwIf => ifStatement
  | .kwWhile => whileStatement
  | .kwDo => doStatement
  | .kwFor => forStatement
  | .kwRepeat => headedStatement .repeatStmt
  | .kwWith => headedStatement .withStmt
  | .kwSwitch => switchStatement
  | .kwBreak => jumpStatement .breakStmt
  | .kwContinue => jumpStatement .continueStmt
  | .kwExit => jumpStatement .exitStmt
  | .kwReturn => returnStatement
  | .rBrace => fault .noStatement
  | kind => if kind.startsExpr then expressionStatement true else failAndTake .noStatement

/-! ### Lists -/

/-- Nothing before a token of `stops`, and else `first` and more of the rule. -/
def repeated (stops : TokenKind → Bool) (first : Plan) (more : Rule) : Plan :=
  choice stops done (first.seq (rule more))

def member : Plan :=
  choice (· == .ident) (enumMember.seq (moreAfterComma (rule .members)))
    ((failAndTake .noEnumMember).seq (rule .members))

def body : Rule → Plan
  | .file => repeated (· == .eof)
      (choice (· == .rBrace) (failAndTake .strayCloseBrace) (rule .statement)) .file
  | .statement => look fun kind _ => statement kind
  | .statements =>
      repeated (fun kind => kind == .rBrace || kind == .eof) (rule .statement) .statements
  | .clauseBody => repeated Grammar.isClauseEnd (rule .statement) .clauseBody
  | .clauses => repeated (fun kind => kind == .rBrace || kind == .eof)
      (look fun kind _ => clause kind) .clauses
  | .expression power => operand.seq (rule (.extension power))
  | .extension power => look fun kind _ =>
      match extension? power kind with
      | some plan => plan.seq (rule (.extension power))
      | none => done
  | .items close => choice (fun kind => kind == close || kind == .eof) done
      (anyExpression.seq (moreAfterComma (rule (.items close))))
  | .indices => repeated (· != .comma) expressionAfter .indices
  | .parameters => choice (fun kind => kind == .rParen || kind == .eof) done
      (orFault .ident (parameter.seq (moreAfterComma (rule .parameters))) .noParameterName)
  | .declarators => orFault .ident (declarator.seq (moreAfterComma (rule .declarators)))
      .noVariableName
  | .names => orFault .ident (name.seq (moreAfterComma (rule .names))) .noVariableName
  | .members => choice (fun kind => kind == .rBrace || kind == .eof) done member

end Plan

/-! ### Runs -/

/-- What is left to read, and the trees read into the open node, the last one first. -/
structure Cursor where
  rest : List Token
  trees : List Tree

/-- A fault and the tokens in front of which it was met. -/
structure Report where
  fault : Fault
  rest : List Token

namespace Cursor

/-- The kind of the next token, `eof` at the end. -/
def kind (c : Cursor) : TokenKind :=
  match c.rest with
  | [] => .eof
  | token :: _ => token.kind

def text (c : Cursor) : String :=
  match c.rest with
  | [] => ""
  | token :: _ => token.text

/-- The last tree is a call or a step by one. -/
def hasEffect (c : Cursor) : Bool :=
  match c.trees with
  | .node .callExpr _ :: _ | .node .postfixExpr _ :: _ => true
  | .node .unaryExpr children :: _ => (Tree.leavesAll children).head?.any fun sign =>
      sign.kind == .plusPlus || sign.kind == .minusMinus
  | _ => false

end Cursor

namespace Plan

/-- A plan leads from one place to another and reports faults on the way. -/
inductive Runs : Plan → Cursor → Cursor → List Report → Prop
  | done (c : Cursor) : Runs done c c []
  | take (token : Token) (rest : List Token) (trees : List Tree) :
      Runs take ⟨token :: rest, trees⟩ ⟨rest, .leaf token :: trees⟩ []
  | fault (missing : Fault) (c : Cursor) : Runs (fault missing) c c [⟨missing, c.rest⟩]
  | effect {c : Cursor} : c.hasEffect = true → Runs effect c c []
  | noEffect {c : Cursor} : c.hasEffect = false → Runs effect c c [⟨.noEffect, c.rest⟩]
  | seq {first second : Plan} {c d e : Cursor} {reports others : List Report} :
      Runs first c d reports → Runs second d e others →
      Runs (first.seq second) c e (reports ++ others)
  | look {choose : TokenKind → String → Plan} {c d : Cursor} {reports : List Report} :
      Runs (choose c.kind c.text) c d reports → Runs (look choose) c d reports
  | node {kind : NodeKind} {body : Plan} {rest rest' : List Token} {trees inner : List Tree}
      {reports : List Report} : Runs body ⟨rest, []⟩ ⟨rest', inner⟩ reports →
      Runs (node kind body) ⟨rest, trees⟩ ⟨rest', .node kind inner.reverse :: trees⟩ reports
  | wrap {kind : NodeKind} {body : Plan} {rest rest' : List Token} {trees inner : List Tree}
      {reports : List Report} : Runs body ⟨rest, trees.take 1⟩ ⟨rest', inner⟩ reports →
      Runs (wrap kind body) ⟨rest, trees⟩ ⟨rest', .node kind inner.reverse :: trees.drop 1⟩ reports
  | rule {rule : Rule} {c d : Cursor} {reports : List Report} :
      Runs (body rule) c d reports → Runs (.rule rule) c d reports

end Plan

end Gml
