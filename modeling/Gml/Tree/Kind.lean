import Gml.Token.Kind

/-!
# Kinds of tree element

A tree has tokens for leaves and inner nodes named for the construct they stand
for. Both are numbered in one sequence, tokens first. A node for text that fits no
construct shares kind and number with the token for text that fits no lexeme.
-/
namespace Gml

inductive NodeKind where
  | sourceFile | macroDecl | varStmt | varDeclarator | globalVarStmt | enumDecl | enumMember
  | ifStmt | elseBranch | whileStmt | doStmt | forStmt | repeatStmt | withStmt | switchStmt
  | caseClause | defaultClause | breakStmt | continueStmt | exitStmt | returnStmt | block
  | emptyStmt | exprStmt | assignStmt | name | nameRef | literal | parenExpr | arrayLiteral
  | binaryExpr | unaryExpr | postfixExpr | ternaryExpr | callExpr | argList | fieldExpr
  | indexExpr | functionDecl | functionExpr | paramList | error
  deriving DecidableEq, Inhabited

namespace NodeKind

/-- The kinds of construct, in the order of their numbers. -/
def constructs : List NodeKind :=
  [.sourceFile, .macroDecl, .varStmt, .varDeclarator, .globalVarStmt, .enumDecl, .enumMember,
   .ifStmt, .elseBranch, .whileStmt, .doStmt, .forStmt, .repeatStmt, .withStmt, .switchStmt,
   .caseClause, .defaultClause, .breakStmt, .continueStmt, .exitStmt, .returnStmt, .block,
   .emptyStmt, .exprStmt, .assignStmt, .name, .nameRef, .literal, .parenExpr, .arrayLiteral,
   .binaryExpr, .unaryExpr, .postfixExpr, .ternaryExpr, .callExpr, .argList, .fieldExpr,
   .indexExpr, .functionDecl, .functionExpr, .paramList]

def label : NodeKind → String
  | .sourceFile => "SourceFile"
  | .macroDecl => "MacroDecl"
  | .varStmt => "VarStmt"
  | .varDeclarator => "VarDeclarator"
  | .globalVarStmt => "GlobalVarStmt"
  | .enumDecl => "EnumDecl"
  | .enumMember => "EnumMember"
  | .ifStmt => "IfStmt"
  | .elseBranch => "ElseBranch"
  | .whileStmt => "WhileStmt"
  | .doStmt => "DoStmt"
  | .forStmt => "ForStmt"
  | .repeatStmt => "RepeatStmt"
  | .withStmt => "WithStmt"
  | .switchStmt => "SwitchStmt"
  | .caseClause => "CaseClause"
  | .defaultClause => "DefaultClause"
  | .breakStmt => "BreakStmt"
  | .continueStmt => "ContinueStmt"
  | .exitStmt => "ExitStmt"
  | .returnStmt => "ReturnStmt"
  | .block => "Block"
  | .emptyStmt => "EmptyStmt"
  | .exprStmt => "ExprStmt"
  | .assignStmt => "AssignStmt"
  | .name => "Name"
  | .nameRef => "NameRef"
  | .literal => "Literal"
  | .parenExpr => "ParenExpr"
  | .arrayLiteral => "ArrayLiteral"
  | .binaryExpr => "BinaryExpr"
  | .unaryExpr => "UnaryExpr"
  | .postfixExpr => "PostfixExpr"
  | .ternaryExpr => "TernaryExpr"
  | .callExpr => "CallExpr"
  | .argList => "ArgList"
  | .fieldExpr => "FieldExpr"
  | .indexExpr => "IndexExpr"
  | .functionDecl => "FunctionDecl"
  | .functionExpr => "FunctionExpr"
  | .paramList => "ParamList"
  | .error => "Error"

def raw : NodeKind → Nat
  | .error => TokenKind.error.raw
  | kind => TokenKind.eof.raw + 1 + kind.ctorIdx

end NodeKind

inductive ElementKind where
  | token (kind : TokenKind)
  | node (kind : NodeKind)
  deriving DecidableEq

namespace ElementKind

def label : ElementKind → String
  | .token kind => kind.label
  | .node kind => kind.label

def raw : ElementKind → Nat
  | .token kind => kind.raw
  | .node kind => kind.raw

/-- The kind with a number; a number that no kind has stands for `error`. -/
def ofRaw (n : Nat) : ElementKind :=
  match TokenKind.all[n]? with
  | some kind => .token kind
  | none =>
      match NodeKind.constructs[n - TokenKind.all.length]? with
      | some kind => .node kind
      | none => .token .error

def isTrivia : ElementKind → Bool
  | .token kind => kind.isTrivia
  | .node _ => false

/-- Numbers up to that of `eof` belong to tokens. -/
def isToken (kind : ElementKind) : Bool := kind.raw ≤ TokenKind.eof.raw

def isNode (kind : ElementKind) : Bool := !kind.isToken

end ElementKind

end Gml
