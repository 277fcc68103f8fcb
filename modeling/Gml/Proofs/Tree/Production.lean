import Gml.Tree.Basic
import Mathlib.Algebra.Order.Kleene
import Mathlib.Computability.Language
import Mathlib.Order.CompletePartialOrder

/-!
# Productions

What the children of a node are, by the kind of the node: a language over trees, made
from single tokens and nodes by choice, sequence and repetition. There is no production
for `error`, so a tree that follows the productions has no such node.
-/
namespace Gml

open Computability

namespace Shape

def token (kind : TokenKind) : Language Tree := {trees | ∃ t : Token, t.kind = kind ∧ trees = [.leaf t]}

def tokenThat (p : TokenKind → Bool) : Language Tree :=
  {trees | ∃ t : Token, p t.kind = true ∧ trees = [.leaf t]}

def anyOf (kinds : List TokenKind) : Language Tree := tokenThat kinds.contains

/-- An identifier with a meaning of its own. -/
def word (text : String) : Language Tree :=
  {trees | ∃ t : Token, t.kind = .ident ∧ t.text = text ∧ trees = [.leaf t]}

def node (kind : NodeKind) : Language Tree := {trees | ∃ children, trees = [.node kind children]}

def nodeThat (p : NodeKind → Bool) : Language Tree :=
  {trees | ∃ kind children, p kind = true ∧ trees = [.node kind children]}

def optional (shape : Language Tree) : Language Tree := 1 + shape

/-- One or more with commas between. -/
def separated (shape : Language Tree) : Language Tree := shape * (token .comma * shape)∗

/-- Any number with commas between and perhaps one at the end. -/
def listed (shape : Language Tree) : Language Tree :=
  optional (separated shape * optional (token .comma))

end Shape

namespace NodeKind

def isExpression : NodeKind → Bool
  | .literal | .nameRef | .functionExpr | .parenExpr | .arrayLiteral | .unaryExpr | .binaryExpr
  | .postfixExpr | .ternaryExpr | .callExpr | .fieldExpr | .indexExpr => true
  | _ => false

def isStatement : NodeKind → Bool
  | .emptyStmt | .block | .macroDecl | .varStmt | .globalVarStmt | .enumDecl | .functionDecl
  | .ifStmt | .whileStmt | .doStmt | .forStmt | .repeatStmt | .withStmt | .switchStmt | .breakStmt
  | .continueStmt | .exitStmt | .returnStmt | .assignStmt | .exprStmt => true
  | _ => false

end NodeKind

namespace Shape

def expression : Language Tree := nodeThat NodeKind.isExpression

def statement : Language Tree := nodeThat NodeKind.isStatement

/-- A step by one before its operand. -/
def prefixStep : Language Tree :=
  {trees | ∃ (t : Token) (operand : List Tree), (t.kind = .plusPlus ∨ t.kind = .minusMinus) ∧
    trees = [.node .unaryExpr (.leaf t :: operand)]}

/-- An expression that is more than its value. -/
def effect : Language Tree := node .callExpr + node .postfixExpr + prefixStep

/-- `= value` -/
def initializer : Language Tree := token .assign * expression

def parameter : Language Tree := node .name * optional initializer

/-- What a `for` does before the first round or after each round. -/
def step : Language Tree := node .assignStmt + node .exprStmt

def forHead : Language Tree :=
  token .lParen * optional (node .varStmt + step) * token .semicolon * optional expression
    * token .semicolon * optional step * token .rParen

/-- A function from its first word on. -/
def function : Language Tree :=
  token .kwFunction * optional (node .name) * node .paramList * optional (word "constructor")
    * node .block

end Shape

open Shape in
/-- The children of a node, without blanks and comments. -/
def NodeKind.production : NodeKind → Language Tree
  | .sourceFile => statement∗
  | .macroDecl => token .macroLine
  | .varStmt => token .kwVar * separated (node .varDeclarator) * optional (token .semicolon)
  | .varDeclarator => node .name * optional (anyOf [.assign, .colonAssign] * expression)
  | .globalVarStmt => token .kwGlobalvar * separated (node .name) * optional (token .semicolon)
  | .enumDecl => token .kwEnum * node .name
      * (token .lBrace * listed (node .enumMember) * token .rBrace) * optional (token .semicolon)
  | .enumMember => node .name * optional initializer
  | .ifStmt => token .kwIf * expression * optional (token .kwThen) * statement
      * optional (node .elseBranch)
  | .elseBranch => token .kwElse * statement
  | .whileStmt => token .kwWhile * expression * optional (token .kwDo) * statement
  | .doStmt => token .kwDo * statement * (token .kwUntil * expression) * optional (token .semicolon)
  | .forStmt => token .kwFor * forHead * statement
  | .repeatStmt => token .kwRepeat * expression * statement
  | .withStmt => token .kwWith * expression * statement
  | .switchStmt => token .kwSwitch * expression
      * (token .lBrace * (node .caseClause + node .defaultClause)∗ * token .rBrace)
  | .caseClause => token .kwCase * expression * token .colon * statement∗
  | .defaultClause => token .kwDefault * token .colon * statement∗
  | .breakStmt => token .kwBreak * optional (token .semicolon)
  | .continueStmt => token .kwContinue * optional (token .semicolon)
  | .exitStmt => token .kwExit * optional (token .semicolon)
  | .returnStmt => token .kwReturn * optional expression * optional (token .semicolon)
  | .block => token .lBrace * statement∗ * token .rBrace
  | .emptyStmt => token .semicolon
  | .exprStmt => effect * optional (token .semicolon)
  | .assignStmt => expression * tokenThat TokenKind.isAssignOp * expression
      * optional (token .semicolon)
  | .name => token .ident
  | .nameRef => anyOf [.ident, .kwSelf, .kwOther, .kwAll, .kwNoone, .kwGlobal]
  | .literal => anyOf [.realLiteral, .hexLiteral, .stringLiteral, .kwTrue, .kwFalse]
  | .parenExpr => token .lParen * expression * token .rParen
  | .arrayLiteral => token .lBracket * listed expression * token .rBracket
  | .binaryExpr => expression * (tokenThat (·.infixPower?.isSome) * expression)
  | .unaryExpr => tokenThat (·.prefixPower?.isSome) * expression
  | .postfixExpr => expression * anyOf [.plusPlus, .minusMinus]
  | .ternaryExpr => expression * (token .question * expression * token .colon * expression)
  | .callExpr => expression * node .argList
  | .argList => token .lParen * listed expression * token .rParen
  | .fieldExpr => expression * (token .dot * node .name)
  | .indexExpr => expression * (tokenThat TokenKind.isIndexOpen * separated expression
      * token .rBracket)
  | .functionDecl => function
  | .functionExpr => function
  | .paramList => token .lParen * listed parameter * token .rParen
  | .error => 0

/-- Every token fits a lexeme, and the children of every node follow its production. -/
inductive Tree.WellShaped : Tree → Prop
  | leaf {token : Token} : token.kind ≠ .error → WellShaped (.leaf token)
  | node {kind : NodeKind} {children : List Tree} : children ∈ kind.production →
      (∀ child ∈ children, WellShaped child) → WellShaped (.node kind children)

namespace Shape

variable {shape : Language Tree}

theorem le_optional (shape : Language Tree) : shape ≤ optional shape := le_add_self

theorem one_le_optional (shape : Language Tree) : 1 ≤ optional shape := le_self_add

theorem nodeThat_of_node {p : NodeKind → Bool} {kind : NodeKind} (h : p kind = true) :
    node kind ≤ nodeThat p := by
  rintro trees ⟨children, rfl⟩
  exact ⟨kind, children, h, rfl⟩

theorem tokenThat_of_token {p : TokenKind → Bool} {kind : TokenKind} (h : p kind = true) :
    token kind ≤ tokenThat p := by
  rintro trees ⟨t, rfl, rfl⟩
  exact ⟨t, h, rfl⟩

/-- An item and what may follow it: nothing, or a comma and the rest of the list. -/
theorem separated_step : shape * (optional (token .comma * separated shape)) ≤ separated shape := by
  have htail : optional (token .comma * separated shape) ≤ (token .comma * shape)∗ := by
    rw [optional, separated, ← mul_assoc, one_add_mul_kstar]
  exact mul_le_mul_right htail shape

theorem listed_step : shape * (optional (token .comma * listed shape)) ≤ listed shape := by
  have htail : optional (token .comma * listed shape) ≤
      (token .comma * shape)∗ * optional (token .comma) := by
    rw [listed, optional, optional, mul_add, mul_one, ← add_assoc]
    refine add_le ?_ ?_
    · exact le_mul_of_one_le_left' one_le_kstar
    · rw [separated, ← mul_assoc, ← mul_assoc]
      exact mul_le_mul_left mul_kstar_le_kstar _
  refine le_trans (mul_le_mul_right htail shape) ?_
  rw [← mul_assoc]
  exact le_optional _

end Shape

end Gml
