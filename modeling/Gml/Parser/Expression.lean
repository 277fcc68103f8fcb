import Gml.Parser.State

/-!
# Expressions

Infix operators bind by the powers of their tokens, prefix operators more
tightly, and field access, calls, indexing, `++` and `--` behind an operand most
tightly. The conditional `a ? b : c` is read only where no operator is waiting for
its operand. A function can stand in an expression, and an expression in a
statement, so the rules take the whole grammar as an argument; each calls it only
after it has taken a token.
-/
namespace Gml

/-- The grammar below a rule: a statement, and an expression whose infix operators
have at least a given binding power. -/
structure Grammar where
  statement : Parser → Parser
  expression : Nat → Parser → Parser

namespace Grammar

open Gml.Parser

variable (g : Grammar)

/-- An expression that may be a conditional. -/
def anyExpression (p : Parser) : Parser := g.expression 0 p

/-- `{ ... }` -/
def block (p : Parser) : Parser :=
  p.node .block fun p =>
    p.bump
      |> repeatWhile (fun p => !p.isAt .rBrace && !p.atEnd) g.statement
      |>.expect .rBrace .noCloseBrace

/-- `= value`, if it is there. -/
def initializer (p : Parser) : Parser :=
  if p.isAt .assign then g.anyExpression p.bump else p

def parameters : Nat → Parser → Parser
  | 0, p => p
  | n + 1, p =>
      if p.isAt .rParen || p.atEnd then p
      else if !p.isAt .ident then p.fail .noParameterName
      else
        let p := g.initializer p.name
        if p.isAt .comma then parameters n p.bump else p

def parameterList (p : Parser) : Parser :=
  p.node .paramList fun p =>
    let p := p.bump
    (g.parameters p.rounds p).expect .rParen .noCloseParen

/-- `function [name](a, b = 1) [constructor] { ... }`. Only in this place is
`constructor` more than an identifier. -/
def function (kind : NodeKind) (p : Parser) : Completed × Parser :=
  p.completeNode kind fun p =>
    let p := p.bump
    let p := if p.isAt .ident then p.name else p
    let p := if p.isAt .lParen then g.parameterList p else p.fail .noOpenParen
    let p := if p.isAt .ident && p.currentText == "constructor" then p.bump else p
    if p.isAt .lBrace then g.block p else p.fail .noFunctionBody

/-- `(a, b)` behind a called expression. -/
def argumentList (p : Parser) : Parser :=
  p.node .argList fun p =>
    let p := p.bump
    (itemsUntil .rParen g.anyExpression p.rounds p).expect .rParen .noCloseParen

/-- `a, b]` behind an opened index. -/
def indices (p : Parser) : Parser :=
  g.anyExpression p
    |> repeatWhile (·.isAt .comma) (fun p => g.anyExpression p.bump)
    |>.expect .rBracket .noCloseBracket

/-- What can follow an operand and bind to it most tightly. -/
def suffix? (operand : Completed) (p : Parser) : Option (Completed × Parser) :=
  match p.current with
  | .dot =>
      some <| p.wrapNode operand .fieldExpr fun p =>
        let p := p.bump
        if p.isAt .ident then p.name else p.fail .noFieldName
  | .lParen => some <| p.wrapNode operand .callExpr g.argumentList
  | .plusPlus | .minusMinus => some <| p.wrapNode operand .postfixExpr bump
  | kind =>
      if kind.isIndexOpen then
        some <| p.wrapNode operand .indexExpr fun p => g.indices p.bump
      else none

/-- Tokens that a construct further out is waiting for. -/
def isCloser : TokenKind → Bool
  | .eof | .rParen | .rBracket | .rBrace | .semicolon => true
  | _ => false

/-- A literal, a name, something in brackets, or a function. Anything else is a
fault and is taken unless it closes something. -/
def primary (p : Parser) : Completed × Parser :=
  match p.current with
  | .realLiteral | .hexLiteral | .stringLiteral | .kwTrue | .kwFalse =>
      p.completeNode .literal bump
  | .ident | .kwSelf | .kwOther | .kwAll | .kwNoone | .kwGlobal => p.completeNode .nameRef bump
  | .kwFunction => g.function .functionExpr p
  | .lParen =>
      p.completeNode .parenExpr fun p =>
        (g.anyExpression p.bump).expect .rParen .noCloseParen
  | .lBracket =>
      p.completeNode .arrayLiteral fun p =>
        let p := p.bump
        (itemsUntil .rBracket g.anyExpression p.rounds p).expect .rBracket .noCloseBracket
  | _ =>
      p.completeNode .error fun p =>
        let p := p.fail .noExpression
        if isCloser p.current then p else p.bump

/-- An operand, with the prefix operators before it. -/
def operand (p : Parser) : Completed × Parser :=
  match p.current.prefixPower? with
  | some power => p.completeNode .unaryExpr fun p => g.expression power p.bump
  | none => g.primary p

/-- Extends an expression to the right by what binds at least as tightly as
`minPower`. -/
def extend (minPower : Nat) : Nat → Completed → Parser → Completed × Parser
  | 0, left, p => (left, p)
  | n + 1, left, p =>
      match g.suffix? left p with
      | some (left, p) => extend minPower n left p
      | none =>
          match p.current.infixPower? with
          | some (leftPower, rightPower) =>
              if leftPower < minPower then (left, p)
              else
                let (left, p) := p.wrapNode left .binaryExpr fun p =>
                  g.expression rightPower p.bump
                extend minPower n left p
          | none =>
              if p.isAt .question && minPower == 0 then
                let (left, p) := p.wrapNode left .ternaryExpr fun p =>
                  (g.anyExpression p.bump).expect .colon .noConditionalColon
                    |> g.anyExpression
                extend minPower n left p
              else (left, p)

/-- An expression whose infix operators bind at least as tightly as `minPower`. -/
def expressionRule (minPower : Nat) (p : Parser) : Completed × Parser :=
  let (left, p) := g.operand p
  g.extend minPower p.rounds left p

end Grammar

end Gml
