import Gml.Text.Bytes

/-!
# Parse errors

What the grammar missed, with the token it found instead. At the end of the input
the span is empty.
-/
namespace Gml

inductive Fault where
  | noExpression
  | noStatement
  | strayCloseBrace
  | noEffect
  | noFieldName
  | noFunctionBody
  | noParameterName
  | noVariableName
  | noEnumName
  | noEnumMember
  | noClause
  | noUntil
  | noConditionalColon
  | noColon
  | noSemicolon
  | noOpenParen
  | noCloseParen
  | noCloseBracket
  | noOpenBrace
  | noCloseBrace
  deriving DecidableEq, Repr

def Fault.message : Fault → String
  | .noExpression => "expected expression"
  | .noStatement => "expected statement"
  | .strayCloseBrace => "unexpected '\x7d'"
  | .noEffect => "expected assignment or call"
  | .noFieldName => "expected field name"
  | .noFunctionBody => "expected function body"
  | .noParameterName => "expected parameter name"
  | .noVariableName => "expected variable name"
  | .noEnumName => "expected enum name"
  | .noEnumMember => "expected enum member"
  | .noClause => "expected 'case' or 'default'"
  | .noUntil => "expected 'until'"
  | .noConditionalColon => "expected ':' in conditional expression"
  | .noColon => "expected ':'"
  | .noSemicolon => "expected ';'"
  | .noOpenParen => "expected '('"
  | .noCloseParen => "expected ')'"
  | .noCloseBracket => "expected ']'"
  | .noOpenBrace => "expected '\x7b'"
  | .noCloseBrace => "expected '\x7d'"

structure ParseError where
  fault : Fault
  span : Span
  deriving DecidableEq, Repr

def ParseError.message (error : ParseError) : String := error.fault.message

def ParseError.render (error : ParseError) : String :=
  s!"{error.message} at {error.span.start}..{error.span.stop}"

end Gml
