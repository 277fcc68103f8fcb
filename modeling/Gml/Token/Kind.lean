/-!
# Token kinds

The kinds of lexeme of the GameMaker language, in the order of their numbers:
blanks and comments, punctuation, assignment, operators, keywords, literals,
identifiers, and the two kinds that stand for unreadable text and for the end of
the input. Binding powers and the sets that the grammar asks about are here too.
-/
namespace Gml

inductive TokenKind where
  | whitespace | lineComment | docComment | blockComment | region | macroLine | semicolon
  | colon | comma | dot | lParen | rParen | lBracket | rBracket | lBrace | rBrace | question
  | lBracketPipe | lBracketQuestion | lBracketHash | lBracketAt | assign | colonAssign
  | plusAssign | minusAssign | starAssign | slashAssign | pipeAssign | ampAssign | caretAssign
  | eqEq | neq | lt | ltEq | gt | gtEq | plus | minus | star | slash | percent | plusPlus
  | minusMinus | ampAmp | pipePipe | caretCaret | bang | tilde | amp | pipe | caret | shl | shr
  | kwVar | kwGlobalvar | kwIf | kwThen | kwElse | kwWhile | kwDo | kwUntil | kwFor | kwRepeat
  | kwWith | kwSwitch | kwCase | kwDefault | kwBreak | kwContinue | kwExit | kwReturn | kwEnum
  | kwFunction | kwAnd | kwOr | kwXor | kwNot | kwDiv | kwMod | kwTrue | kwFalse | kwSelf
  | kwOther | kwAll | kwNoone | kwGlobal | realLiteral | hexLiteral | stringLiteral | ident
  | error | eof
  deriving DecidableEq, Inhabited

namespace TokenKind

/-- The number of a kind; node kinds are numbered after `eof`. -/
def raw (kind : TokenKind) : Nat := kind.ctorIdx

/-- Every kind, in the order of the numbers. -/
def all : List TokenKind :=
  [.whitespace, .lineComment, .docComment, .blockComment, .region, .macroLine, .semicolon,
   .colon, .comma, .dot, .lParen, .rParen, .lBracket, .rBracket, .lBrace, .rBrace, .question,
   .lBracketPipe, .lBracketQuestion, .lBracketHash, .lBracketAt, .assign, .colonAssign,
   .plusAssign, .minusAssign, .starAssign, .slashAssign, .pipeAssign, .ampAssign, .caretAssign,
   .eqEq, .neq, .lt, .ltEq, .gt, .gtEq, .plus, .minus, .star, .slash, .percent, .plusPlus,
   .minusMinus, .ampAmp, .pipePipe, .caretCaret, .bang, .tilde, .amp, .pipe, .caret, .shl,
   .shr, .kwVar, .kwGlobalvar, .kwIf, .kwThen, .kwElse, .kwWhile, .kwDo, .kwUntil, .kwFor,
   .kwRepeat, .kwWith, .kwSwitch, .kwCase, .kwDefault, .kwBreak, .kwContinue, .kwExit,
   .kwReturn, .kwEnum, .kwFunction, .kwAnd, .kwOr, .kwXor, .kwNot, .kwDiv, .kwMod, .kwTrue,
   .kwFalse, .kwSelf, .kwOther, .kwAll, .kwNoone, .kwGlobal, .realLiteral, .hexLiteral,
   .stringLiteral, .ident, .error, .eof]

theorem all_getElem_raw (kind : TokenKind) : all[kind.raw]? = some kind := by
  cases kind <;> rfl

def label : TokenKind → String
  | .whitespace => "Whitespace"
  | .lineComment => "LineComment"
  | .docComment => "DocComment"
  | .blockComment => "BlockComment"
  | .region => "Region"
  | .macroLine => "MacroLine"
  | .semicolon => "Semicolon"
  | .colon => "Colon"
  | .comma => "Comma"
  | .dot => "Dot"
  | .lParen => "LParen"
  | .rParen => "RParen"
  | .lBracket => "LBracket"
  | .rBracket => "RBracket"
  | .lBrace => "LBrace"
  | .rBrace => "RBrace"
  | .question => "Question"
  | .lBracketPipe => "LBracketPipe"
  | .lBracketQuestion => "LBracketQuestion"
  | .lBracketHash => "LBracketHash"
  | .lBracketAt => "LBracketAt"
  | .assign => "Assign"
  | .colonAssign => "ColonAssign"
  | .plusAssign => "PlusAssign"
  | .minusAssign => "MinusAssign"
  | .starAssign => "StarAssign"
  | .slashAssign => "SlashAssign"
  | .pipeAssign => "PipeAssign"
  | .ampAssign => "AmpAssign"
  | .caretAssign => "CaretAssign"
  | .eqEq => "EqEq"
  | .neq => "Neq"
  | .lt => "Lt"
  | .ltEq => "LtEq"
  | .gt => "Gt"
  | .gtEq => "GtEq"
  | .plus => "Plus"
  | .minus => "Minus"
  | .star => "Star"
  | .slash => "Slash"
  | .percent => "Percent"
  | .plusPlus => "PlusPlus"
  | .minusMinus => "MinusMinus"
  | .ampAmp => "AmpAmp"
  | .pipePipe => "PipePipe"
  | .caretCaret => "CaretCaret"
  | .bang => "Bang"
  | .tilde => "Tilde"
  | .amp => "Amp"
  | .pipe => "Pipe"
  | .caret => "Caret"
  | .shl => "Shl"
  | .shr => "Shr"
  | .kwVar => "KwVar"
  | .kwGlobalvar => "KwGlobalvar"
  | .kwIf => "KwIf"
  | .kwThen => "KwThen"
  | .kwElse => "KwElse"
  | .kwWhile => "KwWhile"
  | .kwDo => "KwDo"
  | .kwUntil => "KwUntil"
  | .kwFor => "KwFor"
  | .kwRepeat => "KwRepeat"
  | .kwWith => "KwWith"
  | .kwSwitch => "KwSwitch"
  | .kwCase => "KwCase"
  | .kwDefault => "KwDefault"
  | .kwBreak => "KwBreak"
  | .kwContinue => "KwContinue"
  | .kwExit => "KwExit"
  | .kwReturn => "KwReturn"
  | .kwEnum => "KwEnum"
  | .kwFunction => "KwFunction"
  | .kwAnd => "KwAnd"
  | .kwOr => "KwOr"
  | .kwXor => "KwXor"
  | .kwNot => "KwNot"
  | .kwDiv => "KwDiv"
  | .kwMod => "KwMod"
  | .kwTrue => "KwTrue"
  | .kwFalse => "KwFalse"
  | .kwSelf => "KwSelf"
  | .kwOther => "KwOther"
  | .kwAll => "KwAll"
  | .kwNoone => "KwNoone"
  | .kwGlobal => "KwGlobal"
  | .realLiteral => "RealLiteral"
  | .hexLiteral => "HexLiteral"
  | .stringLiteral => "StringLiteral"
  | .ident => "Ident"
  | .error => "Error"
  | .eof => "Eof"

/-- Blanks, comments and folding markers: they separate tokens and mean nothing else. -/
def isTrivia : TokenKind → Bool
  | .whitespace | .lineComment | .docComment | .blockComment | .region => true
  | _ => false

def keywords : List (String × TokenKind) :=
  [("var", .kwVar), ("globalvar", .kwGlobalvar), ("if", .kwIf), ("then", .kwThen),
   ("else", .kwElse), ("while", .kwWhile), ("do", .kwDo), ("until", .kwUntil), ("for", .kwFor),
   ("repeat", .kwRepeat), ("with", .kwWith), ("switch", .kwSwitch), ("case", .kwCase),
   ("default", .kwDefault), ("break", .kwBreak), ("continue", .kwContinue), ("exit", .kwExit),
   ("return", .kwReturn), ("enum", .kwEnum), ("function", .kwFunction), ("and", .kwAnd),
   ("or", .kwOr), ("xor", .kwXor), ("not", .kwNot), ("div", .kwDiv), ("mod", .kwMod),
   ("true", .kwTrue), ("false", .kwFalse), ("self", .kwSelf), ("other", .kwOther),
   ("all", .kwAll), ("noone", .kwNoone), ("global", .kwGlobal)]

def isKeyword (kind : TokenKind) : Bool :=
  TokenKind.kwVar.raw ≤ kind.raw && kind.raw ≤ TokenKind.kwGlobal.raw

/-- `=`, `:=` and the compound assignments. -/
def isAssignOp : TokenKind → Bool
  | .assign | .colonAssign | .plusAssign | .minusAssign | .starAssign | .slashAssign
  | .pipeAssign | .ampAssign | .caretAssign => true
  | _ => false

/-- `[` and the data structure accessors. -/
def isIndexOpen : TokenKind → Bool
  | .lBracket | .lBracketPipe | .lBracketQuestion | .lBracketHash | .lBracketAt => true
  | _ => false

/-- Kinds that can be the first of an expression. -/
def startsExpr : TokenKind → Bool
  | .ident | .realLiteral | .hexLiteral | .stringLiteral | .kwTrue | .kwFalse | .kwSelf
  | .kwOther | .kwAll | .kwNoone | .kwGlobal | .kwFunction | .kwNot | .lParen | .lBracket
  | .minus | .plus | .bang | .tilde | .plusPlus | .minusMinus => true
  | _ => false

/-- Kinds that can be the first of a statement. -/
def startsStatement (kind : TokenKind) : Bool :=
  kind.startsExpr || match kind with
  | .kwVar | .kwGlobalvar | .kwIf | .kwWhile | .kwDo | .kwFor | .kwRepeat | .kwWith | .kwSwitch
  | .kwBreak | .kwContinue | .kwExit | .kwReturn | .kwEnum | .kwFunction | .lBrace | .macroLine
  | .semicolon => true
  | _ => false

/-- Left and right binding power of an infix operator. Where `=` stands in an
expression it compares; an assignment takes its `=` before this is asked. -/
def infixPower? : TokenKind → Option (Nat × Nat)
  | .pipePipe | .kwOr => some (1, 2)
  | .caretCaret | .kwXor => some (3, 4)
  | .ampAmp | .kwAnd => some (5, 6)
  | .eqEq | .assign | .neq | .lt | .ltEq | .gt | .gtEq => some (7, 8)
  | .pipe => some (9, 10)
  | .caret => some (11, 12)
  | .amp => some (13, 14)
  | .shl | .shr => some (15, 16)
  | .plus | .minus => some (17, 18)
  | .star | .slash | .percent | .kwDiv | .kwMod => some (19, 20)
  | _ => none

/-- Binding power of the prefix operators, above that of every infix operator. -/
def unaryPower : Nat := 21

def prefixPower? : TokenKind → Option Nat
  | .bang | .kwNot | .plus | .minus | .tilde | .plusPlus | .minusMinus => some unaryPower
  | _ => none

end TokenKind

end Gml
