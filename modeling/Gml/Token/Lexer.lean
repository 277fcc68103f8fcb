import Gml.Text.Bytes
import Gml.Text.Blank
import Gml.Token.Kind

/-!
# Tokens

`lex` cuts a text into tokens, blanks and comments included, so that the token
texts in order are the text. At each place the longest lexeme wins; a reserved
word beats an identifier and a documentation comment beats a line comment of the
same length. Where no lexeme fits there is an `error` token: it covers the
longest piece that further text could have completed to a lexeme, and at least
one character. Lexing itself never fails.
-/
namespace Gml

structure Token where
  kind : TokenKind
  /-- Byte offset of the first character. -/
  start : Nat
  text : String
  deriving DecidableEq, Inhabited

namespace Token

/-- Byte offset behind the last character. -/
def stop (token : Token) : Nat := token.start + token.text.utf8ByteSize

def span (token : Token) : Span := ⟨token.start, token.stop⟩

/-- Blank, tab, the two line ends and form feed. -/
def isSpace (c : Char) : Bool :=
  c == ' ' || c == '\t' || c == '\r' || c == '\n' || c == '\x0c'

def isIdentStart (c : Char) : Bool := c.isAlpha || c == '_'

def isIdentChar (c : Char) : Bool := c.isAlphanum || c == '_'

def isHexDigit (c : Char) : Bool :=
  c.isDigit || ('a' ≤ c && c ≤ 'f') || ('A' ≤ c && c ≤ 'F')

/-- Operators and punctuation; the longer ones come first. -/
def operators : List (String × TokenKind) :=
  [("[|", .lBracketPipe), ("[?", .lBracketQuestion), ("[#", .lBracketHash), ("[@", .lBracketAt),
   (":=", .colonAssign), ("+=", .plusAssign), ("-=", .minusAssign), ("*=", .starAssign),
   ("/=", .slashAssign), ("|=", .pipeAssign), ("&=", .ampAssign), ("^=", .caretAssign),
   ("==", .eqEq), ("!=", .neq), ("<>", .neq), ("<=", .ltEq), (">=", .gtEq), ("++", .plusPlus),
   ("--", .minusMinus), ("&&", .ampAmp), ("||", .pipePipe), ("^^", .caretCaret), ("<<", .shl),
   (">>", .shr), (";", .semicolon), (":", .colon), (",", .comma), (".", .dot), ("(", .lParen),
   (")", .rParen), ("[", .lBracket), ("]", .rBracket), ("\x7b", .lBrace), ("\x7d", .rBrace),
   ("?", .question), ("=", .assign), ("<", .lt), (">", .gt), ("+", .plus), ("-", .minus),
   ("*", .star), ("/", .slash), ("%", .percent), ("!", .bang), ("~", .tilde), ("&", .amp),
   ("|", .pipe), ("^", .caret)]

/-- The directives: a word after `#` and the kind of the line it begins. -/
def directives : List (String × TokenKind) :=
  [("region", .region), ("endregion", .region), ("macro", .macroLine)]

/-- How many characters there are before the end of the line. -/
def lineRest (cs : List Char) : Nat :=
  (cs.takeWhile fun c => c != '\r' && c != '\n').length

def countDigits (cs : List Char) : Nat := (cs.takeWhile Char.isDigit).length

def countHex (cs : List Char) : Nat := (cs.takeWhile isHexDigit).length

/-- How many characters two texts share at the front. -/
def sharedLength : List Char → List Char → Nat
  | a :: as, b :: bs => if a = b then sharedLength as bs + 1 else 0
  | _, _ => 0

/-- Characters up to and including the first `*/`. -/
def blockRest? : List Char → Option Nat
  | [] => none
  | '*' :: '/' :: _ => some 2
  | _ :: cs => (blockRest? cs).map (· + 1)

/-- What follows a double quote: how many characters belong to the literal, and
whether it is closed. A backslash takes the next character along unless that is a
newline, where the literal breaks off. -/
def quotedRest : List Char → Nat × Bool
  | [] => (0, false)
  | '"' :: _ => (1, true)
  | ['\\'] => (1, false)
  | '\\' :: '\n' :: _ => (1, false)
  | '\\' :: _ :: cs => let (n, closed) := quotedRest cs; (n + 2, closed)
  | _ :: cs => let (n, closed) := quotedRest cs; (n + 1, closed)

/-- What follows a single quote; there are no escapes. -/
def plainRest : List Char → Nat × Bool
  | [] => (0, false)
  | '\'' :: _ => (1, true)
  | _ :: cs => let (n, closed) := plainRest cs; (n + 1, closed)

def literal : Nat × Bool → TokenKind × Nat
  | (n, true) => (.stringLiteral, n)
  | (n, false) => (.error, n)

/-- A word is reserved or an identifier. -/
def wordKind (word : String) : TokenKind :=
  (TokenKind.keywords.lookup word).getD .ident

/-- A number that starts with the digit `c`. -/
def number (c : Char) (cs : List Char) : TokenKind × Nat :=
  let hex := match cs with
    | 'x' :: rest | 'X' :: rest => countHex rest
    | _ => 0
  if c == '0' && hex > 0 then (.hexLiteral, hex + 1)
  else
    let whole := countDigits cs
    match cs.drop whole with
    | '.' :: rest =>
        if countDigits rest > 0 then (.realLiteral, whole + 1 + countDigits rest)
        else (.realLiteral, whole)
    | _ => (.realLiteral, whole)

/-- What follows `#`. -/
def directive (cs : List Char) : TokenKind × Nat :=
  match directives.find? fun (word, _) => word.toList.isPrefixOf cs with
  | some (word, kind) => (kind, word.length + lineRest (cs.drop word.length))
  | none =>
      (.error, (directives.map fun (word, _) => sharedLength word.toList cs).foldl max 0)

def operator (c : Char) (cs : List Char) : TokenKind × Nat :=
  match operators.find? fun (word, _) => word.toList.isPrefixOf (c :: cs) with
  | some (word, kind) => (kind, word.length - 1)
  | none => (.error, 0)

/-- What follows `/`. -/
def slash (cs : List Char) : TokenKind × Nat :=
  match cs with
  | '/' :: '/' :: rest => (.docComment, lineRest rest + 2)
  | '/' :: rest => (.lineComment, lineRest rest + 1)
  | '*' :: rest =>
      match blockRest? rest with
      | some n => (.blockComment, n + 1)
      | none => (.error, rest.length + 1)
  | _ => operator '/' cs

/-- The lexeme at the front of `c :: cs`: its kind, and how many characters of
`cs` it takes besides `c`. -/
def munch (c : Char) (cs : List Char) : TokenKind × Nat :=
  if isSpace c then (.whitespace, (cs.takeWhile isSpace).length)
  else if isIdentStart c then
    let tail := cs.takeWhile isIdentChar
    (wordKind (String.ofList (c :: tail)), tail.length)
  else if c.isDigit then number c cs
  else match c with
    | '/' => slash cs
    | '#' => directive cs
    | '"' => literal (quotedRest cs)
    | '\'' => literal (plainRest cs)
    | '$' => if countHex cs > 0 then (.hexLiteral, countHex cs) else (.error, 0)
    | '.' => if countDigits cs > 0 then (.realLiteral, countDigits cs) else (.dot, 0)
    | _ => operator c cs

/-- The tokens of the characters from a byte offset on. Every token takes a
character, so as many steps as there are characters are enough. -/
def scan : Nat → Nat → List Char → List Token
  | 0, _, _ => []
  | _ + 1, _, [] => []
  | steps + 1, offset, c :: cs =>
      let (kind, n) := munch c cs
      let text := String.ofList (c :: cs.take n)
      ⟨kind, offset, text⟩ :: scan steps (offset + text.utf8ByteSize) (cs.drop n)

end Token

def lex (text : String) : List Token :=
  Token.scan text.length 0 text.toList

end Gml
