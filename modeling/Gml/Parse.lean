import Gml.Parser.Statement
import Gml.Tree.Build

/-!
# Parsing

A text is lexed, the tokens that mean something are read by the grammar, and the
events it writes are turned into a tree over all tokens. Parsing never fails: what
does not fit is kept in `error` nodes and reported.
-/
namespace Gml

/-- A tree and the errors found on the way, in the order they were met. -/
structure Parse where
  tree : Tree
  errors : List ParseError

namespace Parse

def ok (parse : Parse) : Bool := parse.errors.isEmpty

def firstError? (parse : Parse) : Option ParseError := parse.errors.head?

end Parse

namespace Parser

def ofTokens (tokens : List Token) (textEnd : Nat) : Parser :=
  { rest := tokens.filter fun token => !token.kind.isTrivia, textEnd }

/-- Reads a whole file. Each level of nesting takes a token, so the nesting is less
deep than the input is long. -/
def sourceFile (p : Parser) : Parser :=
  p.node .sourceFile (repeatWhile (!·.atEnd) (Grammar.ofDepth p.rounds).topLevelStatement)

end Parser

def parse (text : String) : Parse :=
  let tokens := lex text
  let p := (Parser.ofTokens tokens text.utf8ByteSize).sourceFile
  ⟨Tree.build p.events tokens, p.errors.toList⟩

end Gml
