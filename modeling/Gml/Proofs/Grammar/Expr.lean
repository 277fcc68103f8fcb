import Gml.Proofs.Token.Spelled

/-!
# Abstract expressions and their texts

An abstract expression says what is applied to what. It is printed with a blank between two tokens
and with parentheses only where the binding powers ask for them. Its tree is the one that a parser
reads without the parentheses.
-/
namespace Gml

namespace TokenKind

def isSign (kind : TokenKind) : Bool := kind.prefixPower?.isSome

def isOperator (kind : TokenKind) : Bool := kind.infixPower?.isSome

/-- Steps by one. -/
def isStep (kind : TokenKind) : Bool := kind == .plusPlus || kind == .minusMinus

/-- The power with which an operator binds to its left. -/
def leftPower (kind : TokenKind) : Nat := (kind.infixPower?.map Prod.fst).getD 0

end TokenKind

/-- A lexeme of one of the kinds of a test. -/
structure Word (test : TokenKind → Bool) where
  kind : TokenKind
  text : String
  spelled : Token.Spelled (kind, text)
  fits : test kind = true

namespace Word

variable {test : TokenKind → Bool}

def content (word : Word test) : TokenKind × String := (word.kind, word.text)

def leaf (word : Word test) : Tree := .leaf ⟨word.kind, 0, word.text⟩

theorem leaf_injective {word other : Word test} (h : word.leaf = other.leaf) : word = other := by
  cases word
  cases other
  cases h
  rfl

end Word

inductive Expr where
  | name (word : Word (· == .ident))
  | real (word : Word (· == .realLiteral))
  | unary (sign : Word TokenKind.isSign) (operand : Expr)
  | binary (left : Expr) (operator : Word TokenKind.isOperator) (right : Expr)
  | conditional (test yes no : Expr)
  | call (callee : Expr) (arguments : List Expr)
  | field (base : Expr) (word : Word (· == .ident))
  | index (base : Expr) (opening : Word TokenKind.isIndexOpen) (first : Expr) (more : List Expr)
  | step (base : Expr) (sign : Word TokenKind.isStep)

namespace Expr

/-- How tightly an expression holds together. -/
def power : Expr → Nat
  | .unary _ _ => TokenKind.unaryPower
  | .binary _ operator _ => operator.kind.leftPower
  | .conditional _ _ _ => 0
  | _ => TokenKind.unaryPower + 1

/-- In parentheses if the expression holds together less tightly than its place asks for. -/
def wordsAt (least power : Nat) (words : List (TokenKind × String)) : List (TokenKind × String) :=
  if power < least then (.lParen, "(") :: (words ++ [(.rParen, ")")]) else words

mutual

/-- The tokens of the printed expression. To its left an operator takes what binds at least as
tightly as itself, and to its right what binds more tightly. -/
def words : Expr → List (TokenKind × String)
  | .name word => [word.content]
  | .real word => [word.content]
  | .unary sign operand =>
      sign.content :: wordsAt TokenKind.unaryPower operand.power operand.words
  | .binary left operator right =>
      wordsAt operator.kind.leftPower left.power left.words ++
        operator.content :: wordsAt (operator.kind.leftPower + 1) right.power right.words
  | .conditional test yes no =>
      wordsAt 1 test.power test.words ++
        (.question, "?") :: (yes.words ++ (.colon, ":") :: no.words)
  | .call callee arguments =>
      wordsAt (TokenKind.unaryPower + 1) callee.power callee.words ++
        (.lParen, "(") :: (itemWords arguments ++ [(.rParen, ")")])
  | .field base word =>
      wordsAt (TokenKind.unaryPower + 1) base.power base.words ++ [(.dot, "."), word.content]
  | .index base opening first more =>
      wordsAt (TokenKind.unaryPower + 1) base.power base.words ++
        opening.content :: (first.words ++ (moreWords more ++ [(.rBracket, "]")]))
  | .step base sign =>
      wordsAt (TokenKind.unaryPower + 1) base.power base.words ++ [sign.content]

/-- Expressions with a comma between every two of them. -/
def itemWords : List Expr → List (TokenKind × String)
  | [] => []
  | e :: es => e.words ++ moreWords es

/-- Expressions with a comma before each. -/
def moreWords : List Expr → List (TokenKind × String)
  | [] => []
  | e :: es => (.comma, ",") :: (e.words ++ moreWords es)

end

/-- The text of an expression. -/
def print (e : Expr) : String := Token.spaced (e.words.map Prod.snd)

/-- A token without its place. -/
def sign (kind : TokenKind) (text : String) : Tree := .leaf ⟨kind, 0, text⟩

mutual

/-- The tree of an expression, without parentheses and places. -/
def tree : Expr → Tree
  | .name word => .node .nameRef [word.leaf]
  | .real word => .node .literal [word.leaf]
  | .unary sign operand => .node .unaryExpr [sign.leaf, operand.tree]
  | .binary left operator right => .node .binaryExpr [left.tree, operator.leaf, right.tree]
  | .conditional test yes no =>
      .node .ternaryExpr [test.tree, sign .question "?", yes.tree, sign .colon ":", no.tree]
  | .call callee arguments =>
      .node .callExpr [callee.tree,
        .node .argList (sign .lParen "(" :: (itemTrees arguments ++ [sign .rParen ")"]))]
  | .field base word => .node .fieldExpr [base.tree, sign .dot ".", .node .name [word.leaf]]
  | .index base opening first more =>
      .node .indexExpr
        (base.tree :: opening.leaf :: first.tree :: (moreTrees more ++ [sign .rBracket "]"]))
  | .step base sign => .node .postfixExpr [base.tree, sign.leaf]

def itemTrees : List Expr → List Tree
  | [] => []
  | e :: es => e.tree :: moreTrees es

def moreTrees : List Expr → List Tree
  | [] => []
  | e :: es => sign .comma "," :: e.tree :: moreTrees es

end

mutual

/-- Different expressions have different trees. -/
theorem tree_injective {e other : Expr} (h : e.tree = other.tree) : e = other := by
  match e with
  | .name word =>
      cases other with
      | name word' =>
          simp only [tree, Tree.node.injEq, List.cons.injEq, and_true, true_and] at h
          rw [Word.leaf_injective h]
      | _ => cases h
  | .real word =>
      cases other with
      | real word' =>
          simp only [tree, Tree.node.injEq, List.cons.injEq, and_true, true_and] at h
          rw [Word.leaf_injective h]
      | _ => cases h
  | .unary sign operand =>
      cases other with
      | unary sign' operand' =>
          simp only [tree, Tree.node.injEq, List.cons.injEq, and_true, true_and] at h
          rw [Word.leaf_injective h.1, tree_injective h.2]
      | _ => cases h
  | .binary left operator right =>
      cases other with
      | binary left' operator' right' =>
          simp only [tree, Tree.node.injEq, List.cons.injEq, and_true, true_and] at h
          rw [tree_injective h.1, Word.leaf_injective h.2.1, tree_injective h.2.2]
      | _ => cases h
  | .conditional test yes no =>
      cases other with
      | conditional test' yes' no' =>
          simp only [tree, Tree.node.injEq, List.cons.injEq, and_true, true_and] at h
          rw [tree_injective h.1, tree_injective h.2.1, tree_injective h.2.2]
      | _ => cases h
  | .call callee arguments =>
      cases other with
      | call callee' arguments' =>
          simp only [tree, Tree.node.injEq, List.cons.injEq, and_true, true_and,
            List.append_cancel_right_eq] at h
          rw [tree_injective h.1, itemTrees_injective h.2]
      | _ => cases h
  | .field base word =>
      cases other with
      | field base' word' =>
          simp only [tree, Tree.node.injEq, List.cons.injEq, and_true, true_and] at h
          rw [tree_injective h.1, Word.leaf_injective h.2]
      | _ => cases h
  | .index base opening first more =>
      cases other with
      | index base' opening' first' more' =>
          simp only [tree, Tree.node.injEq, List.cons.injEq, true_and,
            List.append_cancel_right_eq] at h
          rw [tree_injective h.1, Word.leaf_injective h.2.1, tree_injective h.2.2.1,
            moreTrees_injective h.2.2.2]
      | _ => cases h
  | .step base sign =>
      cases other with
      | step base' sign' =>
          simp only [tree, Tree.node.injEq, List.cons.injEq, and_true, true_and] at h
          rw [tree_injective h.1, Word.leaf_injective h.2]
      | _ => cases h

theorem itemTrees_injective {es others : List Expr} (h : itemTrees es = itemTrees others) :
    es = others := by
  match es, others with
  | [], [] => rfl
  | [], _ :: _ => cases h
  | _ :: _, [] => cases h
  | e :: es, other :: others =>
      simp only [itemTrees, List.cons.injEq] at h
      rw [tree_injective h.1, moreTrees_injective h.2]

theorem moreTrees_injective {es others : List Expr} (h : moreTrees es = moreTrees others) :
    es = others := by
  match es, others with
  | [], [] => rfl
  | [], _ :: _ => cases h
  | _ :: _, [] => cases h
  | e :: es, other :: others =>
      simp only [moreTrees, List.cons.injEq, true_and] at h
      rw [tree_injective h.1, moreTrees_injective h.2]

end

end Expr

end Gml
