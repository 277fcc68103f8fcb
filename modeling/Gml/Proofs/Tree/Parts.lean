import Gml.Proofs.Tree.Production

/-!
# Parts

Which nodes stand directly below a node, by the kinds of both. A name stands below what
declares it or below a field access, a declarator only below `var` and parameters only
below a function.
-/
namespace Gml

namespace NodeKind

/-- Whether a node of the second kind can stand directly below one of the first. -/
def admits : NodeKind → NodeKind → Bool
  | .sourceFile, child | .elseBranch, child | .block, child => child.isStatement
  | .varStmt, child => child == .varDeclarator
  | .globalVarStmt, child => child == .name
  | .varDeclarator, child | .enumMember, child | .paramList, child | .fieldExpr, child =>
      child == .name || child.isExpression
  | .enumDecl, child => child == .name || child == .enumMember
  | .functionDecl, child | .functionExpr, child =>
      child == .name || child == .paramList || child == .block
  | .ifStmt, child => child.isExpression || child.isStatement || child == .elseBranch
  | .switchStmt, child => child.isExpression || child == .caseClause || child == .defaultClause
  | .whileStmt, child | .doStmt, child | .forStmt, child | .repeatStmt, child
  | .withStmt, child | .caseClause, child | .defaultClause, child =>
      child.isExpression || child.isStatement
  | .callExpr, child => child.isExpression || child == .argList
  | .returnStmt, child | .exprStmt, child | .assignStmt, child | .parenExpr, child
  | .arrayLiteral, child | .binaryExpr, child | .unaryExpr, child | .postfixExpr, child
  | .ternaryExpr, child | .argList, child | .indexExpr, child => child.isExpression
  | .macroDecl, _ | .breakStmt, _ | .continueStmt, _ | .exitStmt, _ | .emptyStmt, _ | .name, _
  | .nameRef, _ | .literal, _ | .error, _ => false

end NodeKind

namespace Shape

open Computability

/-- All nodes among the trees of a shape are of certain kinds. -/
structure Within (p : NodeKind → Bool) (shape : Language Tree) : Prop where
  admitted : ∀ trees ∈ shape, ∀ kind children, .node kind children ∈ trees → p kind = true

namespace Within

variable {p q : NodeKind → Bool} {shape other : Language Tree}

theorem zero : Within p 0 := ⟨nofun⟩

theorem one : Within p 1 := by
  refine ⟨fun trees hmem kind children hnode => ?_⟩
  cases (Language.mem_one trees).mp hmem
  cases hnode

theorem mul (h : Within p shape) (h' : Within p other) : Within p (shape * other) := by
  refine ⟨fun trees hmem kind children hnode => ?_⟩
  obtain ⟨before, hbefore, after, hafter, rfl⟩ := Language.mem_mul.mp hmem
  rcases List.mem_append.mp hnode with hin | hin
  · exact h.admitted before hbefore kind children hin
  · exact h'.admitted after hafter kind children hin

theorem add (h : Within p shape) (h' : Within p other) : Within p (shape + other) := by
  refine ⟨fun trees hmem => ?_⟩
  rcases (Language.mem_add shape other trees).mp hmem with hmem | hmem
  · exact h.admitted trees hmem
  · exact h'.admitted trees hmem

theorem kstar (h : Within p shape) : Within p shape∗ := by
  refine ⟨fun trees hmem kind children hnode => ?_⟩
  obtain ⟨parts, rfl, hparts⟩ := Language.mem_kstar.mp hmem
  obtain ⟨part, hpart, hin⟩ := List.mem_flatten.mp hnode
  exact h.admitted part (hparts part hpart) kind children hin

theorem leaf (h : ∀ trees ∈ shape, ∃ token : Token, trees = [.leaf token]) : Within p shape := by
  refine ⟨fun trees hmem kind children hnode => ?_⟩
  obtain ⟨token, rfl⟩ := h trees hmem
  cases List.mem_singleton.mp hnode

theorem token (kind : TokenKind) : Within p (token kind) :=
  leaf fun _ ⟨token, _, htrees⟩ => ⟨token, htrees⟩

theorem tokenThat (fits : TokenKind → Bool) : Within p (tokenThat fits) :=
  leaf fun _ ⟨token, _, htrees⟩ => ⟨token, htrees⟩

theorem word (text : String) : Within p (word text) :=
  leaf fun _ ⟨token, _, _, htrees⟩ => ⟨token, htrees⟩

theorem nodeThat (h : ∀ kind, q kind = true → p kind = true) : Within p (nodeThat q) := by
  refine ⟨?_⟩
  rintro trees ⟨kind, below, hkind, rfl⟩ other children hnode
  cases List.mem_singleton.mp hnode
  exact h kind hkind

theorem node {kind : NodeKind} (h : p kind = true) : Within p (node kind) := by
  refine ⟨?_⟩
  rintro trees ⟨below, rfl⟩ other children hnode
  cases List.mem_singleton.mp hnode
  exact h

theorem prefixStep (h : p .unaryExpr = true) : Within p prefixStep := by
  refine ⟨?_⟩
  rintro trees ⟨sign, operand, -, rfl⟩ kind children hnode
  cases List.mem_singleton.mp hnode
  exact h

theorem optional (h : Within p shape) : Within p (optional shape) := one.add h

theorem separated (h : Within p shape) : Within p (separated shape) := h.mul ((token _).mul h).kstar

end Within

end Shape

namespace NodeKind

open Shape in
/-- A production has only nodes that its kind admits. -/
theorem production_within (kind : NodeKind) : Within kind.admits kind.production := by
  cases kind <;> dsimp only [production]
  all_goals
    apply_rules [Within.zero, Within.token, Within.tokenThat, Within.word, Within.node,
      Within.nodeThat, Within.prefixStep, Within.optional, Within.separated,
      Within.mul, Within.add, Within.kstar]
  all_goals
    intro child hchild
    simp only [admits, hchild, Bool.or_true, Bool.true_or]

end NodeKind

end Gml
