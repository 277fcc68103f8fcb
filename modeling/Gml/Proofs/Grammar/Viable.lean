import Gml.Proofs.Grammar.Finishing

/-!
# Every part of the grammar can be finished

Each rule has a set of tokens in front of which it ends. In a sequence the part behind has a word
that makes it whole, and the part before can end in front of that word. So an unfinished part never
stands in the way of what was to come behind it.
-/
namespace Gml

/-- The tokens in front of which a statement ends in a block, in a loop and in a file. -/
def statementEnds : List TokenKind := [.kwUntil, .rBrace, .eof]

/-- The tokens in front of which a list of variables ends. -/
def listEnds : List TokenKind := .semicolon :: statementEnds

/-- The tokens in front of which an expression ends. -/
def expressionEnds : List TokenKind :=
  [.rParen, .rBracket, .colon, .lBrace, .colonAssign] ++ listEnds

/-- Tokens in front of which a rule can end. -/
def Rule.stops : Rule → List TokenKind
  | .file => [.eof]
  | .statement => statementEnds
  | .statements | .clauseBody | .clauses | .members => [.rBrace]
  | .expression _ | .extension _ => expressionEnds
  | .items close => expressionEnds.filter (· == close)
  | .indices => [.rBracket]
  | .parameters => [.rParen]
  | .declarators | .names => listEnds

namespace Plan

open Token

variable {plan other first second : Plan} {kind : TokenKind} {text : String}
  {stops middle : List TokenKind} {word : List (TokenKind × String)}

/-- A plan that can be finished in front of the tokens wherever it fails. A sequence that starts
with a fault never gets further, so nothing is asked of the rest of it. -/
inductive Viable : Plan → List TokenKind → Prop
  | done {stops : List TokenKind} : Viable done stops
  | take {stops : List TokenKind} : Viable take stops
  | fault {missing : Fault} {stops : List TokenKind} : Viable (fault missing) stops
  | effect {stops : List TokenKind} : Viable effect stops
  | halts {missing : Fault} {second : Plan} {stops : List TokenKind} :
      Viable ((Plan.fault missing).seq second) stops
  | seq {first second : Plan} {stops middle : List TokenKind} {word : List (TokenKind × String)} :
      Viable first middle → Viable second stops → Defaults second stops word →
      (∀ kind ∈ stops, headKind word kind ∈ middle) → (second.Takes ∨ stops ⊆ middle) →
      Viable (first.seq second) stops
  | look {choose : TokenKind → String → Plan} {stops : List TokenKind} :
      (∀ kind text, Viable (choose kind text) stops) →
      (∀ kind text, (choose kind text).Takes ∨
        ∀ kind' ∈ stops, ∀ text', choose kind' text' = choose kind text) →
      Viable (look choose) stops
  | node {kind : NodeKind} {body : Plan} {stops : List TokenKind} :
      Viable body stops → Viable (node kind body) stops
  | wrap {kind : NodeKind} {body : Plan} {stops : List TokenKind} :
      Viable body stops → Viable (wrap kind body) stops
  | rule {called : Rule} {stops : List TokenKind} :
      stops ⊆ called.stops → Viable (rule called) stops

namespace Viable

/-- The part behind takes a token and so does its word. -/
theorem seq_cons (hfirst : Viable first middle) (hsecond : Viable second stops)
    (hdefaults : Defaults second stops ((kind, text) :: word)) (htakes : second.Takes)
    (hmiddle : kind ∈ middle) : Viable (first.seq second) stops :=
  seq hfirst hsecond hdefaults (fun _ _ => hmiddle) (.inl htakes)

/-- The part behind may be missing. -/
theorem seq_nil (hfirst : Viable first stops) (hsecond : Viable second stops)
    (hdefaults : Defaults second stops []) : Viable (first.seq second) stops :=
  seq hfirst hsecond hdefaults (fun _ h => h) (.inr (List.Subset.refl stops))

/-- The part before can end in front of every token. -/
theorem seq_all (hfirst : Viable first TokenKind.all) (hsecond : Viable second stops)
    (hdefaults : Defaults second stops word) : Viable (first.seq second) stops :=
  seq hfirst hsecond hdefaults (fun _ _ => TokenKind.mem_all _)
    (.inr fun _ _ => TokenKind.mem_all _)

theorem choice {test : TokenKind → Bool} (hplan : Viable plan stops) (hother : Viable other stops)
    (htrue : plan.Takes ∨ ∀ kind ∈ stops, test kind = true)
    (hfalse : other.Takes ∨ ∀ kind ∈ stops, test kind = false) :
    Viable (.choice test plan other) stops := by
  refine look (fun kind _ => ?_) fun kind _ => ?_
  · split
    · exact hplan
    · exact hother
  · split
    next htest => exact htrue.imp_right fun h kind' hkind' _ => if_pos (h kind' hkind')
    next htest => exact hfalse.imp_right fun h kind' hkind' _ => by rw [h kind' hkind']; rfl

theorem option {test : TokenKind → Bool} (hplan : Viable plan stops) (htakes : plan.Takes)
    (hstops : ∀ kind ∈ stops, test kind = false) : Viable (.option test plan) stops :=
  choice hplan .done (.inl htakes) (.inr hstops)

theorem stop {test : TokenKind → Bool} (hplan : Viable plan stops) (htakes : plan.Takes)
    (hstops : ∀ kind ∈ stops, test kind = true) : Viable (.choice test .done plan) stops :=
  choice .done hplan (.inr hstops) (.inl htakes)

theorem orFault {missing : Fault} (hplan : Viable plan stops) (htakes : plan.Takes) :
    Viable (.orFault kind plan missing) stops :=
  choice hplan .fault (.inl htakes) (.inl trivial)

theorem expect {missing : Fault} : Viable (.expect kind missing) stops :=
  orFault .take trivial

/-- Before a token that is expected a plan can end in front of it. -/
theorem seq_expect {missing : Fault} (h : Token.Spelled (kind, text))
    (hfirst : Viable first [kind]) : Viable (first.seq (.expect kind missing)) stops :=
  seq_cons hfirst expect (.expect h) (takes_expect _ _) List.mem_cons_self

theorem skip (hstops : ∀ kind' ∈ stops, (kind' == kind) = false) : Viable (.skip kind) stops :=
  option .take trivial hstops

end Viable

/-- Nothing extends an expression in front of a token where it can end. -/
theorem extension_expressionEnds (power : Nat) : ∀ kind ∈ expressionEnds,
    extension? power kind = none := by
  have hends : ∀ kind ∈ expressionEnds, suffix? kind = none ∧ kind.infixPower? = none ∧
      kind ≠ .question := by
    simp [expressionEnds, listEnds, statementEnds, suffix?, TokenKind.isIndexOpen,
      TokenKind.infixPower?]
  intro kind hkind
  obtain ⟨hsuffix, hinfix, hquestion⟩ := hends kind hkind
  simp [extension?, hsuffix, hinfix, hquestion]


/-! ### Expressions -/

/-- What is false of the tokens where something ends is false of some of them. -/
theorem avoids (test : TokenKind → Bool) {ends : List TokenKind} (hstops : stops ⊆ ends)
    (h : ∀ kind ∈ ends, test kind = false) : ∀ kind ∈ stops, test kind = false :=
  fun kind hkind => h kind (hstops hkind)

theorem defaults_extension (power : Nat) (hstops : stops ⊆ expressionEnds) :
    Defaults (rule (.extension power)) stops [] := by
  refine .rule (.look_nil fun kind hkind _ => ?_)
  rw [extension_expressionEnds power kind (hstops hkind)]
  exact .done

theorem defaults_operand : Defaults operand stops [(.ident, "x")] := by
  have hname : Defaults (primary .ident) stops [(.ident, "x")] := .node (.take spelled_identifier)
  exact .look hname

theorem defaults_expression (power : Nat) (hstops : stops ⊆ expressionEnds) :
    Defaults (rule (.expression power)) stops [(.ident, "x")] := by
  have hbody := Defaults.seq_nil defaults_operand (defaults_extension power hstops)
  exact .rule hbody

theorem viable_expressionAfter (hstops : stops ⊆ expressionEnds) : Viable expressionAfter stops :=
  .seq_all .take (.rule hstops) (defaults_expression 0 hstops)

theorem viable_name : Viable name stops := .node .take

theorem defaults_name : Defaults name stops [(.ident, "x")] := .node (.take spelled_identifier)

/-- A list in braces, brackets or parentheses, of which all items may be missing. -/
theorem viable_enclosed {called : Rule} {missing : Fault} (h : Token.Spelled (kind, text))
    (hcalled : kind ∈ called.stops) (hdefaults : Defaults (rule called) [kind] []) :
    Viable ((take.seq (rule called)).seq (expect kind missing)) stops :=
  .seq_expect h (.seq_all .take (.rule (List.cons_subset.mpr ⟨hcalled, List.nil_subset _⟩))
    hdefaults)

theorem defaults_enclosed {called : Rule} {missing : Fault} {kind' : TokenKind} {text' : String}
    (h : Token.Spelled (kind, text)) (h' : Token.Spelled (kind', text'))
    (hdefaults : Defaults (rule called) [kind'] []) :
    Defaults ((take.seq (rule called)).seq (expect kind' missing)) stops
      [(kind, text), (kind', text')] :=
  .seq_cons (.seq_nil (.take h) hdefaults) (.expect h') List.mem_cons_self

/-- A list may be empty in front of what closes it. -/
theorem defaults_list {called : Rule} {test : TokenKind → Bool}
    (hbody : body called = choice test done plan) (htest : test kind = true) :
    Defaults (rule called) [kind] [] := by
  have hstop : Defaults (body called) [kind] [] := by
    rw [hbody]
    exact .stop (by simpa using htest)
  exact .rule hstop

theorem viable_block : Viable block stops :=
  .node (viable_enclosed spelled_rBrace List.mem_cons_self (defaults_list rfl rfl))

theorem defaults_block : Defaults block stops [(.lBrace, "\x7b"), (.rBrace, "\x7d")] :=
  .node (defaults_enclosed spelled_lBrace spelled_rBrace (defaults_list rfl rfl))

theorem defaults_initializer (hstops : stops ⊆ expressionEnds) : Defaults initializer stops [] :=
  .option (avoids _ hstops (by decide))

theorem viable_parameter (hstops : stops ⊆ expressionEnds) : Viable parameter stops :=
  .seq_all viable_name
    (.option (viable_expressionAfter hstops) (.inl trivial) (avoids _ hstops (by decide)))
    (defaults_initializer hstops)

theorem viable_functionParts : Viable functionParts stops := by
  have hname : Viable (take.seq (option (· == .ident) name)) [.lParen] :=
    .seq_all .take (.option viable_name trivial (by decide)) (.option (by decide))
  have hlist : Viable parameterList [.lBrace] :=
    .node (viable_enclosed spelled_rParen List.mem_cons_self (defaults_list rfl rfl))
  have htakes : parameterList.Takes := .inl (.inl trivial)
  have hempty : Defaults parameterList [.lBrace] [(.lParen, "("), (.rParen, ")")] :=
    .node (defaults_enclosed spelled_lParen spelled_rParen (defaults_list rfl rfl))
  have hparameters : Viable ((take.seq (option (· == .ident) name)).seq
      (orFault .lParen parameterList .noOpenParen)) [.lBrace] :=
    .seq_cons hname (.orFault hlist htakes) (.orFault hempty) (takes_orFault htakes _ _)
      List.mem_cons_self
  have hword : Viable constructorWord [.lBrace] := by
    refine .look (fun kind text => ?_) fun kind text => ?_
    · split
      · exact .take
      · exact .done
    · split
      · exact .inl trivial
      · exact .inr (by simp)
  have hnone : Defaults constructorWord [.lBrace] [] :=
    .look_nil (by simpa using Defaults.done)
  exact .seq_cons (.seq_nil hparameters hword hnone) (.orFault viable_block takes_block)
    (.orFault defaults_block) (takes_orFault takes_block _ _) List.mem_cons_self

theorem viable_primary (kind : TokenKind) : Viable (primary kind) stops := by
  unfold primary
  split
  iterate 11 exact .node .take
  · exact .node viable_functionParts
  · exact .node (.seq_expect spelled_rParen (viable_expressionAfter (by simp [expressionEnds])))
  · exact .node (viable_enclosed spelled_rBracket (by decide) (defaults_list rfl rfl))
  · exact .node .halts

theorem viable_operand (hstops : stops ⊆ expressionEnds) : Viable operand stops := by
  refine .look (fun kind _ => ?_) fun kind text => .inl (takes_operand kind text)
  split
  · exact .node (.seq_all .take (.rule hstops) (defaults_expression _ hstops))
  · exact viable_primary kind

theorem viable_index : Viable index stops :=
  .wrap (.seq_expect spelled_rBracket (.seq_nil (viable_expressionAfter (by simp [expressionEnds]))
    (.rule (List.Subset.refl _)) (defaults_list rfl rfl)))

theorem viable_conditional (hstops : stops ⊆ expressionEnds) : Viable conditional stops :=
  .wrap (.seq_all (.seq_expect spelled_colon (viable_expressionAfter (by simp [expressionEnds])))
    (.rule hstops) (defaults_expression 0 hstops))

theorem viable_suffix (h : suffix? kind = some plan) : Viable plan stops := by
  unfold suffix? at h
  split at h
  · cases h
    exact .wrap (.seq_all .take (.orFault viable_name trivial) (.orFault defaults_name))
  · cases h
    exact .wrap (.node (viable_enclosed spelled_rParen (by decide) (defaults_list rfl rfl)))
  · cases h
    exact .wrap .take
  · cases h
    exact .wrap .take
  · split at h
    · cases h
      exact viable_index
    · cases h

theorem viable_extension {power : Nat} (h : extension? power kind = some plan)
    (hstops : stops ⊆ expressionEnds) : Viable plan stops := by
  unfold extension? at h
  split at h
  next hsuffix =>
      cases h
      exact viable_suffix hsuffix
  next =>
      split at h
      · split at h
        · cases h
        · cases h
          exact .wrap (.seq_all .take (.rule hstops) (defaults_expression _ hstops))
      · split at h
        · cases h
          exact viable_conditional hstops
        · cases h

/-! ### Statements -/

theorem defaults_statement : Defaults (rule .statement) stops [(.semicolon, ";")] := by
  have hempty : Defaults (statement .semicolon) stops [(.semicolon, ";")] :=
    .node (.take spelled_semicolon)
  have hbody : Defaults (body .statement) stops [(.semicolon, ";")] := .look hempty
  exact .rule hbody

theorem defaults_declarators (hstops : stops ⊆ listEnds) :
    Defaults (rule .declarators) stops [(.ident, "x")] := by
  have hdeclarator : Defaults declarator stops [(.ident, "x")] :=
    .node (.seq_nil defaults_name (.option (avoids _ hstops (by decide))))
  have hbody : Defaults (body .declarators) stops [(.ident, "x")] :=
    .orFault (.seq_nil hdeclarator (.option (avoids _ hstops (by decide))))
  exact .rule hbody

theorem defaults_names (hstops : stops ⊆ listEnds) :
    Defaults (rule .names) stops [(.ident, "x")] := by
  have hbody : Defaults (body .names) stops [(.ident, "x")] :=
    .orFault (.seq_nil defaults_name (.option (avoids _ hstops (by decide))))
  exact .rule hbody

theorem viable_terminator {terminated : Bool} (hstops : terminated → stops ⊆ statementEnds) :
    Viable (terminator terminated) stops ∧ Defaults (terminator terminated) stops [] := by
  cases terminated with
  | false => exact ⟨.done, .done⟩
  | true =>
      have hends := avoids (· == .semicolon) (hstops rfl) (by decide)
      exact ⟨.skip hends, .option hends⟩

theorem viable_varStatement {terminated : Bool} (hstops : stops ⊆ listEnds)
    (hends : terminated → stops ⊆ statementEnds) : Viable (varStatement terminated) stops :=
  .node (.seq_nil (.seq_all .take (.rule hstops) (defaults_declarators hstops))
    (viable_terminator hends).1 (viable_terminator hends).2)

theorem viable_expressionStatement {terminated : Bool} (hstops : stops ⊆ expressionEnds)
    (hassign : ∀ kind ∈ stops, kind.isAssignOp = false)
    (hends : terminated → stops ⊆ statementEnds) :
    Viable (expressionStatement terminated) stops := by
  obtain ⟨hend, hnone⟩ := viable_terminator hends
  have hassignment : Viable (assignment terminated) stops :=
    .wrap (.seq_nil (viable_expressionAfter hstops) hend hnone)
  have heffect : Viable (effectStatement terminated) stops := .wrap (.seq_all .effect hend hnone)
  have hvalue : Defaults (assignment terminated) stops [(.colonAssign, ":="), (.ident, "x")] :=
    .wrap (.seq_nil (.seq_take spelled_colonAssign (defaults_expression 0 hstops)) hnone)
  exact .seq (.rule (List.Subset.refl _))
    (.choice hassignment heffect (.inl (.inl (.inl trivial))) (.inr hassign))
    (.choice rfl hvalue) (fun _ _ => (by decide : TokenKind.colonAssign ∈ expressionEnds))
    (.inr hstops)

theorem defaults_forInit : Defaults forInit [.semicolon] [] := by
  refine .look_nil fun kind hkind _ => ?_
  obtain rfl := List.mem_singleton.mp hkind
  exact .stop (by decide)

theorem viable_forHead : Viable forHead stops := by
  have hinit : Viable forInit [.semicolon] :=
    .choice (viable_varStatement (by decide) (by decide))
      (.stop (viable_expressionStatement (by decide) (by decide) (by decide))
        (takes_expressionStatement false) (by decide))
      (.inl (.inl (.inl trivial))) (.inr (by decide))
  have hcondition : Viable (choice (· == .semicolon) done anyExpression) [.semicolon] :=
    .stop (.rule (by decide)) trivial (by decide)
  have hstep : Viable (choice (· == .rParen) done (expressionStatement false)) [.rParen] :=
    .stop (viable_expressionStatement (by decide) (by decide) (by decide))
      (takes_expressionStatement false) (by decide)
  exact .seq_expect spelled_rParen (.seq_nil (.seq_expect spelled_semicolon (.seq_nil
    (.seq_expect spelled_semicolon (.seq_all .take hinit defaults_forInit)) hcondition
    (.stop (by decide)))) hstep (.stop (by decide)))

/-- A loop without a start, a condition and a step. -/
theorem defaults_forHead : Defaults forHead stops
    [(.lParen, "("), (.semicolon, ";"), (.semicolon, ";"), (.rParen, ")")] := by
  have hinit : Defaults (take.seq forInit) [.semicolon] [(.lParen, "(")] :=
    .seq_nil (.take spelled_lParen) defaults_forInit
  have hcondition : Defaults (((take.seq forInit).seq (expect .semicolon .noSemicolon)).seq
      (choice (· == .semicolon) done anyExpression)) [.semicolon]
      [(.lParen, "("), (.semicolon, ";")] :=
    .seq_nil (.seq_cons hinit (.expect spelled_semicolon) List.mem_cons_self) (.stop (by decide))
  have hstep : Defaults (.seq (.seq _ (expect .semicolon .noSemicolon))
      (choice (· == .rParen) done (expressionStatement false))) [.rParen]
      [(.lParen, "("), (.semicolon, ";"), (.semicolon, ";")] :=
    .seq_nil (.seq_cons hcondition (.expect spelled_semicolon) List.mem_cons_self)
      (.stop (by decide))
  exact .seq_cons hstep (.expect spelled_rParen) List.mem_cons_self

/-- A statement behind what can end in front of a semicolon. -/
theorem viable_statementAfter (hfirst : Viable first [.semicolon])
    (hstops : stops ⊆ statementEnds) : Viable (first.seq (rule .statement)) stops :=
  .seq_cons hfirst (.rule hstops) defaults_statement trivial List.mem_cons_self

theorem viable_forStatement (hstops : stops ⊆ statementEnds) : Viable forStatement stops := by
  have htakes : forHead.Takes := .inl (.inl (.inl (.inl (.inl (.inl trivial)))))
  exact .node (viable_statementAfter
    (.seq_all .take (.orFault viable_forHead htakes) (.orFault defaults_forHead)) hstops)

/-- A condition and a word behind it that may be missing. -/
theorem viable_condition {kind : TokenKind} (hkind : (.semicolon == kind) = false) :
    Viable (expressionAfter.seq (skip kind)) [.semicolon] := by
  have hends : ∀ kind' ∈ [TokenKind.semicolon], (kind' == kind) = false := by simpa using hkind
  exact .seq_nil (viable_expressionAfter (by decide)) (.skip hends) (.option hends)

theorem viable_ifStatement (hstops : stops ⊆ statementEnds) : Viable ifStatement stops := by
  have helse : Viable elseBranch stops := .node (.seq_all .take (.rule hstops) defaults_statement)
  have hends := avoids (· == .kwElse) hstops (by decide)
  exact .node (.seq_nil (viable_statementAfter (viable_condition (by decide)) hstops)
    (.option helse (.inl trivial) hends) (.option hends))

theorem viable_doStatement (hstops : stops ⊆ statementEnds) : Viable doStatement stops := by
  have hends := avoids (· == .semicolon) hstops (by decide)
  have hexpression : stops ⊆ expressionEnds := List.Subset.trans hstops (by decide)
  have htakes : expressionAfter.Takes := .inl trivial
  have hbody : Viable (take.seq (rule .statement)) [.kwUntil] :=
    .seq_all .take (.rule (by decide)) defaults_statement
  have hcondition : Viable (orFault .kwUntil expressionAfter .noUntil) stops :=
    .orFault (viable_expressionAfter hexpression) htakes
  exact .node (.seq_nil (.seq_cons hbody hcondition
      (.orFault (.seq_take spelled_until (defaults_expression 0 hexpression)))
      (takes_orFault htakes _ _) List.mem_cons_self)
    (.skip hends) (.option hends))

theorem viable_enumDeclaration (hstops : stops ⊆ statementEnds) :
    Viable enumDeclaration stops := by
  have hends := avoids (· == .semicolon) hstops (by decide)
  have htakes : enumBody.Takes := .inl (.inl trivial)
  have hname : Viable (take.seq (orFault .ident name .noEnumName)) [.lBrace] :=
    .seq_all .take (.orFault viable_name trivial) (.orFault defaults_name)
  have hbody : Viable enumBody stops :=
    viable_enclosed spelled_rBrace List.mem_cons_self (defaults_list rfl rfl)
  have hempty : Defaults enumBody stops [(.lBrace, "\x7b"), (.rBrace, "\x7d")] :=
    defaults_enclosed spelled_lBrace spelled_rBrace (defaults_list rfl rfl)
  exact .node (.seq_nil (.seq_cons hname (.orFault hbody htakes) (.orFault hempty)
    (takes_orFault htakes _ _) List.mem_cons_self) (.skip hends) (.option hends))

theorem viable_switchStatement : Viable switchStatement stops := by
  have htakes : switchBody.Takes := .inl (.inl trivial)
  have hbody : Viable switchBody stops :=
    viable_enclosed spelled_rBrace List.mem_cons_self (defaults_list rfl rfl)
  have hempty : Defaults switchBody stops [(.lBrace, "\x7b"), (.rBrace, "\x7d")] :=
    defaults_enclosed spelled_lBrace spelled_rBrace (defaults_list rfl rfl)
  have hvalue : Viable expressionAfter [.lBrace] := viable_expressionAfter (by decide)
  exact .node (.seq_cons hvalue (.orFault hbody htakes) (.orFault hempty)
    (takes_orFault htakes _ _) List.mem_cons_self)

theorem viable_returnStatement (hstops : stops ⊆ statementEnds) :
    Viable returnStatement stops := by
  have hends := avoids (· == .semicolon) hstops (by decide)
  have hvalue := avoids TokenKind.startsExpr hstops (by decide)
  exact .node (.seq_nil (.seq_all .take
    (.option (.rule (List.Subset.trans hstops (by decide))) trivial hvalue) (.option hvalue))
    (.skip hends) (.option hends))

theorem viable_statement (kind : TokenKind) (hstops : stops ⊆ statementEnds) :
    Viable (statement kind) stops := by
  have hlist : stops ⊆ listEnds := List.Subset.trans hstops (by decide)
  have hsemicolon := avoids (· == .semicolon) hstops (by decide)
  have hheaded : Viable (expressionAfter.seq (rule .statement)) stops :=
    viable_statementAfter (viable_expressionAfter (by decide)) hstops
  have hjump : Viable (take.seq (skip .semicolon)) stops :=
    .seq_all .take (.skip hsemicolon) (.option hsemicolon)
  unfold statement
  split
  · exact .node .take
  · exact viable_block
  · exact .node .take
  · exact viable_varStatement hlist fun _ => hstops
  · exact .node (.seq_nil (.seq_all .take (.rule hlist) (defaults_names hlist)) (.skip hsemicolon)
      (.option hsemicolon))
  · exact viable_enumDeclaration hstops
  · exact .node viable_functionParts
  · exact viable_ifStatement hstops
  · exact .node (viable_statementAfter (viable_condition (by decide)) hstops)
  · exact viable_doStatement hstops
  · exact viable_forStatement hstops
  · exact .node hheaded
  · exact .node hheaded
  · exact viable_switchStatement
  iterate 3 exact .node hjump
  · exact viable_returnStatement hstops
  · exact .fault
  · split
    · exact viable_expressionStatement (List.Subset.trans hstops (by decide))
        (avoids _ hstops (by decide)) fun _ => hstops
    · exact .halts

theorem viable_clause (kind : TokenKind) : Viable (clause kind) [.rBrace] := by
  unfold clause
  split
  · exact .node (.seq_nil (.seq_expect spelled_colon (viable_expressionAfter (by decide)))
      (.rule (List.Subset.refl _)) (defaults_list rfl rfl))
  · exact .node (.seq_nil (.seq_expect spelled_colon .take) (.rule (List.Subset.refl _))
      (defaults_list rfl rfl))
  · exact .halts

theorem takes_clause (kind : TokenKind) : (clause kind).Takes := by
  unfold clause
  split
  · exact .inl (.inl (.inl trivial))
  · exact .inl (.inl trivial)
  · exact .inl trivial

/-! ### Rules -/

theorem viable_repeated {test : TokenKind → Bool} {called : Rule} (hfirst : Viable first stops)
    (htakes : first.Takes) (hstops : stops ⊆ called.stops)
    (htest : ∀ kind ∈ stops, test kind = true) (hdefaults : Defaults (rule called) stops []) :
    Viable (repeated test first called) stops :=
  .stop (.seq_nil hfirst (.rule hstops) hdefaults) (.inl htakes) htest

/-- An item, and behind it more of them if there is a comma. -/
theorem viable_commaList {called : Rule} (hfirst : Viable first stops)
    (hstops : stops ⊆ called.stops) (hcomma : ∀ kind ∈ stops, (kind == .comma) = false)
    (hdefaults : Defaults (rule called) stops word) :
    Viable (first.seq (moreAfterComma (rule called))) stops :=
  .seq_nil hfirst
    (.option (.seq_all .take (.rule hstops) hdefaults) (.inl trivial) hcomma) (.option hcomma)

theorem viable_items (close : TokenKind) :
    Viable (body (.items close)) (Rule.items close).stops := by
  have hends : (Rule.items close).stops ⊆ expressionEnds :=
    fun kind hkind => (List.mem_filter.mp hkind).1
  have hclose : ∀ kind ∈ (Rule.items close).stops, (kind == close || kind == .eof) = true := by
    intro kind hkind
    rw [(List.mem_filter.mp hkind).2, Bool.true_or]
  have hnone : Defaults (body (.items close)) (Rule.items close).stops [] := .stop hclose
  exact .stop (viable_commaList (.rule hends) (List.Subset.refl _) (avoids _ hends (by decide))
    (.rule hnone)) (.inl trivial) hclose

theorem viable_parameters : Viable (body .parameters) [.rParen] := by
  have hitem : Viable (parameter.seq (moreAfterComma (rule .parameters))) [.rParen] :=
    viable_commaList (viable_parameter (by decide)) (List.Subset.refl _) (by decide)
      (defaults_list rfl rfl)
  have htakes : (parameter.seq (moreAfterComma (rule .parameters))).Takes := .inl (.inl trivial)
  exact .stop (.orFault hitem htakes) (takes_orFault htakes _ _) (by decide)

theorem viable_declarators : Viable (body .declarators) listEnds := by
  have hvalue : Viable (option (fun kind => kind == .assign || kind == .colonAssign)
      expressionAfter) listEnds :=
    .option (viable_expressionAfter (by decide)) (.inl trivial) (by decide)
  have hitem : Viable declarator listEnds :=
    .node (.seq_all viable_name hvalue (.option (by decide)))
  exact .orFault (viable_commaList hitem (List.Subset.refl _) (by decide)
    (defaults_declarators (List.Subset.refl _))) (.inl (.inl trivial))

theorem viable_names : Viable (body .names) listEnds :=
  .orFault (viable_commaList viable_name (List.Subset.refl _) (by decide)
    (defaults_names (List.Subset.refl _))) (.inl trivial)

theorem viable_members : Viable (body .members) [.rBrace] := by
  have hnone : Defaults (rule .members) [.rBrace] [] := defaults_list rfl rfl
  have hitem : Viable (enumMember.seq (moreAfterComma (rule .members))) [.rBrace] :=
    viable_commaList (.node (viable_parameter (by decide))) (List.Subset.refl _) (by decide) hnone
  have htakes : (enumMember.seq (moreAfterComma (rule .members))).Takes := .inl (.inl trivial)
  have hother : ((failAndTake .noEnumMember).seq (rule .members)).Takes := .inl (.inl trivial)
  exact .stop (.choice hitem (.seq_nil .halts (.rule (List.Subset.refl _)) hnone) (.inl htakes)
    (.inl hother)) (takes_choice _ htakes hother) (by decide)

/-- Every rule can be finished in front of the tokens where it ends. -/
theorem viable_body (called : Rule) : Viable (body called) called.stops := by
  cases called with
  | file =>
      have hitem : Viable (choice (· == .rBrace) (failAndTake .strayCloseBrace) (rule .statement))
          [.eof] :=
        .choice .halts (.rule (by decide)) (.inl (.inl trivial)) (.inl trivial)
      exact viable_repeated hitem (takes_choice _ (.inl trivial) trivial) (List.Subset.refl _)
        (by decide) (defaults_list rfl rfl)
  | statement =>
      exact .look (fun kind _ => viable_statement kind (List.Subset.refl _))
        fun kind _ => .inl (takes_statement kind)
  | statements =>
      exact viable_repeated (.rule (by decide)) trivial (List.Subset.refl _) (by decide)
        (defaults_list rfl rfl)
  | clauseBody =>
      exact viable_repeated (.rule (by decide)) trivial (List.Subset.refl _) (by decide)
        (defaults_list rfl rfl)
  | clauses =>
      have hitem : Viable (look fun kind _ => clause kind) [.rBrace] :=
        .look (fun kind _ => viable_clause kind) fun kind _ => .inl (takes_clause kind)
      exact viable_repeated hitem (fun kind _ => takes_clause kind) (List.Subset.refl _)
        (by decide) (defaults_list rfl rfl)
  | expression power =>
      exact .seq_nil (viable_operand (List.Subset.refl _)) (.rule (List.Subset.refl _))
        (defaults_extension power (List.Subset.refl _))
  | extension power =>
      refine .look (fun kind _ => ?_) fun kind _ => ?_
      · cases hextension : extension? power kind with
        | some plan =>
            exact .seq_nil (viable_extension hextension (List.Subset.refl _))
              (.rule (List.Subset.refl _)) (defaults_extension power (List.Subset.refl _))
        | none => exact .done
      · cases hextension : extension? power kind with
        | some plan => exact .inl (.inl (takes_extension hextension))
        | none =>
            refine .inr fun kind' hkind' _ => ?_
            rw [extension_expressionEnds power kind' hkind']
  | items close => exact viable_items close
  | indices =>
      exact viable_repeated (viable_expressionAfter (by decide)) (.inl trivial)
        (List.Subset.refl _) (by decide) (defaults_list rfl rfl)
  | parameters => exact viable_parameters
  | declarators => exact viable_declarators
  | names => exact viable_names
  | members => exact viable_members

end Plan

end Gml
