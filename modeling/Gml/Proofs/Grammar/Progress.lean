import Gml.Proofs.Grammar.Realized

/-!
# The grammar makes progress

A statement takes a token except before `}` and at the end of the tokens, an expression except
before what closes something further out. So every rule that calls itself again, as the loops do,
does so with fewer tokens, and a rule calls another one with as many tokens only down a fixed order
of the rules. No chain of calls goes on for ever, and a file is read up to its end.
-/
namespace Gml

/-- Where a rule calls others before it has taken a token, they are of a lower rank. -/
def Rule.rank : Rule → Nat
  | .file | .statements | .clauseBody | .clauses => 3
  | .statement | .items _ => 2
  | .expression _ => 1
  | .extension _ | .indices | .parameters | .declarators | .names | .members => 0

namespace Plan

variable {plan other inner : Plan} {called : Rule} {c d : Cursor} {kind : NodeKind} {rank : Nat}
  {choose : TokenKind → String → Plan}

/-- On the way of a plan a rule is called at a place. -/
inductive Calls : Plan → Cursor → Rule → Cursor → Prop
  | first {first second : Plan} {c d : Cursor} {called : Rule} :
      Calls first c called d → Calls (first.seq second) c called d
  | second {first second : Plan} {c d e : Cursor} {called : Rule} {reports : List Report} :
      Runs first c d reports → Calls second d called e → Calls (first.seq second) c called e
  | look {choose : TokenKind → String → Plan} {c d : Cursor} {called : Rule} :
      Calls (choose c.kind c.text) c called d → Calls (look choose) c called d
  | node {kind : NodeKind} {body : Plan} {c d : Cursor} {called : Rule} :
      Calls body ⟨c.rest, []⟩ called d → Calls (node kind body) c called d
  | wrap {kind : NodeKind} {body : Plan} {c d : Cursor} {called : Rule} :
      Calls body ⟨c.rest, c.trees.take 1⟩ called d → Calls (wrap kind body) c called d
  | rule (called : Rule) (c : Cursor) : Calls (.rule called) c called c

theorem Calls.rest_suffix (h : Calls plan c called d) : d.rest <:+ c.rest := by
  induction h with
  | first _ ih => exact ih
  | second hrun _ ih => exact ih.trans hrun.rest_suffix
  | look _ ih => exact ih
  | node _ ih => exact ih
  | wrap _ ih => exact ih
  | rule called c => exact List.suffix_rfl

/-! ### Runs that take a token -/

/-- What a plan does first is to take a token. -/
def TakesFirst : Plan → Prop
  | .take => True
  | .seq first _ => first.TakesFirst
  | .node _ body | .wrap _ body => body.TakesFirst
  | _ => False

/-- Every run from a place leaves fewer tokens. -/
def Moves (plan : Plan) (c : Cursor) : Prop :=
  ∀ d reports, Runs plan c d reports → d.rest.length < c.rest.length

theorem Moves.front (h : plan.Moves c) : (plan.seq other).Moves c := by
  intro e reports hrun
  cases hrun with
  | seq hfirst hsecond => exact Nat.lt_of_le_of_lt hsecond.rest_suffix.length_le (h _ _ hfirst)

/-- What comes second takes a token if what comes first does not. -/
theorem Moves.behind (h : ∀ d, d.rest = c.rest → other.Moves d) : (plan.seq other).Moves c := by
  intro e reports hrun
  cases hrun with
  | seq hfirst hsecond =>
      rcases Nat.lt_or_eq_of_le hfirst.rest_suffix.length_le with hlt | heq
      · exact Nat.lt_of_le_of_lt hsecond.rest_suffix.length_le hlt
      · rw [← heq]
        exact h _ (hfirst.rest_suffix.eq_of_length heq) _ _ hsecond

theorem Moves.look (h : (choose c.kind c.text).Moves c) : (Plan.look choose).Moves c := by
  intro d reports hrun
  cases hrun with
  | look hrun => exact h d reports hrun

theorem moves_choice {test : TokenKind → Bool} (h : test c.kind = true → plan.Moves c)
    (k : test c.kind = false → other.Moves c) : (choice test plan other).Moves c := by
  refine .look ?_
  cases htest : test c.kind with
  | true => exact h htest
  | false => exact k htest

theorem Moves.node (h : inner.Moves ⟨c.rest, []⟩) : (Plan.node kind inner).Moves c := by
  intro d reports hrun
  cases hrun with
  | node hrun =>
      have hbody := h _ _ hrun
      exact hbody

theorem Moves.wrap (h : inner.Moves ⟨c.rest, c.trees.take 1⟩) : (Plan.wrap kind inner).Moves c := by
  intro d reports hrun
  cases hrun with
  | wrap hrun =>
      have hbody := h _ _ hrun
      exact hbody

theorem Moves.rule (h : (Plan.body called).Moves c) : (Plan.rule called).Moves c := by
  intro d reports hrun
  cases hrun with
  | rule hrun => exact h d reports hrun

theorem moves_take (c : Cursor) : take.Moves c := by
  intro d reports hrun
  cases hrun with
  | take token rest trees => exact Nat.lt_succ_self _

theorem TakesFirst.moves (h : plan.TakesFirst) (c : Cursor) : plan.Moves c := by
  induction plan generalizing c with
  | take => exact moves_take c
  | seq first second ihfirst _ => exact (ihfirst h c).front
  | node kind body ih => exact (ih h _).node
  | wrap kind body ih => exact (ih h _).wrap
  | _ => exact h.elim

/-! ### Calls with fewer tokens or of a lower rank -/

/-- Every call from a place is behind a token or of a rule below the rank. -/
def Falls (rank : Nat) (plan : Plan) (c : Cursor) : Prop :=
  ∀ called d, Calls plan c called d →
    d.rest.length < c.rest.length ∨ d.rest.length = c.rest.length ∧ called.rank < rank

theorem Falls.front (h : plan.Falls rank c) (hmoves : plan.Moves c) :
    (plan.seq other).Falls rank c := by
  intro called d hcalls
  cases hcalls with
  | first hcalls => exact h called d hcalls
  | second hrun hcalls =>
      exact .inl (Nat.lt_of_le_of_lt hcalls.rest_suffix.length_le (hmoves _ _ hrun))

theorem Falls.seq (h : plan.Falls rank c) (k : ∀ d, d.rest = c.rest → other.Falls rank d) :
    (plan.seq other).Falls rank c := by
  intro called d hcalls
  cases hcalls with
  | first hcalls => exact h called d hcalls
  | second hrun hcalls =>
      rcases Nat.lt_or_eq_of_le hrun.rest_suffix.length_le with hlt | heq
      · exact .inl (Nat.lt_of_le_of_lt hcalls.rest_suffix.length_le hlt)
      · rw [← heq]
        exact k _ (hrun.rest_suffix.eq_of_length heq) called d hcalls

theorem Falls.look (h : (choose c.kind c.text).Falls rank c) : (Plan.look choose).Falls rank c := by
  intro called d hcalls
  cases hcalls with
  | look hcalls => exact h called d hcalls

theorem falls_choice {test : TokenKind → Bool} (h : test c.kind = true → plan.Falls rank c)
    (k : test c.kind = false → other.Falls rank c) : (choice test plan other).Falls rank c := by
  refine .look ?_
  cases htest : test c.kind with
  | true => exact h htest
  | false => exact k htest

theorem Falls.node (h : inner.Falls rank ⟨c.rest, []⟩) : (Plan.node kind inner).Falls rank c := by
  intro called d hcalls
  cases hcalls with
  | node hcalls => exact h called d hcalls

theorem Falls.wrap (h : inner.Falls rank ⟨c.rest, c.trees.take 1⟩) :
    (Plan.wrap kind inner).Falls rank c := by
  intro called d hcalls
  cases hcalls with
  | wrap hcalls => exact h called d hcalls

theorem falls_rule (h : called.rank < rank) (c : Cursor) : (rule called).Falls rank c := by
  intro other d hcalls
  cases hcalls with
  | rule => exact .inr ⟨rfl, h⟩

theorem falls_done (rank : Nat) (c : Cursor) : done.Falls rank c := by
  intro called d hcalls
  cases hcalls

theorem falls_take (rank : Nat) (c : Cursor) : take.Falls rank c := by
  intro called d hcalls
  cases hcalls

theorem falls_fault (rank : Nat) (missing : Fault) (c : Cursor) :
    (fault missing).Falls rank c := by
  intro called d hcalls
  cases hcalls

theorem falls_effect (rank : Nat) (c : Cursor) : effect.Falls rank c := by
  intro called d hcalls
  cases hcalls

theorem TakesFirst.falls (h : plan.TakesFirst) (rank : Nat) (c : Cursor) : plan.Falls rank c := by
  induction plan generalizing c with
  | take => exact falls_take rank c
  | seq first second ihfirst _ =>
      have hfirst : first.TakesFirst := h
      exact (ihfirst h c).front (hfirst.moves c)
  | node kind body ih => exact (ih h _).node
  | wrap kind body ih => exact (ih h _).wrap
  | _ => exact h.elim

theorem falls_failAndTake (rank : Nat) (missing : Fault) (c : Cursor) :
    (failAndTake missing).Falls rank c := by
  refine (falls_fault rank missing c).seq fun d _ => falls_choice (fun _ => falls_done rank d) ?_
  exact fun _ => (falls_take rank _).node

/-! ### The rules -/

theorem moves_failAndTake (missing : Fault) (hend : c.kind ≠ .eof) :
    (failAndTake missing).Moves c := by
  refine .behind fun d hrest => moves_choice (fun hstops => ?_) fun _ => (moves_take _).node
  rw [Cursor.kind_eq (congrArg List.head? hrest), beq_iff_eq] at hstops
  exact absurd hstops hend

theorem primary_cases (kind : TokenKind) :
    (primary kind).TakesFirst ∨ primary kind = noExpression := by
  unfold primary
  split
  all_goals first
    | exact .inl trivial
    | exact .inr rfl

/-- An expression takes a token unless the next one closes something further out. -/
theorem moves_expression (power : Nat) (hcloser : Grammar.isCloser c.kind = false) :
    (rule (.expression power)).Moves c := by
  refine .rule (.front (.look ?_))
  split
  next power _ =>
      have hsign : TakesFirst (.node .unaryExpr (take.seq (rule (.expression power)))) := trivial
      exact hsign.moves c
  · rcases primary_cases c.kind with htakes | hnone
    · exact htakes.moves c
    · rw [hnone]
      refine .node (.behind fun d hrest => moves_choice (fun hstops => ?_) fun _ => moves_take d)
      rw [Cursor.kind_eq (congrArg List.head? hrest)] at hstops
      exact absurd hstops (Bool.eq_false_iff.mp hcloser)

theorem statement_cases (kind : TokenKind) :
    (statement kind).TakesFirst ∨ kind = .rBrace ∨
      kind.startsExpr = true ∧ statement kind = expressionStatement true ∨
      statement kind = failAndTake .noStatement := by
  unfold statement
  split
  all_goals first
    | exact .inl trivial
    | exact .inr (.inl rfl)
    | skip
  split
  next h => exact .inr (.inr (.inl ⟨h, rfl⟩))
  next => exact .inr (.inr (.inr rfl))

/-- A statement takes a token except before a closing brace and at the end. -/
theorem moves_statement (hbrace : c.kind ≠ .rBrace) (hend : c.kind ≠ .eof) :
    (rule .statement).Moves c := by
  refine .rule (.look ?_)
  rcases statement_cases c.kind with htakes | hkind | ⟨hstarts, hplan⟩ | hplan
  · exact htakes.moves c
  · exact absurd hkind hbrace
  · rw [hplan]
    exact (moves_expression _ (Grammar.isCloser_of_startsExpr hstarts)).front
  · rw [hplan]
    exact moves_failAndTake _ hend

/-- What a file is made of: a statement, or a closing brace that closes nothing. -/
def topLevelStatement : Plan :=
  choice (· == .rBrace) (failAndTake .strayCloseBrace) (rule .statement)

theorem moves_topLevelStatement (hend : c.kind ≠ .eof) : topLevelStatement.Moves c :=
  moves_choice (fun _ => moves_failAndTake .strayCloseBrace hend) fun hbrace =>
    moves_statement (beq_eq_false_iff_ne.mp hbrace) hend

/-! ### Calls between rules -/

theorem falls_repeated {stops : TokenKind → Bool} {more : Rule} (hplan : plan.Falls rank c)
    (hmoves : stops c.kind = false → plan.Moves c) : (repeated stops plan more).Falls rank c :=
  falls_choice (fun _ => falls_done rank c) fun hstops => hplan.front (hmoves hstops)

theorem ne_brace_and_ne_eof {kind : TokenKind} (h : (kind == .rBrace || kind == .eof) = false) :
    kind ≠ .rBrace ∧ kind ≠ .eof := by
  rwa [Bool.or_eq_false_iff, beq_eq_false_iff_ne, beq_eq_false_iff_ne] at h

theorem clause_cases (kind : TokenKind) :
    (clause kind).TakesFirst ∨ clause kind = (fault .noClause).seq (rule .statement) := by
  unfold clause
  split
  all_goals first
    | exact .inl trivial
    | exact .inr rfl

theorem extension_takesFirst {power : Nat} {kind : TokenKind}
    (h : extension? power kind = some plan) : plan.TakesFirst := by
  unfold extension? suffix? at h
  split at h
  next hsuffix =>
      cases h
      split at hsuffix
      iterate 4
        cases hsuffix
        trivial
      split at hsuffix
      · cases hsuffix
        trivial
      · cases hsuffix
  next =>
      split at h
      · split at h
        · cases h
        · cases h
          trivial
      · split at h
        · cases h
          trivial
        · cases h

theorem falls_statement (c : Cursor) : (body .statement).Falls 2 c := by
  refine .look ?_
  rcases statement_cases c.kind with htakes | hkind | ⟨-, hplan⟩ | hplan
  · exact htakes.falls 2 c
  · rw [hkind]
    exact falls_fault 2 .noStatement c
  · rw [hplan]
    refine (falls_rule (by decide) c).seq fun d _ => falls_choice (fun _ => ?_) fun _ => ?_
    · have hassign : (assignment true).TakesFirst := trivial
      exact hassign.falls 2 d
    · refine .wrap ((falls_effect 2 _).seq fun e _ => ?_)
      exact falls_choice (fun _ => falls_take 2 e) fun _ => falls_done 2 e
  · rw [hplan]
    exact falls_failAndTake 2 .noStatement c

theorem falls_clause (c : Cursor) : (look fun kind _ => clause kind).Falls 3 c := by
  refine .look ?_
  rcases clause_cases c.kind with htakes | hplan
  · exact htakes.falls 3 c
  · rw [hplan]
    exact (falls_fault 3 .noClause c).seq fun d _ => falls_rule (by decide) d

theorem moves_clause (hbrace : c.kind ≠ .rBrace) (hend : c.kind ≠ .eof) :
    (look fun kind _ => clause kind).Moves c := by
  refine .look ?_
  rcases clause_cases c.kind with htakes | hplan
  · exact htakes.moves c
  · rw [hplan]
    refine .behind fun d hrest => ?_
    have hkind : d.kind = c.kind := Cursor.kind_eq (congrArg List.head? hrest)
    exact moves_statement (hkind ▸ hbrace) (hkind ▸ hend)

theorem falls_expression (power : Nat) (c : Cursor) : (body (.expression power)).Falls 1 c := by
  refine Falls.seq (.look ?_) fun d _ => falls_rule Nat.zero_lt_one d
  split
  next power _ =>
      have hsign : TakesFirst (.node .unaryExpr (take.seq (rule (.expression power)))) := trivial
      exact hsign.falls 1 c
  · rcases primary_cases c.kind with htakes | hnone
    · exact htakes.falls 1 c
    · rw [hnone]
      refine .node ((falls_fault 1 .noExpression _).seq fun d _ => ?_)
      exact falls_choice (fun _ => falls_done 1 d) fun _ => falls_take 1 d

theorem falls_orFault {kind : TokenKind} (missing : Fault) (h : plan.TakesFirst) :
    (orFault kind plan missing).Falls rank c :=
  falls_choice (fun _ => h.falls rank c) fun _ => falls_fault rank missing c

theorem falls_moreAfterComma (more : Plan) : (moreAfterComma more).Falls rank c := by
  have htakes : (take.seq more).TakesFirst := trivial
  exact falls_choice (fun _ => htakes.falls rank c) fun _ => falls_done rank c

/-- A rule calls others behind a token or, with as many tokens, those of a lower rank. -/
theorem falls_body (called : Rule) (c : Cursor) : (body called).Falls called.rank c := by
  -- What a loop repeats is of a lower rank, and the loop itself comes behind what that has taken.
  cases called with
  | file =>
      refine falls_repeated ?_ fun hstops => ?_
      · exact falls_choice (fun _ => falls_failAndTake 3 .strayCloseBrace c) fun _ =>
          falls_rule (by decide) c
      · exact moves_topLevelStatement (by simpa using hstops)
  | statement => exact falls_statement c
  | statements =>
      refine falls_repeated (falls_rule (by decide) c) fun hstops => ?_
      obtain ⟨hbrace, hend⟩ := ne_brace_and_ne_eof hstops
      exact moves_statement hbrace hend
  | clauseBody =>
      refine falls_repeated (falls_rule (by decide) c) fun hstops => moves_statement ?_ ?_
      · intro hkind
        rw [hkind] at hstops
        cases hstops
      · intro hkind
        rw [hkind] at hstops
        cases hstops
  | clauses =>
      refine falls_repeated (falls_clause c) fun hstops => ?_
      obtain ⟨hbrace, hend⟩ := ne_brace_and_ne_eof hstops
      exact moves_clause hbrace hend
  | expression power => exact falls_expression power c
  | extension power =>
      refine .look ?_
      split
      next hplan =>
          have htakes := extension_takesFirst hplan
          exact (htakes.falls _ c).front (htakes.moves c)
      next => exact falls_done _ c
  | items close =>
      refine falls_choice (fun _ => falls_done _ c) fun _ => ?_
      exact (falls_rule Nat.one_lt_two c).seq fun d _ => falls_moreAfterComma _
  | indices =>
      have htakes : expressionAfter.TakesFirst := trivial
      exact falls_repeated (htakes.falls _ c) fun _ => htakes.moves c
  | parameters =>
      have htakes : (parameter.seq (moreAfterComma (rule .parameters))).TakesFirst := trivial
      exact falls_choice (fun _ => falls_done _ c) fun _ => falls_orFault .noParameterName htakes
  | declarators =>
      have htakes : (declarator.seq (moreAfterComma (rule .declarators))).TakesFirst := trivial
      exact falls_orFault .noVariableName htakes
  | names =>
      have htakes : (name.seq (moreAfterComma (rule .names))).TakesFirst := trivial
      exact falls_orFault .noVariableName htakes
  | members =>
      have htakes : (enumMember.seq (moreAfterComma (rule .members))).TakesFirst := trivial
      refine falls_choice (fun _ => falls_done _ c) fun hstops => ?_
      refine falls_choice (fun _ => htakes.falls _ c) fun _ => ?_
      exact (falls_failAndTake _ .noEnumMember c).front
        (moves_failAndTake .noEnumMember (ne_brace_and_ne_eof hstops).2)

/-- A rule at a place, called from another one. -/
def CalledFrom (callee caller : Rule × Cursor) : Prop :=
  Calls (body caller.1) caller.2 callee.1 callee.2

/-- A rule that calls itself again does so with fewer tokens. -/
theorem Calls.length_lt (h : Calls (body called) c called d) : d.rest.length < c.rest.length := by
  rcases falls_body called c called d h with hlt | ⟨-, hrank⟩
  · exact hlt
  · exact absurd hrank (Nat.lt_irrefl _)

/-- No chain of calls goes on for ever. -/
theorem calledFrom_wellFounded : WellFounded CalledFrom := by
  have hfalls : Subrelation CalledFrom (InvImage (Prod.Lex (· < ·) (· < ·))
      fun call : Rule × Cursor => (call.2.rest.length, call.1.rank)) := by
    intro callee caller hcalled
    rw [InvImage, Prod.lex_def]
    exact falls_body caller.1 caller.2 callee.1 callee.2 hcalled
  exact hfalls.wf (InvImage.wf _ (WellFounded.prod_lex wellFounded_lt wellFounded_lt))

end Plan

/-! ### The parser -/

namespace Parser

/-- From `p` to `q` the plan was run to its end. The tokens that were taken stand in front of
those that are left, they mean something, and there is one if one is needed. -/
structure Progresses (p : Parser) (plan : Plan) (needed : Prop) (q : Parser) : Prop where
  follows : p.Follows plan q
  taken : ∃ taken, p.rest = taken ++ q.rest ∧ (∀ token ∈ taken, token.kind.isTrivia = false) ∧
    (needed → taken ≠ [])

theorem Follows.progresses {p q : Parser} {plan : Plan} {needed : Prop} (h : p.Follows plan q)
    (hrest : ∀ token ∈ p.rest, token.kind.isTrivia = false)
    (hmoves : needed → plan.Moves (p.cursor [])) : p.Progresses plan needed q := by
  obtain ⟨trees, reports, hreads, -, hruns⟩ := h.follows
  refine ⟨h, Tree.leavesAll trees, hreads.taken, fun token htoken => hrest token ?_, ?_⟩
  · rw [hreads.taken]
    exact List.mem_append_left _ htoken
  · intro hneeded hempty
    have hlt : q.rest.length < p.rest.length := hmoves hneeded _ _ (hruns [])
    rw [hreads.taken, hempty] at hlt
    exact Nat.lt_irrefl _ hlt

end Parser

theorem Grammar.isCloser_eq_false_of_notMem {kind : TokenKind}
    (h : kind ∉ [.rParen, .rBracket, .rBrace, .semicolon, .eof]) : isCloser kind = false := by
  cases kind <;> first | rfl | exact absurd (by decide) h

/-- Wherever the parser stands, a statement takes a token except before `}` and at the end, what a
file is made of takes one except at the end, and an expression takes one except before what
closes something further out and at the end. No token comes back, every rule that calls itself
again does so with fewer tokens, and no chain of calls goes on for ever. So every text is read up
to its end. -/
theorem grammar_makes_progress :
    (∀ (tokens : List Token) (p : Parser) (depth : Nat),
      p.rest <:+ Tree.meaningful tokens → p.rest.length < depth →
      p.Progresses (.rule .statement) (p.current ∉ [.rBrace, .eof])
        ((Grammar.ofDepth depth).statement p) ∧
      p.Progresses .topLevelStatement (p.current ≠ .eof)
        ((Grammar.ofDepth depth).topLevelStatement p) ∧
      ∀ power, p.Progresses (.rule (.expression power))
        (p.current ∉ [.rParen, .rBracket, .rBrace, .semicolon, .eof])
        ((Grammar.ofDepth depth).expression power p)) ∧
    (∀ called c d, Plan.Calls (Plan.body called) c called d → d.rest.length < c.rest.length) ∧
    WellFounded Plan.CalledFrom ∧
    ∀ text, ∃ q, (Parser.opened (lex text) text.utf8ByteSize).Follows (.rule .file) q ∧
      (Parser.ofTokens (lex text) text.utf8ByteSize).sourceFile = q.emit .finish ∧ q.rest = [] := by
  refine ⟨fun tokens p depth hp hdepth => ?_, fun _ _ _ => Plan.Calls.length_lt,
    Plan.calledFrom_wellFounded, fun text => ?_⟩
  · have hrest : ∀ token ∈ p.rest, token.kind.isTrivia = false := fun token htoken => by
      simpa using (List.mem_filter.mp (hp.subset htoken)).2
    have hg := Grammar.ofDepth_realized depth
    refine ⟨(hg.statement p hdepth).progresses hrest fun hkind => ?_,
      Parser.Follows.progresses ?_ hrest fun hend => Plan.moves_topLevelStatement hend,
      fun power => (hg.expression power p hdepth).progresses hrest fun hkind => ?_⟩
    · rw [List.mem_pair, not_or] at hkind
      exact Plan.moves_statement hkind.1 hkind.2
    · exact Parser.follows_choice
        (fun _ => Parser.realizes_failAndTake depth .strayCloseBrace p hdepth)
        fun _ => hg.statement p hdepth
    · exact Plan.moves_expression power (Grammar.isCloser_eq_false_of_notMem hkind)
  · exact ⟨_, Grammar.follows_file _, Parser.sourceFile_eq _ _,
      Parser.rest_read _ _ (lex_ne_eof text)⟩

def garbage : String := ") ] \x7d : , ? @@ else until case"

theorem garbage_makes_progress :
    (Parser.ofTokens (lex garbage) 30).rest.length < 12 ∧
    (Parser.ofTokens (lex garbage) 30).current ∉ [.rBrace, .eof] ∧
    ∃ taken, taken ≠ [] ∧ (Parser.ofTokens (lex garbage) 30).rest =
      taken ++ ((Grammar.ofDepth 12).statement (Parser.ofTokens (lex garbage) 30)).rest := by
  have hdepth : (Parser.ofTokens (lex garbage) 30).rest.length < 12 := by decide +kernel
  have hkind : (Parser.ofTokens (lex garbage) 30).current ∉ [.rBrace, .eof] := by decide +kernel
  obtain ⟨hstatement, -⟩ := grammar_makes_progress.1 (lex garbage) _ 12 List.suffix_rfl hdepth
  obtain ⟨taken, hrest, -, hneeded⟩ := hstatement.taken
  exact ⟨hdepth, hkind, taken, hneeded hkind, hrest⟩

end Gml
