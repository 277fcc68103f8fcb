import Gml.Proofs.Grammar.Runs
import Gml.Proofs.Token.Spelled

/-!
# Words that make a part whole

Some plans take a token in every run without a fault, and the others can end without one in front of
some tokens. A plan of which nothing was read yet is made whole by a short word, whatever the trees
are that were read before it, as long as what stands behind the word lets it end.
-/
namespace Gml

theorem TokenKind.mem_all (kind : TokenKind) : kind ∈ all :=
  List.mem_of_getElem? (all_getElem_raw kind)

/-- The rules of which every run without a fault takes a token. -/
def Rule.Takes : Rule → Prop
  | .expression _ | .statement | .declarators | .names => True
  | _ => False

namespace Plan

variable {plan other first second : Plan} {c d : Cursor} {faults : List Report}
  {kind : TokenKind} {text : String} {stops middle : List TokenKind}
  {word more : List (TokenKind × String)}

/-! ### Plans that take a token -/

/-- Every run without a fault takes a token. -/
def Takes : Plan → Prop
  | .done | .effect => False
  | .take | .fault _ => True
  | .seq first second => first.Takes ∨ second.Takes
  | .look choose => ∀ kind text, (choose kind text).Takes
  | .node _ body | .wrap _ body => body.Takes
  | .rule called => called.Takes

theorem takes_choice (test : TokenKind → Bool) (h : plan.Takes) (k : other.Takes) :
    (choice test plan other).Takes := by
  intro kind text
  dsimp only
  split
  · exact h
  · exact k

theorem takes_orFault (h : plan.Takes) (kind : TokenKind) (missing : Fault) :
    (orFault kind plan missing).Takes :=
  takes_choice _ h trivial

theorem takes_expect (kind : TokenKind) (missing : Fault) : (expect kind missing).Takes := by
  have htake : take.Takes := trivial
  exact takes_orFault htake kind missing

theorem takes_block : block.Takes := .inl (.inl trivial)

theorem takes_function (kind : NodeKind) : (function kind).Takes :=
  .inl (.inl (.inl (.inl trivial)))

theorem takes_primary (kind : TokenKind) : (primary kind).Takes := by
  unfold primary
  split
  iterate 11 trivial
  · exact takes_function _
  · exact .inl (.inl trivial)
  · exact .inl (.inl trivial)
  · exact .inl trivial

theorem takes_operand : operand.Takes := by
  intro kind text
  dsimp only
  split
  · exact .inl trivial
  · exact takes_primary kind

theorem takes_extension {power : Nat} (h : extension? power kind = some plan) : plan.Takes := by
  unfold extension? suffix? at h
  split at h
  next hsuffix =>
      cases h
      split at hsuffix
      · cases hsuffix
        exact .inl trivial
      · cases hsuffix
        exact .inl (.inl trivial)
      · cases hsuffix
        trivial
      · cases hsuffix
        trivial
      · split at hsuffix
        · cases hsuffix
          exact .inl (.inl (.inl trivial))
        · cases hsuffix
  next =>
      split at h
      · split at h
        · cases h
        · cases h
          exact .inl trivial
      · split at h
        · cases h
          exact .inl (.inl (.inl trivial))
        · cases h

theorem takes_expressionStatement (terminated : Bool) : (expressionStatement terminated).Takes :=
  .inl trivial

theorem takes_statement (kind : TokenKind) : (statement kind).Takes := by
  unfold statement
  split
  all_goals first
    | exact takes_function _
    | simp only [Takes, block, varStatement, globalVarStatement, enumDeclaration, ifStatement,
        whileStatement, doStatement, forStatement, headedStatement, switchStatement, jumpStatement,
        returnStatement, expressionAfter, true_or]
    | (split
       · exact takes_expressionStatement true
       · exact .inl trivial)

theorem takes_body {called : Rule} (h : called.Takes) : (body called).Takes := by
  cases called with
  | expression power => exact .inl takes_operand
  | statement => exact fun kind _ => takes_statement kind
  | declarators =>
      have hitem : (declarator.seq (moreAfterComma (rule .declarators))).Takes :=
        .inl (.inl trivial)
      exact takes_orFault hitem _ _
  | names =>
      have hitem : (name.seq (moreAfterComma (rule .names))).Takes := .inl trivial
      exact takes_orFault hitem _ _
  | _ => exact h.elim

theorem Runs.takes (h : Runs plan c d faults) (hclean : faults = []) (hplan : plan.Takes) :
    d.rest.length < c.rest.length := by
  induction h with
  | done => exact hplan.elim
  | take token rest trees => exact Nat.lt_succ_self _
  | fault => cases hclean
  | effect => exact hplan.elim
  | noEffect => cases hclean
  | seq hfirst hsecond ihfirst ihsecond =>
      obtain ⟨rfl, rfl⟩ := List.append_eq_nil_iff.mp hclean
      rcases hplan with hplan | hplan
      · exact Nat.lt_of_le_of_lt hsecond.rest_suffix.length_le (ihfirst rfl hplan)
      · exact Nat.lt_of_lt_of_le (ihsecond rfl hplan) hfirst.rest_suffix.length_le
  | look _ ih => exact ih hclean (hplan _ _)
  | node _ ih => exact ih hclean hplan
  | wrap _ ih => exact ih hclean hplan
  | rule _ ih => exact ih hclean (takes_body hplan)

/-! ### Words for what was not begun -/

/-- The kind of the next token. -/
def nextKind (tokens : List Token) : TokenKind := (Cursor.mk tokens []).kind

theorem kind_mk (rest : List Token) (trees : List Tree) :
    (Cursor.mk rest trees).kind = nextKind rest := rfl

theorem nextKind_cons (token : Token) (rest : List Token) :
    nextKind (token :: rest) = token.kind := rfl

/-- The kind of the first token where a word stands in front of a token of the kind. -/
def headKind (word : List (TokenKind × String)) (kind : TokenKind) : TokenKind :=
  word.head?.elim kind Prod.fst

theorem nextKind_append {tokens : List Token} (h : tokens.map Token.content = word)
    (follow : List Token) : nextKind (tokens ++ follow) = headKind word (nextKind follow) := by
  subst h
  cases tokens with
  | nil => rfl
  | cons token tokens => rfl

/-- The plan takes the tokens without a fault if what stands behind them lets it end. -/
def Covers (plan : Plan) (stops : List TokenKind) (trees : List Tree) (tokens : List Token) :
    Prop :=
  ∀ follow, nextKind follow ∈ stops →
    ∃ trees', Runs plan ⟨tokens ++ follow, trees⟩ ⟨follow, trees'⟩ []

/-- The word alone makes the plan whole. -/
structure Defaults (plan : Plan) (stops : List TokenKind) (word : List (TokenKind × String)) :
    Prop where
  spelled : ∀ content ∈ word, Token.Spelled content
  covers : ∀ tokens, tokens.map Token.content = word → ∀ trees, plan.Covers stops trees tokens

namespace Defaults

theorem done : Defaults .done stops [] where
  spelled := by simp
  covers := by
    intro tokens htokens trees follow _
    rw [List.map_eq_nil_iff.mp htokens]
    exact ⟨trees, .done _⟩

theorem take (h : Token.Spelled (kind, text)) : Defaults .take stops [(kind, text)] where
  spelled := by simpa using h
  covers := by
    intro tokens htokens trees follow _
    obtain ⟨token, rfl, -⟩ := List.map_eq_singleton_iff.mp htokens
    exact ⟨_, .take token follow trees⟩

theorem seq (hfirst : Defaults first middle word) (hsecond : Defaults second stops more)
    (hmiddle : ∀ kind ∈ stops, headKind more kind ∈ middle) :
    Defaults (first.seq second) stops (word ++ more) where
  spelled := by
    intro content hcontent
    rcases List.mem_append.mp hcontent with h | h
    · exact hfirst.spelled content h
    · exact hsecond.spelled content h
  covers := by
    intro tokens htokens trees follow hfollow
    obtain ⟨before, after, rfl, hbefore, hafter⟩ := List.map_eq_append_iff.mp htokens
    have hnext : nextKind (after ++ follow) ∈ middle := by
      rw [nextKind_append hafter]
      exact hmiddle _ hfollow
    obtain ⟨trees', hruns⟩ := hfirst.covers before hbefore trees (after ++ follow) hnext
    obtain ⟨trees'', hruns'⟩ := hsecond.covers after hafter trees' follow hfollow
    rw [List.append_assoc]
    exact ⟨trees'', .seq hruns hruns'⟩

/-- A token and then the word of the part behind. -/
theorem seq_take (h : Token.Spelled (kind, text)) (hsecond : Defaults second stops word) :
    Defaults (Plan.take.seq second) stops ((kind, text) :: word) := by
  have htake : Defaults .take TokenKind.all [(kind, text)] := take h
  exact htake.seq hsecond fun _ _ => TokenKind.mem_all _

/-- The part behind is not there. -/
theorem seq_nil (hfirst : Defaults first stops word) (hsecond : Defaults second stops []) :
    Defaults (first.seq second) stops word := by
  rw [← List.append_nil word]
  exact hfirst.seq hsecond fun _ h => h

/-- What stands before the part behind ends in front of its first token. -/
theorem seq_cons (hfirst : Defaults first middle word)
    (hsecond : Defaults second stops ((kind, text) :: more)) (hmiddle : kind ∈ middle) :
    Defaults (first.seq second) stops (word ++ (kind, text) :: more) :=
  hfirst.seq hsecond fun _ _ => hmiddle

/-- A plan that looks at the first token of the word. -/
theorem look {choose : TokenKind → String → Plan}
    (h : Defaults (choose kind text) stops ((kind, text) :: word)) :
    Defaults (.look choose) stops ((kind, text) :: word) where
  spelled := h.spelled
  covers := by
    intro tokens htokens trees follow hfollow
    obtain ⟨trees', hruns⟩ := h.covers tokens htokens trees follow hfollow
    obtain ⟨token, rest, rfl, hcontent, -⟩ := List.map_eq_cons_iff.mp htokens
    obtain ⟨rfl, rfl⟩ := Prod.mk.inj hcontent
    exact ⟨trees', .look hruns⟩

/-- A plan that looks at what stands behind it. -/
theorem look_nil {choose : TokenKind → String → Plan}
    (h : ∀ kind ∈ stops, ∀ text, Defaults (choose kind text) stops []) :
    Defaults (.look choose) stops [] where
  spelled := by simp
  covers := by
    intro tokens htokens trees follow hfollow
    obtain rfl := List.map_eq_nil_iff.mp htokens
    obtain ⟨trees', hruns⟩ := (h _ hfollow (Cursor.mk follow []).text).covers [] rfl trees follow
      hfollow
    exact ⟨trees', .look hruns⟩

theorem node {nodeKind : NodeKind} (h : Defaults plan stops word) :
    Defaults (.node nodeKind plan) stops word where
  spelled := h.spelled
  covers := by
    intro tokens htokens trees follow hfollow
    obtain ⟨inner, hruns⟩ := h.covers tokens htokens [] follow hfollow
    exact ⟨_, .node hruns⟩

theorem wrap {nodeKind : NodeKind} (h : Defaults plan stops word) :
    Defaults (.wrap nodeKind plan) stops word where
  spelled := h.spelled
  covers := by
    intro tokens htokens trees follow hfollow
    obtain ⟨inner, hruns⟩ := h.covers tokens htokens (trees.take 1) follow hfollow
    exact ⟨_, .wrap hruns⟩

theorem rule {called : Rule} (h : Defaults (body called) stops word) :
    Defaults (.rule called) stops word where
  spelled := h.spelled
  covers := by
    intro tokens htokens trees follow hfollow
    obtain ⟨trees', hruns⟩ := h.covers tokens htokens trees follow hfollow
    exact ⟨trees', .rule hruns⟩

/-! ### Parts of plans -/

theorem choice {test : TokenKind → Bool} (hkind : test kind = true)
    (h : Defaults plan stops ((kind, text) :: word)) :
    Defaults (.choice test plan other) stops ((kind, text) :: word) := by
  refine look ?_
  rw [if_pos hkind]
  exact h

/-- Nothing is chosen in front of what may stand behind the plan. -/
theorem option {test : TokenKind → Bool} (h : ∀ kind ∈ stops, test kind = false) :
    Defaults (.option test plan) stops [] := by
  refine look_nil fun kind hkind _ => ?_
  rw [h kind hkind]
  exact done

theorem stop {test : TokenKind → Bool} (h : ∀ kind ∈ stops, test kind = true) :
    Defaults (.choice test .done plan) stops [] := by
  refine look_nil fun kind hkind _ => ?_
  rw [if_pos (h kind hkind)]
  exact done

theorem orFault {missing : Fault} (h : Defaults plan stops ((kind, text) :: word)) :
    Defaults (.orFault kind plan missing) stops ((kind, text) :: word) :=
  choice (beq_self_eq_true kind) h

theorem expect {missing : Fault} (h : Token.Spelled (kind, text)) :
    Defaults (.expect kind missing) stops [(kind, text)] :=
  orFault (take h)

end Defaults

end Plan

end Gml
