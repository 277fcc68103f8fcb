import Gml.Proofs.Grammar.Realized
import Gml.Proofs.Grammar.Viable

/-!
# The first error is where the input goes wrong

What was read up to the first fault can be completed to something without a fault: each part that
was not finished there takes its word, from the innermost one outwards. And no token behind the
place of the first fault makes a difference to it.
-/
namespace Gml

namespace Plan

variable {plan : Plan} {c d : Cursor} {stops : List TokenKind} {taken follow rest : List Token}

/-- A run without a fault can also end in front of another token of those where its plan ends. -/
theorem Runs.restops (h : Runs plan c d []) (hplan : Viable plan stops)
    (hc : c.rest = taken ++ d.rest) (hfollow : nextKind follow ∈ stops) :
    Runs plan ⟨taken ++ follow, c.trees⟩ ⟨follow, d.trees⟩ [] := by
  generalize hclean : ([] : List Report) = reports at h
  induction h generalizing stops taken with
  | done c =>
      obtain rfl : taken = [] := by simpa using hc
      exact .done _
  | take token rest trees =>
      obtain rfl : taken = [token] :=
        (List.append_cancel_right (show [token] ++ rest = taken ++ rest from hc)).symm
      exact .take _ _ _
  | fault => cases hclean
  | effect heffect =>
      obtain rfl : taken = [] := by simpa using hc
      exact .effect heffect
  | noEffect => cases hclean
  | @seq first second c d e _ _ hfirst hsecond ihfirst ihsecond =>
      obtain ⟨rfl, rfl⟩ := List.append_eq_nil_iff.mp hclean.symm
      obtain ⟨before, after, rfl, hbefore, hafter⟩ :=
        exists_taken_parts hfirst.rest_suffix hsecond.rest_suffix hc
      cases hplan with
      | halts => cases hfirst
      | seq hviable hviable' _ _ htakes =>
          refine .seq ?_ (ihsecond hviable' hafter hfollow rfl)
          rw [List.append_assoc]
          -- The first part is in front of the other token only if the second one takes nothing.
          cases after with
          | cons token after =>
              refine hfirst.congr_head hbefore ?_
              rw [hafter]
              rfl
          | nil =>
              rcases htakes with htakes | hsubset
              · have hlt := hsecond.takes rfl htakes
                rw [hafter] at hlt
                exact absurd hlt (Nat.lt_irrefl _)
              · exact ihfirst hviable hbefore (hsubset hfollow) rfl
  | @look choose c d _ hchosen ih =>
      cases hplan with
      | look hviable hstops =>
          have hruns := ih (hviable _ _) hc hfollow hclean
          refine .look ?_
          -- The choice depends on the next token, which is another one if nothing was taken.
          cases taken with
          | cons token taken =>
              have hnext : (Cursor.mk (token :: taken ++ follow) c.trees).rest.head? =
                  c.rest.head? := by
                rw [hc]
                rfl
              rw [Cursor.kind_eq hnext, Cursor.text_eq hnext]
              exact hruns
          | nil =>
              rcases hstops c.kind c.text with htakes | hsame
              · have hlt := hchosen.takes hclean.symm htakes
                rw [hc] at hlt
                exact absurd hlt (Nat.lt_irrefl _)
              · have hchoice := hsame _ hfollow (Cursor.mk follow c.trees).text
                rw [List.nil_append]
                exact hchoice ▸ hruns
  | node _ ih =>
      cases hplan with
      | node hviable => exact .node (ih hviable hc hfollow hclean)
  | wrap _ ih =>
      cases hplan with
      | wrap hviable => exact .wrap (ih hviable hc hfollow hclean)
  | @rule called _ _ _ _ ih =>
      cases hplan with
      | rule hstops => exact .rule (ih (viable_body called) hc (hstops hfollow) hclean)

/-- What a plan has taken where it first fails can be completed by a word. -/
def Completes (plan : Plan) (stops : List TokenKind) (trees : List Tree) (taken : List Token) :
    Prop :=
  ∃ word, (∀ content ∈ word, Token.Spelled content) ∧
    ∀ tokens, tokens.map Token.content = word → plan.Covers stops trees (taken ++ tokens)

/-- A plan that covers whatever another one covers is completed by the same word. -/
theorem Completes.imp {other : Plan} {ends : List TokenKind} {trees trees' : List Tree}
    {front : List Token} (h : Completes plan stops trees taken)
    (himp : ∀ tokens, plan.Covers stops trees (taken ++ tokens) →
      other.Covers ends trees' (front ++ tokens)) : Completes other ends trees' front := by
  obtain ⟨word, hspelled, hcovers⟩ := h
  exact ⟨word, hspelled, fun tokens htokens => himp tokens (hcovers tokens htokens)⟩

/-- The plan behind takes its own word. -/
theorem Completes.seq {first second : Plan} {trees : List Tree} {middle : List TokenKind}
    {more : List (TokenKind × String)} (h : Completes first middle trees taken)
    (hdefaults : Defaults second stops more)
    (hmiddle : ∀ kind ∈ stops, headKind more kind ∈ middle) :
    Completes (first.seq second) stops trees taken := by
  obtain ⟨word, hspelled, hcovers⟩ := h
  refine ⟨word ++ more, ?_, fun tokens htokens follow hfollow => ?_⟩
  · intro content hcontent
    rcases List.mem_append.mp hcontent with hcontent | hcontent
    · exact hspelled content hcontent
    · exact hdefaults.spelled content hcontent
  · obtain ⟨before, after, rfl, hbefore, hafter⟩ := List.map_eq_append_iff.mp htokens
    have hnext : nextKind (after ++ follow) ∈ middle := by
      rw [nextKind_append hafter]
      exact hmiddle _ hfollow
    obtain ⟨trees', hruns⟩ := hcovers before hbefore (after ++ follow) hnext
    obtain ⟨trees'', hruns'⟩ := hdefaults.covers after hafter trees' follow hfollow
    have hbegin : Runs first ⟨taken ++ (before ++ after) ++ follow, trees⟩
        ⟨after ++ follow, trees'⟩ [] := by
      simpa only [List.append_assoc] using hruns
    exact ⟨trees'', .seq hbegin hruns'⟩

/-- What ran without a fault still runs when what was taken behind it is completed. -/
theorem Completes.behind {first second : Plan} {after : List Token}
    (hrun : Runs first c d []) (h : Completes second stops d.trees after)
    (hc : c.rest = taken ++ d.rest) (hd : d.rest = after ++ rest) (hne : after ≠ []) :
    Completes (first.seq second) stops c.trees (taken ++ after) := by
  refine h.imp fun tokens hcovers follow hfollow => ?_
  obtain ⟨trees, hruns⟩ := hcovers follow hfollow
  have hhead : (after ++ tokens ++ follow).head? = d.rest.head? := by
    obtain ⟨token, after, rfl⟩ := List.exists_cons_of_ne_nil hne
    rw [hd]
    rfl
  have hbegin : Runs first ⟨taken ++ after ++ tokens ++ follow, c.trees⟩
      ⟨after ++ tokens ++ follow, d.trees⟩ [] := by
    simpa only [List.append_assoc] using hrun.congr_head hc hhead
  exact ⟨trees, .seq hbegin hruns⟩

/-- What ran without a fault is completed by the word of the plan behind it. -/
theorem Completes.atEnd {first second : Plan} {middle : List TokenKind}
    {more : List (TokenKind × String)} (hrun : Runs first c d []) (hviable : Viable first middle)
    (hdefaults : Defaults second stops more)
    (hmiddle : ∀ kind ∈ stops, headKind more kind ∈ middle) (hc : c.rest = taken ++ d.rest) :
    Completes (first.seq second) stops c.trees taken := by
  refine ⟨more, hdefaults.spelled, fun tokens htokens follow hfollow => ?_⟩
  have hnext : nextKind (tokens ++ follow) ∈ middle := by
    rw [nextKind_append htokens]
    exact hmiddle _ hfollow
  obtain ⟨trees, hruns⟩ := hdefaults.covers tokens htokens d.trees follow hfollow
  rw [List.append_assoc]
  exact ⟨trees, .seq (hrun.restops hviable hc hnext) hruns⟩

/-- What was read up to the first fault can be completed. -/
theorem Fails.completes (h : Fails plan c rest) (hplan : Viable plan stops)
    (hc : c.rest = taken ++ rest) (hne : taken ≠ []) : Completes plan stops c.trees taken := by
  -- Induction on the fault: the plan that meets it is completed first, then those around it.
  induction h generalizing stops taken with
  | fault missing c => exact absurd (by simpa using hc) hne
  | noEffect hno => exact absurd (by simpa using hc) hne
  | first hfails ih =>
      cases hplan with
      | halts =>
          cases hfails
          exact absurd (by simpa using hc) hne
      | seq hviable _ hdefaults hmiddle _ => exact (ih hviable hc hne).seq hdefaults hmiddle
  | @second first second c d rest hrun hfails ih =>
      obtain ⟨before, after, rfl, hbefore, hafter⟩ :=
        exists_taken_parts hrun.rest_suffix hfails.rest_suffix hc
      cases hplan with
      | halts => cases hrun
      | seq hviable hviable' hdefaults hmiddle _ =>
          by_cases hnone : after = []
          -- The second plan has taken nothing, so that all of it is given by its defaults.
          · subst hnone
            rw [List.append_nil]
            exact .atEnd hrun hviable hdefaults hmiddle hbefore
          · exact .behind hrun (ih hviable' hafter hnone) hbefore hafter hnone
  | @look choose c rest _ ih =>
      cases hplan with
      | look hviable =>
          refine (ih (hviable _ _) hc hne).imp fun tokens hcovers follow hfollow => ?_
          obtain ⟨trees, hruns⟩ := hcovers follow hfollow
          have hnext : (Cursor.mk (taken ++ tokens ++ follow) c.trees).rest.head? =
              c.rest.head? := by
            obtain ⟨token, taken, rfl⟩ := List.exists_cons_of_ne_nil hne
            rw [hc]
            rfl
          refine ⟨trees, .look ?_⟩
          rw [Cursor.kind_eq hnext, Cursor.text_eq hnext]
          exact hruns
  | node _ ih =>
      cases hplan with
      | node hviable =>
          refine (ih hviable hc hne).imp fun tokens hcovers follow hfollow => ?_
          obtain ⟨inner, hruns⟩ := hcovers follow hfollow
          exact ⟨_, .node hruns⟩
  | wrap _ ih =>
      cases hplan with
      | wrap hviable =>
          refine (ih hviable hc hne).imp fun tokens hcovers follow hfollow => ?_
          obtain ⟨inner, hruns⟩ := hcovers follow hfollow
          exact ⟨_, .wrap hruns⟩
  | @rule called _ _ _ ih =>
      cases hplan with
      | rule hstops =>
          refine (ih (viable_body called) hc hne).imp fun tokens hcovers follow hfollow => ?_
          obtain ⟨trees, hruns⟩ := hcovers follow (hstops hfollow)
          exact ⟨trees, .rule hruns⟩

end Plan

/-! ### Tokens by their numbers -/

/-- The lexer can produce the token, and the grammar reads it. -/
def Token.Means (content : TokenKind × String) : Prop :=
  content.1.isTrivia = false ∧ content.1 ≠ .eof

theorem Token.Spelled.means {content : TokenKind × String} (h : Token.Spelled content) :
    Token.Means content := by
  refine ⟨h.isTrivia, fun heof => ?_⟩
  have hmem : (⟨content.1, 0, content.2⟩ : Token) ∈ lex content.2 := by
    rw [h.lexed]
    exact List.mem_cons_self
  exact lex_ne_eof content.2 _ hmem heof

namespace Parser

variable {contents : List (TokenKind × String)} {k : Nat}

/-- The number of the token at which the first error points, and how many tokens there are if it
points at the end. -/
def firstFault? (contents : List (TokenKind × String)) : Option Nat :=
  (numbered contents).sourceFile.errors.toList.head?.map fun error => error.span.start

/-- Tokens with the given contents, numbered from `first` on. -/
def numberedFrom (first : Nat) (contents : List (TokenKind × String)) : List Token :=
  contents.mapIdx fun number content => ⟨content.1, number + first, content.2⟩

theorem numberedTokens_append (contents more : List (TokenKind × String)) :
    numberedTokens (contents ++ more) =
      numberedTokens contents ++ numberedFrom contents.length more :=
  List.mapIdx_append

theorem head?_numberedFrom (first : Nat) (content : TokenKind × String)
    (contents : List (TokenKind × String)) :
    (numberedFrom first (content :: contents)).head? = some ⟨content.1, first, content.2⟩ := by
  rw [numberedFrom, List.mapIdx_cons, List.head?_cons, Nat.zero_add]

theorem map_content_numberedFrom (first : Nat) (contents : List (TokenKind × String)) :
    (numberedFrom first contents).map Token.content = contents := by
  apply List.ext_getElem?
  intro number
  rw [numberedFrom, List.getElem?_map, List.getElem?_mapIdx]
  cases contents[number]? with
  | none => rfl
  | some content => rfl

/-- A run over numbered tokens. -/
theorem numbered_runs (hmeans : ∀ content ∈ contents, Token.Means content) :
    ∃ trees reports,
      (Plan.rule .file).Runs ⟨numberedTokens contents, []⟩ ⟨[], trees⟩ reports ∧
      (numbered contents).sourceFile.errors.toList =
        reports.map (Report.error contents.length) := by
  have hmeans' : ∀ token ∈ numberedTokens contents, Token.Means token.content := by
    intro token htoken
    obtain ⟨number, hnumber, rfl⟩ := List.mem_mapIdx.mp htoken
    exact hmeans _ (List.getElem_mem hnumber)
  have hfilter : ((numberedTokens contents).filter fun token => !token.kind.isTrivia) =
      numberedTokens contents := by
    rw [List.filter_eq_self]
    intro token htoken
    have htrivia : token.kind.isTrivia = false := (hmeans' token htoken).1
    rw [htrivia]
    rfl
  obtain ⟨trees, reports, -, hruns, herrors⟩ := read_runs (numberedTokens contents)
    contents.length fun token htoken => (hmeans' token htoken).2
  rw [Tree.meaningful, hfilter] at hruns
  refine ⟨_, reports, hruns, ?_⟩
  have hopened : ofTokens (numberedTokens contents) contents.length = numbered contents := by
    rw [ofTokens, hfilter, numbered]
  rw [← herrors, ← hopened, sourceFile_eq]
  rfl

theorem length_numberedTokens (contents : List (TokenKind × String)) :
    (numberedTokens contents).length = contents.length :=
  List.length_mapIdx

/-- A report in front of some of the numbered tokens points at the number of the first of them. -/
theorem start_span {taken rest : List Token} (h : taken ++ rest = numberedTokens contents)
    (missing : Fault) :
    ((Report.mk missing rest).span contents.length).start = taken.length := by
  cases rest with
  | nil =>
      rw [List.append_nil] at h
      rw [h, length_numberedTokens]
      rfl
  | cons token rest =>
      have htoken : (numberedTokens contents)[taken.length]? = some token := by
        rw [← h, List.getElem?_append_right (Nat.le_refl _), Nat.sub_self]
        rfl
      rw [numberedTokens, List.getElem?_mapIdx, Option.map_eq_some_iff] at htoken
      obtain ⟨content, -, rfl⟩ := htoken
      rfl

/-- The first error points at the place where the plan of files first fails. -/
theorem firstFault?_eq_some_iff (hmeans : ∀ content ∈ contents, Token.Means content) :
    firstFault? contents = some k ↔ ∃ taken rest, taken ++ rest = numberedTokens contents ∧
      taken.length = k ∧ (Plan.rule .file).Fails ⟨numberedTokens contents, []⟩ rest := by
  obtain ⟨trees, reports, hruns, herrors⟩ := numbered_runs hmeans
  rw [firstFault?, herrors]
  constructor
  · intro hfirst
    cases reports with
    | nil => cases hfirst
    | cons report reports =>
        have hfails := hruns.fails rfl
        obtain ⟨taken, htaken⟩ := hfails.rest_suffix
        refine ⟨taken, report.rest, htaken, ?_, hfails⟩
        rw [← start_span htaken report.fault]
        exact Option.some_inj.mp hfirst
  · rintro ⟨taken, rest, htaken, rfl, hfails⟩
    obtain ⟨missing, more, rfl⟩ := hfails.reports hruns
    exact congrArg some (start_span htaken missing)

/-- What was read before the first error can be completed. -/
theorem completes_before_fault (rest : List Token)
    (hmeans : ∀ content ∈ contents, Token.Means content)
    (hfails : (Plan.rule .file).Fails ⟨numberedTokens contents ++ rest, []⟩ rest) :
    ∃ more, (∀ content ∈ more, Token.Spelled content) ∧
      (numbered (contents ++ more)).sourceFile.errors = #[] := by
  obtain ⟨more, hspelled, hcovers⟩ :
      (Plan.rule .file).Completes [.eof] [] (numberedTokens contents) := by
    by_cases hnone : contents = []
    · subst hnone
      have hempty : Plan.Defaults (.rule .file) [.eof] [] := Plan.defaults_list rfl rfl
      exact ⟨[], hempty.spelled, fun tokens htokens => hempty.covers tokens htokens []⟩
    · refine hfails.completes (.rule (List.Subset.refl _)) rfl fun hnil => hnone ?_
      rw [← List.length_eq_zero_iff, ← length_numberedTokens, hnil, List.length_nil]
  refine ⟨more, hspelled, ?_⟩
  obtain ⟨trees, hruns⟩ := hcovers (numberedFrom contents.length more)
    (map_content_numberedFrom _ _) [] List.mem_cons_self
  rw [← numberedTokens_append, List.append_nil] at hruns
  have hmeans' : ∀ content ∈ contents ++ more, Token.Means content := by
    intro content hcontent
    rcases List.mem_append.mp hcontent with hcontent | hcontent
    · exact hmeans content hcontent
    · exact (hspelled content hcontent).means
  obtain ⟨trees', reports, hruns', herrors⟩ := numbered_runs hmeans'
  obtain ⟨-, rfl⟩ := hruns.unique hruns'
  exact Array.toList_eq_nil_iff.mp herrors

/-- The first error is at the exact place where the input goes wrong. What stands before it can be
completed by tokens that the lexer reads, to tokens that are read without an error. And whatever
stands behind the token at which it points, the first error is at that token. -/
theorem firstFault_exact {contents : List (TokenKind × String)}
    (hmeans : ∀ content ∈ contents, Token.Means content) {k : Nat}
    (hfirst : firstFault? contents = some k) :
    k ≤ contents.length ∧
    (∃ more, (∀ content ∈ more, Token.Spelled content) ∧
      (numbered (contents.take k ++ more)).sourceFile.errors = #[]) ∧
    (k < contents.length → ∀ more, (∀ content ∈ more, Token.Means content) →
      firstFault? (contents.take (k + 1) ++ more) = some k) := by
  obtain ⟨taken, rest, htaken, rfl, hfails⟩ := (firstFault?_eq_some_iff hmeans).mp hfirst
  have hle : taken.length ≤ contents.length := by
    rw [← length_numberedTokens contents, ← htaken, List.length_append]
    exact Nat.le_add_right _ _
  have hlength : (contents.take taken.length).length = taken.length := List.length_take_of_le hle
  obtain ⟨htake, hrest⟩ : taken = numberedTokens (contents.take taken.length) ∧
      rest = numberedFrom taken.length (contents.drop taken.length) := by
    rw [← List.take_append_drop taken.length contents, numberedTokens_append, hlength] at htaken
    exact List.append_inj htaken (by rw [length_numberedTokens, hlength])
  refine ⟨hle, ?_, fun hlt more hmore => ?_⟩
  · refine completes_before_fault rest ?_ ?_
    · exact fun content hcontent => hmeans content (List.mem_of_mem_take hcontent)
    · rw [← htake, htaken]
      exact hfails
  · have hmeans' : ∀ content ∈ contents.take (taken.length + 1) ++ more, Token.Means content := by
      intro content hcontent
      rcases List.mem_append.mp hcontent with hcontent | hcontent
      · exact hmeans content (List.mem_of_mem_take hcontent)
      · exact hmore content hcontent
    have hsplit : numberedTokens (contents.take (taken.length + 1) ++ more) =
        taken ++ numberedFrom taken.length (contents[taken.length] :: more) := by
      rw [List.take_succ_eq_append_getElem hlt, List.append_assoc, numberedTokens_append, hlength,
        ← htake]
      rfl
    have hhead : (numberedFrom taken.length (contents[taken.length] :: more)).head? =
        rest.head? := by
      rw [hrest, List.drop_eq_getElem_cons hlt, head?_numberedFrom, head?_numberedFrom]
    refine (firstFault?_eq_some_iff hmeans').mpr ⟨taken, _, hsplit.symm, rfl, ?_⟩
    rw [hsplit]
    exact hfails.congr_head htaken.symm hhead

/-- In an assignment without a value the first error is at the token where the value is missing. -/
def valueless : List (TokenKind × String) := [(.ident, "x"), (.assign, "="), (.rParen, ")")]

theorem firstFault_valueless :
    firstFault? valueless = some 2 ∧
      (∃ more, (∀ content ∈ more, Token.Spelled content) ∧
        (numbered (valueless.take 2 ++ more)).sourceFile.errors = #[]) ∧
      ∀ more, (∀ content ∈ more, Token.Means content) →
        firstFault? (valueless.take 3 ++ more) = some 2 := by
  have hfirst : firstFault? valueless = some 2 := by decide +kernel
  have hmeans : ∀ content ∈ valueless, Token.Means content := by
    simp [valueless, Token.Means, TokenKind.isTrivia]
  obtain ⟨-, hcompletes, hothers⟩ := firstFault_exact hmeans hfirst
  exact ⟨hfirst, hcompletes, hothers (by decide)⟩

end Parser

end Gml
