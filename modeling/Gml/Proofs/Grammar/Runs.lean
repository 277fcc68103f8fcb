import Gml.Proofs.Grammar.Plan

/-!
# Runs of plans

A plan has at most one run from each place. A run without a fault depends on the tokens that it
takes and on the one behind them only, and so does the way to the first fault of any other run.
What holds of every rule once it holds of the plans below it holds of every run.
-/
namespace Gml

namespace Cursor

theorem kind_eq {c d : Cursor} (h : c.rest.head? = d.rest.head?) : c.kind = d.kind := by
  obtain ⟨_ | ⟨t, rest⟩, _⟩ := c <;> obtain ⟨_ | ⟨s, more⟩, _⟩ := d <;> simp_all [kind]

theorem text_eq {c d : Cursor} (h : c.rest.head? = d.rest.head?) : c.text = d.text := by
  obtain ⟨_ | ⟨t, rest⟩, _⟩ := c <;> obtain ⟨_ | ⟨s, more⟩, _⟩ := d <;> simp_all [text]

theorem head?_append (taken : List Token) {rest more : List Token} (h : more.head? = rest.head?) :
    (taken ++ more).head? = (taken ++ rest).head? := by
  rw [List.head?_append, List.head?_append, h]

end Cursor

namespace Plan

variable {plan : Plan} {c d e : Cursor} {faults others : List Report}

theorem Runs.unique (h : Runs plan c d faults) (k : Runs plan c e others) :
    d = e ∧ faults = others := by
  induction h generalizing e others with
  | done c =>
      cases k
      exact ⟨rfl, rfl⟩
  | take token rest trees =>
      cases k
      exact ⟨rfl, rfl⟩
  | fault missing c =>
      cases k
      exact ⟨rfl, rfl⟩
  | effect heffect =>
      cases k with
      | effect => exact ⟨rfl, rfl⟩
      | noEffect hno => simp [hno] at heffect
  | noEffect hno =>
      cases k with
      | effect heffect => simp [hno] at heffect
      | noEffect => exact ⟨rfl, rfl⟩
  | seq _ _ ihfirst ihsecond =>
      cases k with
      | seq kfirst ksecond =>
          obtain ⟨rfl, rfl⟩ := ihfirst kfirst
          obtain ⟨rfl, rfl⟩ := ihsecond ksecond
          exact ⟨rfl, rfl⟩
  | look _ ih =>
      cases k with
      | look k => exact ih k
  | node _ ih =>
      cases k with
      | node k =>
          obtain ⟨heq, rfl⟩ := ih k
          cases heq
          exact ⟨rfl, rfl⟩
  | wrap _ ih =>
      cases k with
      | wrap k =>
          obtain ⟨heq, rfl⟩ := ih k
          cases heq
          exact ⟨rfl, rfl⟩
  | rule _ ih =>
      cases k with
      | rule k => exact ih k

theorem Runs.rest_suffix (h : Runs plan c d faults) : d.rest <:+ c.rest := by
  induction h with
  | take token rest trees => exact List.suffix_cons token rest
  | seq _ _ ihfirst ihsecond => exact ihsecond.trans ihfirst
  | look _ ih => exact ih
  | node _ ih => exact ih
  | wrap _ ih => exact ih
  | rule _ ih => exact ih
  | _ => exact List.suffix_rfl

/-! ### Induction over the rules -/

/-- What a plan does if `holds` says what the rules do. -/
def Meaning (holds : Rule → Cursor → Cursor → Prop) : Plan → Cursor → Cursor → Prop
  | .done, c, d => d = c
  | .take, c, d => ∃ token, c.rest = token :: d.rest ∧ d.trees = .leaf token :: c.trees
  | .fault _, c, d => d = c
  | .effect, c, d => d = c
  | .seq first second, c, e => ∃ d, first.Meaning holds c d ∧ second.Meaning holds d e
  | .look choose, c, d => (choose c.kind c.text).Meaning holds c d
  | .node kind body, c, d => ∃ inner, body.Meaning holds ⟨c.rest, []⟩ ⟨d.rest, inner⟩ ∧
      d.trees = .node kind inner.reverse :: c.trees
  | .wrap kind body, c, d => ∃ inner, body.Meaning holds ⟨c.rest, c.trees.take 1⟩ ⟨d.rest, inner⟩ ∧
      d.trees = .node kind inner.reverse :: c.trees.drop 1
  | .rule called, c, d => holds called c d

/-- What holds of a rule once it holds of the rules that its body calls holds of all runs. -/
theorem Runs.meaning {holds : Rule → Cursor → Cursor → Prop}
    (hstep : ∀ rule c d, (body rule).Meaning holds c d → holds rule c d)
    (h : Runs plan c d faults) : plan.Meaning holds c d := by
  induction h with
  | take token rest trees => exact ⟨token, rfl, rfl⟩
  | seq _ _ ihfirst ihsecond => exact ⟨_, ihfirst, ihsecond⟩
  | look _ ih => exact ih
  | node _ ih => exact ⟨_, ih, rfl⟩
  | wrap _ ih => exact ⟨_, ih, rfl⟩
  | @rule called c d _ _ ih => exact hstep called c d ih
  | done c => exact (rfl : c = c)
  | fault _ c => exact (rfl : c = c)
  | @effect c _ => exact (rfl : c = c)
  | @noEffect c _ => exact (rfl : c = c)

/-! ### The first fault -/

/-- The first fault on the way is met in front of `rest`. -/
inductive Fails : Plan → Cursor → List Token → Prop
  | fault (missing : Fault) (c : Cursor) : Fails (fault missing) c c.rest
  | noEffect {c : Cursor} : c.hasEffect = false → Fails effect c c.rest
  | first {first second : Plan} {c : Cursor} {rest : List Token} :
      Fails first c rest → Fails (first.seq second) c rest
  | second {first second : Plan} {c d : Cursor} {rest : List Token} :
      Runs first c d [] → Fails second d rest → Fails (first.seq second) c rest
  | look {choose : TokenKind → String → Plan} {c : Cursor} {rest : List Token} :
      Fails (choose c.kind c.text) c rest → Fails (look choose) c rest
  | node {kind : NodeKind} {body : Plan} {c : Cursor} {rest : List Token} :
      Fails body ⟨c.rest, []⟩ rest → Fails (node kind body) c rest
  | wrap {kind : NodeKind} {body : Plan} {c : Cursor} {rest : List Token} :
      Fails body ⟨c.rest, c.trees.take 1⟩ rest → Fails (wrap kind body) c rest
  | rule {rule : Rule} {c : Cursor} {rest : List Token} :
      Fails (body rule) c rest → Fails (.rule rule) c rest

/-- The first report of a run is where it fails. -/
theorem Runs.fails (h : Runs plan c d faults) {report : Report}
    (hfirst : faults.head? = some report) : Fails plan c report.rest := by
  induction h with
  | fault missing c =>
      cases hfirst
      exact .fault missing c
  | noEffect hno =>
      cases hfirst
      exact .noEffect hno
  | @seq _ _ _ _ _ reports others hrun _ ihfirst ihsecond =>
      cases reports with
      | nil => exact .second hrun (ihsecond hfirst)
      | cons =>
          cases hfirst
          exact .first (ihfirst rfl)
  | look _ ih => exact .look (ih hfirst)
  | node _ ih => exact .node (ih hfirst)
  | wrap _ ih => exact .wrap (ih hfirst)
  | rule _ ih => exact .rule (ih hfirst)
  | _ => cases hfirst

/-- A run that fails somewhere reports it there first. -/
theorem Fails.reports {rest : List Token} (h : Fails plan c rest) (k : Runs plan c d faults) :
    ∃ missing more, faults = ⟨missing, rest⟩ :: more := by
  induction h generalizing d faults with
  | fault missing c =>
      cases k
      exact ⟨_, _, rfl⟩
  | noEffect hno =>
      cases k with
      | effect heffect => simp [hno] at heffect
      | noEffect => exact ⟨_, _, rfl⟩
  | first _ ih =>
      cases k with
      | seq kfirst ksecond =>
          obtain ⟨missing, more, rfl⟩ := ih kfirst
          exact ⟨missing, _, rfl⟩
  | second hrun _ ih =>
      cases k with
      | seq kfirst ksecond =>
          obtain ⟨rfl, rfl⟩ := hrun.unique kfirst
          exact ih ksecond
  | look _ ih =>
      cases k with
      | look k => exact ih k
  | node _ ih =>
      cases k with
      | node k => exact ih k
  | wrap _ ih =>
      cases k with
      | wrap k => exact ih k
  | rule _ ih =>
      cases k with
      | rule k => exact ih k

theorem Fails.rest_suffix {rest : List Token} (h : Fails plan c rest) : rest <:+ c.rest := by
  induction h with
  | first _ ih => exact ih
  | second hrun _ ih => exact ih.trans hrun.rest_suffix
  | look _ ih => exact ih
  | node _ ih => exact ih
  | wrap _ ih => exact ih
  | rule _ ih => exact ih
  | _ => exact List.suffix_rfl

/-! ### What a run depends on -/

/-- What is taken from one place to another is divided at a place between them. -/
theorem exists_taken_parts {taken start middle stop : List Token} (hmiddle : middle <:+ start)
    (hstop : stop <:+ middle) (h : start = taken ++ stop) :
    ∃ before after, taken = before ++ after ∧ start = before ++ middle ∧ middle = after ++ stop := by
  obtain ⟨before, hbefore⟩ := hmiddle
  obtain ⟨after, hafter⟩ := hstop
  refine ⟨before, after, ?_, hbefore.symm, hafter.symm⟩
  rw [← hbefore, ← hafter, ← List.append_assoc] at h
  exact (List.append_cancel_right h).symm

/-- What is behind the next token makes no difference to a run without a fault. -/
theorem Runs.congr_head (h : Runs plan c d []) {taken more : List Token}
    (hc : c.rest = taken ++ d.rest) (hmore : more.head? = d.rest.head?) :
    Runs plan ⟨taken ++ more, c.trees⟩ ⟨more, d.trees⟩ [] := by
  generalize hclean : ([] : List Report) = faults at h
  induction h generalizing taken more with
  | done c =>
      obtain rfl : taken = [] := by simpa using hc
      exact .done _
  | take token rest trees =>
      obtain rfl : taken = [token] :=
        (List.append_cancel_right (show [token] ++ rest = taken ++ rest from hc)).symm
      exact .take _ _ _
  | fault => cases hclean
  | effect heffect =>
      obtain rfl : taken = [] := by simpa using hc
      exact .effect heffect
  | noEffect => cases hclean
  | seq hfirst hsecond ihfirst ihsecond =>
      obtain ⟨rfl, rfl⟩ := List.append_eq_nil_iff.mp hclean.symm
      obtain ⟨before, after, rfl, hbefore, hafter⟩ :=
        exists_taken_parts hfirst.rest_suffix hsecond.rest_suffix hc
      have hmid := Cursor.head?_append after hmore
      rw [← hafter] at hmid
      have hbegin := ihfirst hbefore hmid rfl
      rw [← List.append_assoc] at hbegin
      exact .seq hbegin (ihsecond hafter hmore rfl)
  | @look choose c d _ _ ih =>
      have hnext := Cursor.head?_append taken hmore
      rw [← hc] at hnext
      refine .look ?_
      rw [Cursor.kind_eq (d := c) hnext, Cursor.text_eq (d := c) hnext]
      exact ih hc hmore hclean
  | node _ ih => exact .node (ih hc hmore hclean)
  | wrap _ ih => exact .wrap (ih hc hmore hclean)
  | rule _ ih => exact .rule (ih hc hmore hclean)

/-- What is behind the place of the first fault makes no difference to the way there. -/
theorem Fails.congr_head {rest : List Token} (h : Fails plan c rest) {taken more : List Token}
    (hc : c.rest = taken ++ rest) (hmore : more.head? = rest.head?) :
    Fails plan ⟨taken ++ more, c.trees⟩ more := by
  induction h generalizing taken with
  | fault missing c =>
      obtain rfl : taken = [] := by simpa using hc
      exact .fault missing _
  | noEffect hno =>
      obtain rfl : taken = [] := by simpa using hc
      exact .noEffect (c := ⟨more, _⟩) hno
  | first _ ih => exact .first (ih hc hmore)
  | second hrun hfails ih =>
      obtain ⟨before, after, rfl, hbefore, hafter⟩ :=
        exists_taken_parts hrun.rest_suffix hfails.rest_suffix hc
      have hmid := Cursor.head?_append after hmore
      rw [← hafter] at hmid
      have hbegin := hrun.congr_head hbefore hmid
      rw [← List.append_assoc] at hbegin
      exact .second hbegin (ih hafter hmore)
  | @look choose c _ _ ih =>
      have hnext := Cursor.head?_append taken hmore
      rw [← hc] at hnext
      refine .look ?_
      rw [Cursor.kind_eq (d := c) hnext, Cursor.text_eq (d := c) hnext]
      exact ih hc hmore
  | node _ ih => exact .node (ih hc hmore)
  | wrap _ ih => exact .wrap (ih hc hmore)
  | rule _ ih => exact .rule (ih hc hmore)

end Plan

end Gml
