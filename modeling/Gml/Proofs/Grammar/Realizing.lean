import Gml.Proofs.Grammar.Runs
import Gml.Proofs.Parser.Rules

/-!
# The parser runs the plans

Each rule of the parser reads what its plan takes and reports the same faults, if the grammar below
it does so for fewer tokens. The bound is that of the nesting: every rule takes a token before it
calls the grammar below.
-/
namespace Gml

namespace Report

/-- Where a report points to in a text of the given length. -/
def span (textEnd : Nat) (report : Report) : Span :=
  match report.rest with
  | [] => .empty textEnd
  | token :: _ => token.span

def error (textEnd : Nat) (report : Report) : ParseError := ⟨report.fault, report.span textEnd⟩

end Report

namespace Parser

variable {p q r : Parser} {plan other : Plan} {n : Nat}

/-- The parser as a place from which a plan can run. -/
def cursor (p : Parser) (trees : List Tree) : Cursor := ⟨p.rest, trees⟩

@[simp] theorem cursor_kind (p : Parser) (trees : List Tree) :
    (p.cursor trees).kind = p.current :=
  rfl

@[simp] theorem cursor_text (p : Parser) (trees : List Tree) :
    (p.cursor trees).text = p.currentText :=
  rfl

/-- What was reported from `p` to `q`. -/
structure Reports (p : Parser) (reports : List Report) (q : Parser) : Prop where
  errors : q.errors.toList = p.errors.toList ++ reports.map (Report.error p.textEnd)
  textEnd : q.textEnd = p.textEnd

theorem Reports.refl (p : Parser) : p.Reports [] p := ⟨by simp, rfl⟩

theorem Reports.trans {reports others : List Report} (h : p.Reports reports q)
    (k : q.Reports others r) : p.Reports (reports ++ others) r where
  errors := by rw [k.errors, h.errors, h.textEnd, List.map_append, List.append_assoc]
  textEnd := k.textEnd.trans h.textEnd

/-- From `p` to `q` the parser did what the plan says. -/
structure Follows (p : Parser) (plan : Plan) (q : Parser) : Prop where
  follows : ∃ trees reports, p.Reads trees q ∧ p.Reports reports q ∧
    ∀ before, plan.Runs (p.cursor before) (q.cursor (trees.reverse ++ before)) reports

theorem Follows.length_le (h : p.Follows plan q) : q.rest.length ≤ p.rest.length := by
  obtain ⟨trees, reports, hreads, -, -⟩ := h.follows
  exact Advances.length_le ⟨trees, hreads⟩

theorem Follows.trans (h : p.Follows plan q) (k : q.Follows other r) :
    p.Follows (plan.seq other) r := by
  obtain ⟨trees, reports, hreads, hreports, hruns⟩ := h.follows
  obtain ⟨more, others, hreads', hreports', hruns'⟩ := k.follows
  refine ⟨trees ++ more, reports ++ others, hreads.trans hreads', hreports.trans hreports',
    fun before => ?_⟩
  rw [List.reverse_append, List.append_assoc]
  exact .seq (hruns before) (hruns' _)

theorem follows_done (p : Parser) : p.Follows .done p :=
  ⟨[], [], .refl p, .refl p, fun _ => .done _⟩

theorem reports_fail (missing : Fault) (p : Parser) :
    p.Reports [⟨missing, p.rest⟩] (p.fail missing) := by
  refine ⟨?_, rfl⟩
  rw [fail, Array.toList_push]
  rfl

theorem follows_fault (missing : Fault) (p : Parser) :
    p.Follows (.fault missing) (p.fail missing) :=
  ⟨[], _, ⟨⟨[], .nil, by simp [fail]⟩, rfl⟩, p.reports_fail missing, fun _ => .fault missing _⟩

theorem follows_take (hp : p.current ≠ .eof) :
    p.Follows .take p.bump ∧ p.bump.rest.length < p.rest.length := by
  cases hrest : p.rest with
  | nil =>
      rw [current, hrest] at hp
      exact absurd rfl hp
  | cons token rest =>
      have hbump : p.bump = { p with rest, events := p.events.push (.token token.kind) } := by
        rw [bump, hrest]
      refine ⟨⟨[.leaf token], [], ⟨⟨[.token token.kind], .token token .nil, ?_⟩, ?_⟩, ⟨?_, ?_⟩, ?_⟩,
        ?_⟩
      · simp [hbump]
      · simp [hbump, hrest, Tree.leavesAll, Tree.leaves]
      · simp [hbump]
      · simp [hbump]
      · intro before
        rw [cursor, cursor, hrest, hbump]
        exact .take token rest before
      · simp [hbump]

theorem Follows.look {choose : TokenKind → String → Plan}
    (h : p.Follows (choose p.current p.currentText) q) : p.Follows (.look choose) q := by
  obtain ⟨trees, reports, hreads, hreports, hruns⟩ := h.follows
  exact ⟨trees, reports, hreads, hreports, fun before => .look (hruns before)⟩

theorem follows_choice {test : TokenKind → Bool} (hq : test p.current = true → p.Follows plan q)
    (hr : test p.current = false → p.Follows other r) :
    p.Follows (.choice test plan other) (if test p.current then q else r) := by
  refine .look ?_
  split
  next htest => exact hq htest
  next htest => exact hr (by simpa using htest)

/-- The same where the parser asks first whether the test fails. -/
theorem follows_choice_not {test : TokenKind → Bool}
    (hq : test p.current = true → p.Follows plan q)
    (hr : test p.current = false → p.Follows other r) :
    p.Follows (.choice test plan other) (if !test p.current then r else q) := by
  have hchoice := follows_choice hq hr
  cases htest : test p.current <;> simpa [htest] using hchoice

theorem Follows.rule {called : Rule} (h : p.Follows (Plan.body called) q) :
    p.Follows (.rule called) q := by
  obtain ⟨trees, reports, hreads, hreports, hruns⟩ := h.follows
  exact ⟨trees, reports, hreads, hreports, fun before => .rule (hruns before)⟩

theorem Follows.enclose (kind : NodeKind) (h : (p.emit (.start kind none)).Follows plan q) :
    p.Follows (.node kind plan) (q.emit .finish) := by
  obtain ⟨trees, reports, hreads, hreports, hruns⟩ := h.follows
  refine ⟨[.node kind trees], reports, hreads.enclose kind, ⟨hreports.errors, hreports.textEnd⟩,
    fun before => ?_⟩
  have hbody := hruns []
  rw [List.append_nil] at hbody
  have hnode : Plan.Runs (.node kind plan) ⟨p.rest, before⟩ _ reports := .node hbody
  rwa [List.reverse_reverse] at hnode

/-! ### Rules below a bound -/

/-- With less than `n` tokens left the reader does what the plan says. -/
def Realizes (n : Nat) (plan : Plan) (reader : Parser → Parser) : Prop :=
  ∀ p : Parser, p.rest.length < n → p.Follows plan (reader p)

/-- With at most `n` tokens left, of which the first has the kind, the reader does what the plan
says and leaves less than `n`. -/
def Begins (n : Nat) (kind : TokenKind) (plan : Plan) (reader : Parser → Parser) : Prop :=
  ∀ p : Parser, p.rest.length ≤ n → p.current = kind →
    p.Follows plan (reader p) ∧ (reader p).rest.length < n

variable {kind : TokenKind} {reader next : Parser → Parser}

theorem begins_take (n : Nat) (hkind : kind ≠ .eof) : Begins n kind .take bump := by
  rintro p hp rfl
  obtain ⟨hfollows, hlt⟩ := follows_take hkind
  exact ⟨hfollows, Nat.lt_of_lt_of_le hlt hp⟩

namespace Begins

theorem comp (h : Begins n kind plan reader) (k : Realizes n other next) :
    Begins n kind (plan.seq other) (fun p => next (reader p)) := by
  intro p hp hcurrent
  obtain ⟨hfollows, hlt⟩ := h p hp hcurrent
  have hnext := k (reader p) hlt
  exact ⟨hfollows.trans hnext, Nat.lt_of_le_of_lt hnext.length_le hlt⟩

theorem node (h : Begins n kind plan reader) (nodeKind : NodeKind) :
    Begins n kind (.node nodeKind plan) (fun p => p.node nodeKind reader) := by
  intro p hp hcurrent
  obtain ⟨hfollows, hlt⟩ := h (p.emit (.start nodeKind none)) hp hcurrent
  exact ⟨hfollows.enclose nodeKind, hlt⟩

theorem follows (h : Begins n kind plan reader) (hp : p.rest.length ≤ n)
    (hcurrent : p.current = kind) : p.Follows plan (reader p) :=
  (h p hp hcurrent).1

end Begins

namespace Realizes

theorem below {m : Nat} (h : Realizes n plan reader) (hle : m ≤ n) : Realizes m plan reader :=
  fun p hp => h p (Nat.lt_of_lt_of_le hp hle)

theorem comp (h : Realizes n plan reader) (k : Realizes n other next) :
    Realizes n (plan.seq other) (fun p => next (reader p)) := by
  intro p hp
  have hfollows := h p hp
  exact hfollows.trans (k (reader p) (Nat.lt_of_le_of_lt hfollows.length_le hp))

theorem choice {test : TokenKind → Bool}
    (h : ∀ p : Parser, p.rest.length < n → test p.current = true → p.Follows plan (reader p))
    (k : ∀ p : Parser, p.rest.length < n → test p.current = false → p.Follows other (next p)) :
    Realizes n (.choice test plan other) (fun p => if test p.current then reader p else next p) :=
  fun p hp => follows_choice (h p hp) (k p hp)

end Realizes

theorem realizes_done (n : Nat) : Realizes n .done (fun p => p) := fun p _ => follows_done p

theorem realizes_fault (n : Nat) (missing : Fault) : Realizes n (.fault missing) (fail missing) :=
  fun p _ => follows_fault missing p

theorem Begins.choice (h : Begins n kind plan reader) (k : Realizes n other next) :
    Realizes n (.choice (· == kind) plan other)
      (fun p => if p.isAt kind then reader p else next p) :=
  .choice (fun _ hp hkind => h.follows (Nat.le_of_lt hp) (beq_iff_eq.mp hkind)) fun p hp _ => k p hp

theorem Begins.orFault (h : Begins n kind plan reader) (missing : Fault) :
    Realizes n (.orFault kind plan missing)
      (fun p => if p.isAt kind then reader p else p.fail missing) :=
  h.choice (realizes_fault n missing)

theorem Begins.option (h : Begins n kind plan reader) :
    Realizes n (.option (· == kind) plan) (fun p => if p.isAt kind then reader p else p) :=
  h.choice (realizes_done n)

theorem realizes_expect (n : Nat) (missing : Fault) (hkind : kind ≠ .eof) :
    Realizes n (.expect kind missing) (expect kind missing) :=
  (begins_take n hkind).orFault missing

theorem realizes_skip (n : Nat) (hkind : kind ≠ .eof) : Realizes n (.skip kind) (skip kind) :=
  (begins_take n hkind).option

theorem begins_name (n : Nat) : Begins n .ident .name name := (begins_take n (by decide)).node .name

theorem realizes_failAndTake (n : Nat) (missing : Fault) :
    Realizes n (.failAndTake missing) (failAndBump missing) := by
  have herror : Realizes n (.choice (· == .eof) .done (.node .error .take))
      (fun p => if p.atEnd then p else p.node .error bump) :=
    .choice (fun p _ _ => follows_done p) fun p hp hend =>
      ((begins_take n (by simpa using hend)).node .error).follows (Nat.le_of_lt hp) rfl
  exact (realizes_fault n missing).comp herror

/-! ### Lists -/

/-- A loop whose every round takes a token runs the rule that repeats what the round does. -/
theorem realizes_repeatWhile (repeats : Rule) {more : Parser → Bool} {stops : TokenKind → Bool}
    (hbody : Plan.body repeats = .repeated stops plan repeats)
    (hmore : ∀ p : Parser, more p = !stops p.current)
    (hrule : ∀ p : Parser, p.rest.length < n → stops p.current = false →
      p.Follows plan (reader p) ∧ (reader p).rest.length < p.rest.length) :
    Realizes n (.rule repeats) (repeatWhile more reader) := by
  have hrounds : ∀ (rounds : Nat) (p : Parser), p.rest.length < rounds → p.rest.length < n →
      p.Follows (.rule repeats) (iterate more reader rounds p) := by
    intro rounds
    induction rounds with
    | zero =>
        intro p hp
        omega
    | succ rounds ih =>
        intro p hp hbound
        refine .rule ?_
        rw [hbody, Plan.repeated, iterate, hmore]
        refine .look ?_
        cases hstops : stops p.current with
        | true =>
            rw [if_pos rfl]
            exact follows_done p
        | false =>
            rw [if_neg Bool.false_ne_true]
            obtain ⟨hfollows, hlt⟩ := hrule p hbound hstops
            exact hfollows.trans (ih (reader p) (by omega) (by omega))
  exact fun p hp => hrounds p.rounds p (Nat.lt_succ_self _) hp

/-- An item, and if there is a comma behind it, more. -/
theorem Follows.beforeComma {more : Plan} (item : Parser → Parser)
    (h : p.Follows plan (item p)) (hp : (item p).rest.length ≤ n) (k : Realizes n more next) :
    p.Follows (plan.seq (.moreAfterComma more))
      (if (item p).isAt .comma then next (item p).bump else item p) :=
  h.trans (follows_choice
    (fun hcomma => ((begins_take n (by decide)).comp k).follows hp (beq_iff_eq.mp hcomma))
    fun _ => follows_done _)

theorem realizes_itemsUntil (close : TokenKind) {item : Parser → Parser}
    (h : Realizes n .anyExpression item) (rounds : Nat) :
    Realizes (min n rounds) (.rule (.items close)) (itemsUntil close item rounds) := by
  -- One round less is enough behind an item, since a comma is taken before the next one.
  induction rounds with
  | zero =>
      intro p hp
      omega
  | succ rounds ih =>
      have hstep : Realizes (min n (rounds + 1)) (Plan.body (.items close))
          (itemsUntil close item (rounds + 1)) :=
        .choice (fun p _ _ => follows_done p) fun p hp _ => by
          have hitem := h p (by omega)
          have hlength := hitem.length_le
          exact hitem.beforeComma item (by omega) ih
      exact fun p hp => (hstep p hp).rule

/-! ### Nodes that can be wrapped -/

/-- From `p` on the parser did what the plan says, and the last tree is the finished node. -/
structure Settles (p : Parser) (plan : Plan) (r : Completed × Parser) : Prop where
  settles : ∃ children reports, p.Completes (.node r.1.kind children) r ∧ p.Reports reports r.2 ∧
    ∀ before, plan.Runs (p.cursor before) (r.2.cursor (.node r.1.kind children :: before)) reports

/-- The finished node `tree` became part of a larger one, or stayed as it is. -/
structure Grows (p : Parser) (tree : Tree) (s : Completed × Parser) (plan : Plan)
    (r : Completed × Parser) : Prop where
  grows : ∃ children reports, p.Completes (.node r.1.kind children) r ∧ s.2.Reports reports r.2 ∧
    ∀ before, plan.Runs (s.2.cursor (tree :: before))
      (r.2.cursor (.node r.1.kind children :: before)) reports

theorem Settles.follows {s : Completed × Parser} (h : p.Settles plan s) : p.Follows plan s.2 := by
  obtain ⟨children, reports, hcompletes, hreports, hruns⟩ := h.settles
  exact ⟨_, reports, hcompletes.reads, hreports, hruns⟩

theorem Follows.completes (kind : NodeKind) (h : p.reserve.2.Follows plan q) :
    p.Settles (.node kind plan) (q.complete p.reserve.1 kind) := by
  obtain ⟨trees, reports, hreads, hreports, hruns⟩ := h.follows
  refine ⟨trees, reports, hreads.completes kind, ⟨hreports.errors, hreports.textEnd⟩,
    fun before => ?_⟩
  have hbody := hruns []
  rw [List.append_nil] at hbody
  have hnode : Plan.Runs (.node kind plan) ⟨p.rest, before⟩ _ reports := .node hbody
  rwa [List.reverse_reverse] at hnode

theorem Begins.completeNode (h : Begins n kind plan reader) (nodeKind : NodeKind)
    (hp : p.rest.length ≤ n) (hcurrent : p.current = kind) :
    p.Settles (.node nodeKind plan) (p.completeNode nodeKind reader) :=
  (h.follows (p := p.reserve.2) hp hcurrent).completes nodeKind

/-- A node around a finished one and what is read behind it. -/
theorem Follows.wraps {tree : Tree} {left : Completed} (nodeKind : NodeKind)
    (hleft : p.Completes tree (left, q)) (h : (q.wrap left).2.Follows plan r) :
    p.Grows tree (left, q) (.wrap nodeKind plan) (r.complete (q.wrap left).1 nodeKind) := by
  obtain ⟨trees, reports, hreads, hreports, hruns⟩ := h.follows
  refine ⟨tree :: trees, reports, hleft.wrapped nodeKind hreads,
    ⟨hreports.errors, hreports.textEnd⟩, fun before => ?_⟩
  have hwrap : Plan.Runs (.wrap nodeKind plan) ⟨q.rest, tree :: before⟩ _ reports :=
    .wrap (hruns [tree])
  rwa [List.reverse_append, List.reverse_reverse] at hwrap

theorem grows_done {left : Completed} {children : List Tree}
    (h : p.Completes (.node left.kind children) (left, q)) :
    p.Grows (.node left.kind children) (left, q) .done (left, q) :=
  ⟨children, [], h, .refl q, fun _ => .done _⟩

theorem Grows.look {choose : TokenKind → String → Plan} {tree : Tree} {s t : Completed × Parser}
    (h : p.Grows tree s (choose s.2.current s.2.currentText) t) :
    p.Grows tree s (.look choose) t := by
  obtain ⟨children, reports, hcompletes, hreports, hruns⟩ := h.grows
  exact ⟨children, reports, hcompletes, hreports, fun before => .look (hruns before)⟩

theorem Grows.rule {called : Rule} {tree : Tree} {s t : Completed × Parser}
    (h : p.Grows tree s (Plan.body called) t) : p.Grows tree s (.rule called) t := by
  obtain ⟨children, reports, hcompletes, hreports, hruns⟩ := h.grows
  exact ⟨children, reports, hcompletes, hreports, fun before => .rule (hruns before)⟩

theorem Begins.wrapNode (h : Begins n kind plan reader) (nodeKind : NodeKind) {tree : Tree}
    {left : Completed} (hleft : p.Completes tree (left, q)) (hq : q.rest.length ≤ n)
    (hcurrent : q.current = kind) :
    p.Grows tree (left, q) (.wrap nodeKind plan) (q.wrapNode left nodeKind reader) ∧
      (q.wrapNode left nodeKind reader).2.rest.length < n := by
  obtain ⟨hfollows, hlt⟩ := h (q.wrap left).2 hq hcurrent
  exact ⟨hfollows.wraps nodeKind hleft, hlt⟩

theorem Settles.look {choose : TokenKind → String → Plan} {s : Completed × Parser}
    (h : p.Settles (choose p.current p.currentText) s) : p.Settles (.look choose) s := by
  obtain ⟨children, reports, hcompletes, hreports, hruns⟩ := h.settles
  exact ⟨children, reports, hcompletes, hreports, fun before => .look (hruns before)⟩

theorem Settles.rule {called : Rule} {s : Completed × Parser}
    (h : p.Settles (Plan.body called) s) : p.Settles (.rule called) s := by
  obtain ⟨children, reports, hcompletes, hreports, hruns⟩ := h.settles
  exact ⟨children, reports, hcompletes, hreports, fun before => .rule (hruns before)⟩

theorem Grows.trans {tree : Tree} {s t u : Completed × Parser} (h : p.Grows tree s plan t)
    (k : ∀ children, p.Completes (.node t.1.kind children) t →
      p.Grows (.node t.1.kind children) t other u) :
    p.Grows tree s (plan.seq other) u := by
  obtain ⟨children, reports, hcompletes, hreports, hruns⟩ := h.grows
  obtain ⟨more, others, hcompletes', hreports', hruns'⟩ := (k _ hcompletes).grows
  exact ⟨more, reports ++ others, hcompletes', hreports.trans hreports', fun before =>
    .seq (hruns before) (hruns' before)⟩

theorem Settles.trans {s t : Completed × Parser} (h : p.Settles plan s)
    (k : ∀ children, p.Completes (.node s.1.kind children) s →
      p.Grows (.node s.1.kind children) s other t) : p.Settles (plan.seq other) t := by
  obtain ⟨children, reports, hcompletes, hreports, hruns⟩ := h.settles
  obtain ⟨more, others, hcompletes', hreports', hruns'⟩ := (k _ hcompletes).grows
  exact ⟨more, reports ++ others, hcompletes', hreports.trans hreports', fun before =>
    .seq (hruns before) (hruns' before)⟩

/-- What is read behind the finished node `tree` goes with it into a node of the kind. -/
structure Embeds (q : Parser) (tree : Tree) (plan : Plan) (kind : NodeKind) (r : Parser) :
    Prop where
  embeds : ∃ trees reports, q.Reads trees r ∧ q.Reports reports r ∧
    ∀ before, plan.Runs (q.cursor (tree :: before))
      (r.cursor (.node kind (tree :: trees) :: before)) reports

theorem Embeds.look {choose : TokenKind → String → Plan} {tree : Tree} {kind : NodeKind}
    (h : q.Embeds tree (choose q.current q.currentText) kind r) :
    q.Embeds tree (.look choose) kind r := by
  obtain ⟨trees, reports, hreads, hreports, hruns⟩ := h.embeds
  exact ⟨trees, reports, hreads, hreports, fun before => .look (hruns before)⟩

theorem Follows.embeds (h : q.Follows plan r) (tree : Tree) (kind : NodeKind) :
    q.Embeds tree (.wrap kind plan) kind r := by
  obtain ⟨trees, reports, hreads, hreports, hruns⟩ := h.follows
  refine ⟨trees, reports, hreads, hreports, fun before => ?_⟩
  have hwrap : Plan.Runs (.wrap kind plan) ⟨q.rest, tree :: before⟩ _ reports :=
    .wrap (hruns [tree])
  rwa [List.reverse_append, List.reverse_reverse] at hwrap

/-- The last tree is reported if it has no effect, before the rest of its node is read. -/
theorem effect_embeds (h : Realizes n plan reader) (hq : q.rest.length < n) {tree : Tree}
    (kind : NodeKind) {hasEffect : Bool} (heffect : hasEffect = (q.cursor [tree]).hasEffect) :
    q.Embeds tree (.wrap kind (.seq .effect plan)) kind
      (reader (if hasEffect then q else q.fail .noEffect)) := by
  obtain ⟨reports, hreads, hreports, hruns⟩ : ∃ reports,
      q.Reads [] (if hasEffect then q else q.fail .noEffect) ∧
      q.Reports reports (if hasEffect then q else q.fail .noEffect) ∧
      Plan.effect.Runs (q.cursor [tree]) (q.cursor [tree]) reports := by
    cases hasEffect with
    | true => exact ⟨[], .refl q, .refl q, .effect heffect.symm⟩
    | false =>
        exact ⟨_, ⟨⟨[], .nil, by simp [fail]⟩, rfl⟩, q.reports_fail .noEffect,
          .noEffect heffect.symm⟩
  have hrest : (if hasEffect then q else q.fail .noEffect).rest = q.rest := hreads.taken.symm
  obtain ⟨trees, others, hreads', hreports', hruns'⟩ := (h _ (by rwa [hrest])).follows
  refine ⟨trees, reports ++ others, hreads.trans hreads', hreports.trans hreports',
    fun before => ?_⟩
  have hbody := hruns' [tree]
  rw [cursor, hrest] at hbody
  have hwrap : Plan.Runs (.wrap kind (.seq .effect plan)) ⟨q.rest, tree :: before⟩ _ _ :=
    .wrap (.seq hruns hbody)
  rwa [List.reverse_append, List.reverse_reverse] at hwrap

/-- A node whose start was reserved before its kind was known. -/
theorem Settles.embeds {s : Completed × Parser} {kind : NodeKind} (h : p.reserve.2.Settles plan s)
    (k : ∀ children, p.reserve.2.Completes (.node s.1.kind children) s →
      s.2.Embeds (.node s.1.kind children) other kind r) :
    p.Follows (plan.seq other) (r.complete p.reserve.1 kind).2 := by
  obtain ⟨children, reports, hcompletes, hreports, hruns⟩ := h.settles
  obtain ⟨trees, others, hreads, hreports', hruns'⟩ := (k children hcompletes).embeds
  have hnode := (hcompletes.reads.trans hreads).completes kind
  have hall := hreports.trans hreports'
  refine ⟨[.node kind (.node s.1.kind children :: trees)], reports ++ others, hnode.reads,
    ⟨hall.errors, hall.textEnd⟩, fun before => ?_⟩
  exact .seq (hruns before) (hruns' before)

end Parser

end Gml
