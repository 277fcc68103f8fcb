import Gml.Lint.Document
import Gml.Proofs.SymbolIndex.Runs

/-!
# Rounds of analysis

A round of analysis is one commit: of what the names of the document give, or of nothing
if the text has errors or the names were not asked for. So what the index holds for a
document comes from the newest accepted round that read its names.
-/
namespace Gml

namespace LintDocument

/-- The document with its text parsed. -/
def withParse (d : LintDocument) : LintDocument := { d with parsed := some (.ofText d.text) }

/-- What the names in the text give. -/
def reading (d : LintDocument) : Contribution := Names.contribution (d.view (.ofText d.text))

theorem tree_view (d : LintDocument) : (d.view (.ofText d.text)).tree = (parse d.text).tree := by
  rw [view, ParsedText.ofText]

/-- Whether a round reads the names of the document. -/
def readsNames (d : LintDocument) (passes : Passes) : Bool := (parse d.text).ok && passes.names

/-- What a round commits. -/
def found (d : LintDocument) (passes : Passes) : Commit where
  contribution := if d.readsNames passes then some d.reading else none
  doc := if (parse d.text).ok && passes.docs then d.withParse.readDoc.1 else .unchanged
  contentHash := if d.readsNames passes then some (ContentHash.ofText d.text) else none

theorem cleanParse?_withParse {d : LintDocument} (h : (parse d.text).ok = true) :
    d.withParse.cleanParse? = some (.ofText d.text) := by
  rw [cleanParse?, withParse, Option.filter_some, if_pos]
  exact h

theorem contribution?_withParse {d : LintDocument} (h : (parse d.text).ok = true) :
    d.withParse.contribution? = some d.reading := by
  rw [contribution?, cleanParse?_withParse h]
  rfl

theorem checkCalls_eq (d : LintDocument) (t : SymbolTable) (mode : LintMode) :
    ∃ pending, d.checkCalls t mode = { d with pending } := by
  rw [checkCalls]
  split
  · exact ⟨d.pending, rfl⟩
  · exact ⟨_, rfl⟩

theorem text_readDoc (d : LintDocument) : d.readDoc.2.text = d.text := by
  unfold readDoc
  split
  · rfl
  · rfl

/-- The findings that wait have no part in the documentation. -/
theorem readDoc_pending (d : LintDocument) (pending : List Diagnostic) :
    ({ d with pending } : LintDocument).readDoc.1 = d.readDoc.1 := by
  have hparse : ({ d with pending } : LintDocument).cleanParse? = d.cleanParse? := rfl
  unfold readDoc
  rw [hparse]
  cases d.kind.isScript with
  | false => rfl
  | true =>
      cases d.cleanParse? with
      | none => rfl
      | some parsed => rfl

/-- A text with errors installs nothing and gives its first error as the only finding. -/
theorem runCycle_of_errors {d : LintDocument} (h : (parse d.text).ok = false)
    (index : SymbolIndex) (ticket : Ticket) (passes : Passes) (mode : LintMode) :
    d.runCycle index ticket passes mode =
      (⟨d.withParse.parseDiagnostics, false, !(index.accept ticket).1⟩, d.withParse,
        (index.accept ticket).2) := by
  have hmatch : d.matchText = (false, d.withParse) := by
    rw [← h]
    rfl
  rw [runCycle, hmatch]

theorem found_of_ok {d : LintDocument} (h : (parse d.text).ok = true) (passes : Passes) :
    d.found passes =
      { contribution := if passes.names then some d.reading else none
        doc := if passes.docs then d.withParse.readDoc.1 else .unchanged
        contentHash := if passes.names then some (ContentHash.ofText d.text) else none } := by
  simp only [found, readsNames, h, Bool.true_and]

/-- A text without errors makes the round a commit. -/
theorem runCycle_of_ok {d : LintDocument} (h : (parse d.text).ok = true) (index : SymbolIndex)
    (ticket : Ticket) (passes : Passes) (mode : LintMode) :
    (d.runCycle index ticket passes mode).2.2 = (index.commit ticket (d.found passes)).2 ∧
      (d.runCycle index ticket passes mode).1.stale =
        (index.commit ticket (d.found passes)).1.isNone := by
  have hmatch : d.matchText = (true, d.withParse) := by
    rw [← h]
    rfl
  obtain ⟨d', hd', hcontribution, hdoc, htext⟩ : ∃ d' : LintDocument,
      (if passes.calls then d.withParse.checkCalls index.table mode else d.withParse) = d' ∧
        d'.contribution? = some d.reading ∧ d'.readDoc.1 = d.withParse.readDoc.1 ∧
        d'.text = d.text := by
    split
    · obtain ⟨pending, hchecked⟩ := checkCalls_eq d.withParse index.table mode
      refine ⟨_, hchecked, ?_, readDoc_pending d.withParse pending, rfl⟩
      exact contribution?_withParse h
    · exact ⟨_, rfl, contribution?_withParse h, rfl, rfl⟩
  have hdocs : (if passes.docs then d'.readDoc else (.unchanged, d')).2.text = d.text := by
    split
    · rw [text_readDoc, htext]
    · exact htext
  rw [runCycle, hmatch, found_of_ok h]
  dsimp only
  rw [hd', hdocs, hcontribution, apply_ite Prod.fst, hdoc, apply_ite (Option.map _)]
  exact ⟨rfl, rfl⟩

/-- Each round is a commit of what it found. -/
theorem runCycle_eq (d : LintDocument) (index : SymbolIndex) (ticket : Ticket) (passes : Passes)
    (mode : LintMode) :
    (d.runCycle index ticket passes mode).2.2 = (index.commit ticket (d.found passes)).2 ∧
      (d.runCycle index ticket passes mode).1.stale =
        (index.commit ticket (d.found passes)).1.isNone := by
  cases h : (parse d.text).ok with
  | true => exact runCycle_of_ok h index ticket passes mode
  | false =>
      have hfound : d.found passes = {} := by
        simp only [found, readsNames, h, Bool.false_and, Bool.false_eq_true, if_false]
      rw [runCycle_of_errors h, hfound, ← Option.not_isSome,
        ← (SymbolIndex.accept_eq_commit index ticket).1,
        ← (SymbolIndex.accept_eq_commit index ticket).2]
      exact ⟨rfl, rfl⟩

theorem parseDiagnostics_of_errors {d : LintDocument} (h : (parse d.text).ok = false) :
    ∃ error, (parse d.text).firstError? = some error ∧
      d.withParse.parseDiagnostics = [⟨.unparsable, .parsing, error.span, error.message⟩] := by
  rw [Parse.ok, List.isEmpty_eq_false_iff] at h
  obtain ⟨error, rest, herrors⟩ := List.exists_cons_of_ne_nil h
  have hfirst : (parse d.text).firstError? = some error := by
    rw [Parse.firstError?, herrors, List.head?_cons]
  refine ⟨error, hfirst, ?_⟩
  have hparsed : d.withParse.parsed.bind (·.parse.firstError?) = some error := hfirst
  rw [parseDiagnostics, hparsed]

end LintDocument

/-! ### Runs of rounds -/

namespace Lint

/-- A round to run, with a document in any state and any ticket. -/
structure Cycle where
  ticket : Ticket
  document : LintDocument
  passes : Passes
  mode : LintMode

def Cycle.run (cycle : Cycle) (index : SymbolIndex) : LintOutcome × LintDocument × SymbolIndex :=
  cycle.document.runCycle index cycle.ticket cycle.passes cycle.mode

/-- A round with its outcome. -/
structure Round where
  cycle : Cycle
  outcome : LintOutcome

/-- A round that was accepted for a document and read its names. -/
structure Round.Counts (round : Round) (uri : Uri) : Prop where
  uri : round.cycle.ticket.uri = uri
  accepted : round.outcome.stale = false
  parses : (parse round.cycle.document.text).ok = true
  names : round.cycle.passes.names = true

/-- The round that counts for a document and has the greatest sequence of those that do. -/
def Round.Newest (round : Round) (rounds : List Round) (uri : Uri) : Prop :=
  round ∈ rounds ∧ round.Counts uri ∧
    ∀ other ∈ rounds, other.Counts uri → other.cycle.ticket.sequence ≤ round.cycle.ticket.sequence

inductive Step where
  | issue (uri : Uri)
  | cycle (cycle : Cycle)

/-- An index with the rounds so far, the latest first. -/
structure Run where
  index : SymbolIndex
  rounds : List Round := []

namespace Run

def step (run : Run) : Step → Run
  | .issue uri => { run with index := (run.index.issue uri).2 }
  | .cycle cycle =>
      let (outcome, _, index) := cycle.run run.index
      { index, rounds := ⟨cycle, outcome⟩ :: run.rounds }

/-- A run that starts before any document was read. -/
def ofSteps (index : SymbolIndex) (steps : List Step) : Run :=
  steps.foldl step { index := { index with table := index.table.blank } }

end Run

open SymbolIndex (Call Follows)

/-- The call that a round made. -/
def Round.call (round : Round) : Call :=
  ⟨round.cycle.ticket, round.cycle.document.found round.cycle.passes, !round.outcome.stale⟩

theorem Round.tells_call_iff {α : Type} {matter : Commit → Option α} (value : LintDocument → α)
    (hmatter : ∀ d passes, matter (LintDocument.found d passes) =
      if d.readsNames passes then some (value d) else none)
    (round : Round) (uri : Uri) (v : α) :
    round.call.tells matter uri = some v ↔ round.Counts uri ∧ value round.cycle.document = v := by
  rw [Call.tells_eq_some_iff, call, hmatter, Option.ite_none_right_eq_some, Bool.not_eq_true',
    LintDocument.readsNames, Bool.and_eq_true, Option.some.injEq]
  constructor
  · rintro ⟨haccepted, huri, ⟨hparses, hnames⟩, hvalue⟩
    exact ⟨⟨huri, haccepted, hparses, hnames⟩, hvalue⟩
  · rintro ⟨hcounts, hvalue⟩
    exact ⟨hcounts.accepted, hcounts.uri, ⟨hcounts.parses, hcounts.names⟩, hvalue⟩

/-- What the calls told last is what the newest round that counts gives. -/
theorem newest_call_iff {α : Type} {matter : Commit → Option α} (value : LintDocument → α)
    (hmatter : ∀ d passes, matter (LintDocument.found d passes) =
      if d.readsNames passes then some (value d) else none)
    (rounds : List Round) (uri : Uri) (v : α) :
    SymbolIndex.Newest (rounds.map Round.call) matter uri v ↔
      ∃ round : Round, round.Newest rounds uri ∧ value round.cycle.document = v := by
  have hsome : ∀ round : Round, (round.call.tells matter uri).isSome ↔ round.Counts uri := by
    intro round
    rw [Option.isSome_iff_exists]
    constructor
    · rintro ⟨v, hv⟩
      exact ((round.tells_call_iff value hmatter uri v).mp hv).1
    · intro hcounts
      exact ⟨_, (round.tells_call_iff value hmatter uri _).mpr ⟨hcounts, rfl⟩⟩
  simp only [SymbolIndex.Newest, List.mem_map, exists_exists_and_eq_and, forall_exists_index,
    and_imp, forall_apply_eq_imp_iff₂, Round.tells_call_iff value hmatter, hsome]
  constructor
  · rintro ⟨round, hround, ⟨hcounts, hvalue⟩, hmax⟩
    exact ⟨round, ⟨hround, hcounts, hmax⟩, hvalue⟩
  · rintro ⟨round, ⟨hround, hcounts, hmax⟩, hvalue⟩
    exact ⟨round, hround, ⟨hcounts, hvalue⟩, hmax⟩

theorem Run.follows_step {run : Run} (h : Follows run.index (run.rounds.map Round.call))
    (step : Step) : Follows (run.step step).index ((run.step step).rounds.map Round.call) := by
  cases step with
  | issue uri => exact { h with }
  | cycle cycle =>
      obtain ⟨hindex, hstale⟩ :=
        cycle.document.runCycle_eq run.index cycle.ticket cycle.passes cycle.mode
      have hcommit := h.commit cycle.ticket (cycle.document.found cycle.passes)
      have hcall : Round.call ⟨cycle, (cycle.run run.index).1⟩ =
          run.index.callOf cycle.ticket (cycle.document.found cycle.passes) := by
        rw [Round.call, SymbolIndex.callOf, Cycle.run, hstale, Option.not_isNone]
      rw [← hcall, ← hindex] at hcommit
      exact hcommit

theorem Run.follows_foldl {run : Run} (h : Follows run.index (run.rounds.map Round.call))
    (steps : List Step) :
    Follows (steps.foldl step run).index ((steps.foldl step run).rounds.map Round.call) := by
  induction steps generalizing run with
  | nil => exact h
  | cons step rest ih => exact ih (follows_step h step)

/-- After any rounds in any order each document has the contribution and the hash of the
text that its newest accepted round read, where a round whose text has errors, or that
leaves the names out, does not count. A text with errors leaves the table as it is, and
its one finding is the first error. -/
theorem rounds_keep_newest_reading (index : SymbolIndex) (steps : List Step) :
    (∀ uri,
      (∀ c, (Run.ofSteps index steps).index.table.contribution? uri = some c ↔
        c.isEmpty = false ∧ ∃ round : Round, round.Newest (Run.ofSteps index steps).rounds uri ∧
          round.cycle.document.reading = c) ∧
      (∀ hash, (Run.ofSteps index steps).index.table.hashes.get? uri = some hash ↔
        ∃ round : Round, round.Newest (Run.ofSteps index steps).rounds uri ∧
          ContentHash.ofText round.cycle.document.text = hash)) ∧
    ∀ cycle : Cycle, (parse cycle.document.text).ok = false →
      (cycle.run (Run.ofSteps index steps).index).2.2.table =
          (Run.ofSteps index steps).index.table ∧
        ∃ error d, (parse cycle.document.text).firstError? = some error ∧
          (cycle.run (Run.ofSteps index steps).index).1.diagnostics = [d] ∧
          d.code.code = "E001" ∧ d.span = error.span := by
  have hstart : Follows { index with table := index.table.blank } [] :=
    .nil (fun _ => rfl) (fun _ => rfl)
  have h : Follows (Run.ofSteps index steps).index
      ((Run.ofSteps index steps).rounds.map Round.call) := Run.follows_foldl hstart steps
  generalize Run.ofSteps index steps = run at h
  refine ⟨fun uri => ⟨?_, ?_⟩, ?_⟩
  · intro c
    rw [h.contribution_iff, newest_call_iff LintDocument.reading fun d passes => rfl]
  · intro hash
    rw [h.hash_iff, newest_call_iff (fun d => ContentHash.ofText d.text) fun d passes => rfl]
  · intro cycle herrors
    obtain ⟨error, hfirst, hfindings⟩ := LintDocument.parseDiagnostics_of_errors herrors
    rw [Cycle.run, LintDocument.runCycle_of_errors herrors]
    exact ⟨SymbolIndex.table_accept run.index cycle.ticket, error, _, hfirst, hfindings, rfl, rfl⟩

end Lint

end Gml
