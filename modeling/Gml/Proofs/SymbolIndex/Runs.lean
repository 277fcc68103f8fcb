import Gml.Proofs.SymbolIndex.Commits

/-!
# Runs of a symbol index

Tickets are issued one by one and come back in any order, some with a result, some with
nothing to install, and some more than once. Whatever the order, a ticket is accepted if
it outranks all that were accepted before for its document, and in the end the index
holds what the newest accepted results told.
-/
namespace Gml

/-- The table with its resources and built-ins before any document was read. -/
def SymbolTable.blank (t : SymbolTable) : SymbolTable :=
  { t with contributions := .empty, hashes := .empty }

namespace SymbolIndex

/-- One call. A ticket is named by the number of tickets issued after it. -/
inductive Step where
  | issue (uri : Uri)
  | commit (age : Nat) (found : Commit)
  | acknowledge (age : Nat)

/-- An index with its tickets and its calls so far, the latest of each first. -/
structure Run where
  index : SymbolIndex
  issued : List Ticket := []
  calls : List Call := []

namespace Run

/-- Makes a call. A ticket that was not issued cannot be used. -/
def step (run : Run) : Step → Run
  | .issue uri =>
      let (ticket, index) := run.index.issue uri
      { run with index, issued := ticket :: run.issued }
  | .commit age found =>
      match run.issued[age]? with
      | none => run
      | some ticket =>
          { run with
            index := (run.index.commit ticket found).2
            calls := run.index.callOf ticket found :: run.calls }
  | .acknowledge age =>
      match run.issued[age]? with
      | none => run
      | some ticket =>
          let (accepted, index) := run.index.accept ticket
          { run with index, calls := ⟨ticket, {}, accepted⟩ :: run.calls }

/-- A run of a new index. -/
def ofSteps (t : SymbolTable) (steps : List Step) : Run :=
  steps.foldl step { index := { table := t.blank } }

/-- The ticket issued last for a document. -/
def lastIssued? (run : Run) (uri : Uri) : Option Ticket := run.issued.find? (·.uri == uri)

theorem uri_of_lastIssued? {run : Run} {uri : Uri} {ticket : Ticket}
    (h : run.lastIssued? uri = some ticket) : ticket.uri = uri := by
  have huri := List.find?_some h
  exact eq_of_beq huri

end Run

/-- A ticket is greater than all that were accepted for its document. -/
def Outranks (ticket : Ticket) (calls : List Call) : Prop :=
  ∀ call ∈ calls, call.accepted = true → call.ticket.uri = ticket.uri →
    call.ticket.sequence < ticket.sequence

/-- What holds all along a run. -/
structure Run.Valid (run : Run) : Prop where
  follows : Follows run.index run.calls
  numbered : ∀ ticket ∈ run.issued,
    0 < ticket.sequence ∧ ticket.sequence < run.index.nextSequence
  next_pos : 0 < run.index.nextSequence
  descending : run.issued.Pairwise fun later earlier => earlier.sequence < later.sequence
  used : ∀ call ∈ run.calls, call.ticket ∈ run.issued
  reached : ∀ uri, run.index.last uri = 0 ∨
    ∃ call ∈ run.calls, call.accepted = true ∧ call.ticket.uri = uri ∧
      call.ticket.sequence = run.index.last uri
  decided : ∀ later call earlier, run.calls = later ++ call :: earlier →
    (call.accepted = true ↔ Outranks call.ticket earlier)

namespace Run.Valid

variable {run : Run}

theorem start (t : SymbolTable) : Valid { index := { table := t.blank } } where
  follows := .nil (fun _ => rfl) (fun _ => rfl)
  numbered := nofun
  next_pos := Nat.one_pos
  descending := .nil
  used := nofun
  reached := fun _ => .inl rfl
  decided := by
    intro later call earlier h
    exact absurd h.symm (List.append_ne_nil_of_right_ne_nil later (List.cons_ne_nil call earlier))

theorem accept_iff (h : run.Valid) {ticket : Ticket} (hticket : ticket ∈ run.issued) :
    (run.index.accept ticket).1 = true ↔ Outranks ticket run.calls := by
  rw [accept_eq, decide_eq_true_iff]
  constructor
  · intro hlt call hcall haccepted huri
    have hle := h.follows.bounded call hcall haccepted
    rw [huri] at hle
    omega
  · intro houtranks
    rcases h.reached ticket.uri with hzero | ⟨call, hcall, haccepted, huri, hlast⟩
    · rw [hzero]
      exact (h.numbered ticket hticket).1
    · rw [← hlast]
      exact houtranks call hcall haccepted huri

theorem issue (h : run.Valid) (uri : Uri) : (run.step (.issue uri)).Valid where
  follows := { h.follows with }
  numbered := by
    refine List.forall_mem_cons.mpr ⟨⟨h.next_pos, Nat.lt_succ_self _⟩, ?_⟩
    intro ticket hticket
    exact ⟨(h.numbered ticket hticket).1, Nat.lt_succ_of_lt (h.numbered ticket hticket).2⟩
  next_pos := Nat.succ_pos _
  descending := List.pairwise_cons.mpr ⟨fun ticket hticket => (h.numbered ticket hticket).2,
    h.descending⟩
  used := fun call hcall => List.mem_cons_of_mem _ (h.used call hcall)
  reached := h.reached
  decided := h.decided

theorem commit (h : run.Valid) {ticket : Ticket} (hticket : ticket ∈ run.issued)
    (found : Commit) :
    Valid { run with
      index := (run.index.commit ticket found).2
      calls := run.index.callOf ticket found :: run.calls } where
  follows := h.follows.commit ticket found
  numbered := by
    simp only [nextSequence_commit]
    exact h.numbered
  next_pos := by
    simp only [nextSequence_commit]
    exact h.next_pos
  descending := h.descending
  used := List.forall_mem_cons.mpr ⟨hticket, h.used⟩
  reached := by
    intro uri
    rw [last_commit]
    split
    next haccept =>
        refine .inr ⟨_, List.mem_cons_self, ?_, haccept.2.symm, rfl⟩
        exact (commit_eq run.index ticket found).1.trans haccept.1
    · rcases h.reached uri with hzero | ⟨call, hcall, hlast⟩
      · exact .inl hzero
      · exact .inr ⟨call, List.mem_cons_of_mem _ hcall, hlast⟩
  decided := by
    intro later call earlier hcalls
    cases later with
    | nil =>
        obtain ⟨rfl, rfl⟩ := List.cons.inj hcalls
        rw [callOf, (commit_eq run.index ticket found).1]
        exact h.accept_iff hticket
    | cons first later => exact h.decided later call earlier (List.cons.inj hcalls).2

theorem step (h : run.Valid) (step : Step) : (run.step step).Valid := by
  cases step with
  | issue uri => exact h.issue uri
  | commit age found =>
      rw [Run.step]
      split
      · exact h
      next ticket hticket => exact h.commit (List.mem_of_getElem? hticket) found
  | acknowledge age =>
      rw [Run.step]
      split
      · exact h
      next ticket hticket =>
          have hcommit := h.commit (List.mem_of_getElem? hticket) {}
          rw [callOf, ← (accept_eq_commit run.index ticket).1,
            ← (accept_eq_commit run.index ticket).2] at hcommit
          exact hcommit

theorem foldl_step (h : run.Valid) (steps : List Step) : (steps.foldl Run.step run).Valid := by
  induction steps generalizing run with
  | nil => exact h
  | cons step rest ih => exact ih (h.step step)

/-- No ticket of a document is greater than the one issued last. -/
theorem eq_or_sequence_lt (h : run.Valid) {uri : Uri} {ticket : Ticket}
    (hlast : run.lastIssued? uri = some ticket) :
    ∀ other ∈ run.issued, other.uri = uri →
      other = ticket ∨ other.sequence < ticket.sequence := by
  intro other hother huri
  obtain ⟨_, later, earlier, hissued, hlater⟩ := List.find?_eq_some_iff_append.mp hlast
  have hdescending := h.descending
  rw [hissued] at hother hdescending
  rcases List.mem_append.mp hother with hmem | hmem
  · have hne := hlater other hmem
    simp [huri] at hne
  · rcases List.mem_cons.mp hmem with heq | hmem
    · exact .inl heq
    · have hcons := (List.pairwise_append.mp hdescending).2.1
      exact .inr ((List.pairwise_cons.mp hcons).1 other hmem)

/-- The ticket issued last for a document was accepted once it was used. -/
theorem exists_accepted_of_used (h : run.Valid) {uri : Uri} {ticket : Ticket}
    (hlast : run.lastIssued? uri = some ticket)
    (hused : ∃ call ∈ run.calls, call.ticket = ticket) :
    ∃ call ∈ run.calls, call.ticket = ticket ∧ call.accepted = true := by
  have huri : ticket.uri = uri := uri_of_lastIssued? hlast
  obtain ⟨call, hcall, hticket⟩ := hused
  obtain ⟨later, earlier, hcalls⟩ := List.append_of_mem hcall
  -- If this call was rejected, an equal ticket came before it, for no other is as great.
  by_contra hnone
  have hrejected : ¬ call.accepted = true := fun haccepted => hnone ⟨call, hcall, hticket, haccepted⟩
  apply hrejected
  rw [h.decided later call earlier hcalls]
  intro other hother haccepted hsame
  have hmem : other ∈ run.calls := by
    rw [hcalls]
    exact List.mem_append_right later (List.mem_cons_of_mem call hother)
  rw [hticket] at hsame ⊢
  rcases h.eq_or_sequence_lt hlast other.ticket (h.used other hmem) (hsame.trans huri) with
    heq | hlt
  · exact absurd ⟨other, hmem, heq, haccepted⟩ hnone
  · exact hlt

/-- Once the last ticket of a document was accepted, what it told about a matter is the
newest there is. -/
theorem newest_of_last (h : run.Valid) {uri : Uri} {call : Call} (hcall : call ∈ run.calls)
    (hlast : run.lastIssued? uri = some call.ticket) (haccepted : call.accepted = true)
    {α : Type} {matter : Commit → Option α} {value : α} (hvalue : matter call.found = some value) :
    Newest run.calls matter uri value := by
  have huri : call.ticket.uri = uri := uri_of_lastIssued? hlast
  refine ⟨call, hcall, Call.tells_eq_some_iff.mpr ⟨haccepted, huri, hvalue⟩, ?_⟩
  intro other hother hsome
  obtain ⟨_, htells⟩ := Option.isSome_iff_exists.mp hsome
  obtain ⟨_, hotheruri, _⟩ := Call.tells_eq_some_iff.mp htells
  rcases h.eq_or_sequence_lt hlast other.ticket (h.used other hother) hotheruri with heq | hlt
  · exact Nat.le_of_eq (congrArg Ticket.sequence heq)
  · exact Nat.le_of_lt hlt

end Run.Valid

/-- In every run of a new index a ticket is accepted if and only if it outranks those
accepted before for its document; a rejected commit leaves the index as it is; and each
document has the contribution and the hash of the accepted call with the greatest
sequence among those that carried one. If each ticket of a document came back with both,
they are those of the ticket issued last. -/
theorem runs_keep_newest (t : SymbolTable) (steps : List Step) :
    (∀ later call earlier, (Run.ofSteps t steps).calls = later ++ call :: earlier →
      (call.accepted = true ↔ Outranks call.ticket earlier)) ∧
    (∀ ticket found, ((Run.ofSteps t steps).index.commit ticket found).1 = none →
      ((Run.ofSteps t steps).index.commit ticket found).2 = (Run.ofSteps t steps).index) ∧
    ∀ uri,
      (∀ c, (Run.ofSteps t steps).index.table.contribution? uri = some c ↔
        c.isEmpty = false ∧ Newest (Run.ofSteps t steps).calls Commit.contribution uri c) ∧
      (∀ hash, (Run.ofSteps t steps).index.table.hashes.get? uri = some hash ↔
        Newest (Run.ofSteps t steps).calls Commit.contentHash uri hash) ∧
      ∀ ticket, (Run.ofSteps t steps).lastIssued? uri = some ticket →
        (∀ issued ∈ (Run.ofSteps t steps).issued, issued.uri = uri →
          ∃ call ∈ (Run.ofSteps t steps).calls, call.ticket = issued) →
        (∀ call ∈ (Run.ofSteps t steps).calls, call.ticket.uri = uri →
          call.found.contribution.isSome ∧ call.found.contentHash.isSome) →
        ∃ call ∈ (Run.ofSteps t steps).calls, call.ticket = ticket ∧ call.accepted = true ∧
          (Run.ofSteps t steps).index.table.contribution? uri =
            call.found.contribution.bind Contribution.stored ∧
          (Run.ofSteps t steps).index.table.hashes.get? uri = call.found.contentHash := by
  have h : (Run.ofSteps t steps).Valid := (Run.Valid.start t).foldl_step steps
  generalize Run.ofSteps t steps = run at h
  refine ⟨h.decided, ?_, fun uri => ⟨h.follows.contribution_iff uri, h.follows.hash_iff uri, ?_⟩⟩
  · intro ticket found hstale
    obtain ⟨hanswer, hindex⟩ := commit_eq run.index ticket found
    rw [hindex, ← hanswer, hstale]
    rfl
  · intro ticket hlast hused hboth
    have huri : ticket.uri = uri := Run.uri_of_lastIssued? hlast
    obtain ⟨call, hcall, rfl, haccepted⟩ :=
      h.exists_accepted_of_used hlast (hused ticket (List.mem_of_find?_eq_some hlast) huri)
    obtain ⟨hc, hhash⟩ := hboth call hcall huri
    obtain ⟨c, hc⟩ := Option.isSome_iff_exists.mp hc
    obtain ⟨hash, hhash⟩ := Option.isSome_iff_exists.mp hhash
    refine ⟨call, hcall, rfl, haccepted, ?_, ?_⟩
    · rw [h.follows.contribution, hc,
        (newest_iff h.follows.increasing _ _ _).mp (h.newest_of_last hcall hlast haccepted hc)]
    · rw [h.follows.hash, hhash,
        (newest_iff h.follows.increasing _ _ _).mp (h.newest_of_last hcall hlast haccepted hhash)]

end SymbolIndex

end Gml
