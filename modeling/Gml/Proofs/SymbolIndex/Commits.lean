import Gml.Proofs.SymbolTable.Consistency
import Gml.SymbolIndex
import Mathlib.Data.List.Basic

/-!
# Commits and what they leave

A commit answers whether its ticket was accepted. The answers of a run are kept in a
log, the latest call first. Of the accepted calls for one document the later has the
greater sequence, so what the index holds for a document is what the accepted call with
the greatest sequence told about it.
-/
namespace Gml

/-! ### One commit and the table -/

/-- What is stored of a contribution. -/
def Contribution.stored (c : Contribution) : Option Contribution :=
  if c.isEmpty then none else some c

theorem Contribution.stored_eq_some_iff {c c' : Contribution} :
    c.stored = some c' ↔ c = c' ∧ c'.isEmpty = false := by
  rw [stored]
  split
  next hempty =>
      constructor
      · exact nofun
      · rintro ⟨rfl, hnonempty⟩
        rw [hempty] at hnonempty
        cases hnonempty
  next hnonempty =>
      constructor
      · intro heq
        cases heq
        exact ⟨rfl, Bool.eq_false_iff.mpr hnonempty⟩
      · rintro ⟨rfl, _⟩
        rfl

namespace SymbolTable

theorem contribution?_replaceContribution (t : SymbolTable) (uri other : Uri) (c : Contribution) :
    (t.replaceContribution uri c).2.contribution? other =
      if other = uri then c.stored else t.contribution? other := by
  have hdetach := contributions_detach t uri other
  rw [replaceContribution, Contribution.stored, contribution?, contribution?]
  dsimp only
  split
  · rw [hdetach]
  · rw [Table.get?_set, hdetach]
    split
    · rfl
    · rfl

theorem hashes_detach (t : SymbolTable) (uri : Uri) : (t.detach uri).hashes = t.hashes := by
  rw [detach]
  split
  · rfl
  · rfl

theorem hashes_replaceContribution (t : SymbolTable) (uri : Uri) (c : Contribution) :
    (t.replaceContribution uri c).2.hashes = t.hashes := by
  rw [← hashes_detach t uri, replaceContribution]
  dsimp only
  split
  · rfl
  · rfl

end SymbolTable

namespace SymbolIndex

/-- The documentation of a script is no part of what a document contributes. -/
theorem updateDoc_frame (t : SymbolTable) (uri : Uri) (doc : DocUpdate) :
    (updateDoc t uri doc).contributions = t.contributions ∧
      (updateDoc t uri doc).hashes = t.hashes := by
  unfold updateDoc
  split
  next doc script _ =>
      rw [SymbolTable.setScriptDoc]
      cases t.scripts.get? script.name with
      | none => exact ⟨rfl, rfl⟩
      | some _ => exact ⟨rfl, rfl⟩
  · exact ⟨rfl, rfl⟩
  · exact ⟨rfl, rfl⟩

theorem contribution?_install (t : SymbolTable) (uri other : Uri) (found : Commit) :
    (install t uri found).2.contribution? other =
      if other = uri then found.contribution.elim (t.contribution? other) Contribution.stored
      else t.contribution? other := by
  obtain ⟨contribution, doc, contentHash⟩ := found
  have hdoc := fun t => (updateDoc_frame t uri doc).1
  cases contribution with
  | none =>
      rw [Option.elim_none, ite_self]
      cases contentHash with
      | none => simp only [install, SymbolTable.contribution?, hdoc]
      | some hash => simp only [install, SymbolTable.contribution?, SymbolTable.setHash, hdoc]
  | some c =>
      rw [Option.elim_some, ← SymbolTable.contribution?_replaceContribution]
      cases contentHash with
      | none => simp only [install, SymbolTable.contribution?, hdoc]
      | some hash => simp only [install, SymbolTable.contribution?, SymbolTable.setHash, hdoc]

theorem hashes_install (t : SymbolTable) (uri other : Uri) (found : Commit) :
    (install t uri found).2.hashes.get? other =
      if other = uri then found.contentHash.or (t.hashes.get? other)
      else t.hashes.get? other := by
  obtain ⟨contribution, doc, contentHash⟩ := found
  have hdoc := fun t => (updateDoc_frame t uri doc).2
  cases contentHash with
  | none =>
      rw [Option.none_or, ite_self]
      cases contribution with
      | none => simp only [install, hdoc]
      | some c => simp only [install, hdoc, SymbolTable.hashes_replaceContribution]
  | some hash =>
      rw [Option.some_or, ← Table.get?_set]
      cases contribution with
      | none => simp only [install, SymbolTable.setHash, hdoc]
      | some c =>
          simp only [install, SymbolTable.setHash, hdoc, SymbolTable.hashes_replaceContribution]

/-! ### Tickets -/

/-- The sequence of the last accepted ticket of a document, zero before the first. -/
def last (index : SymbolIndex) (uri : Uri) : Nat := (index.accepted.get? uri).getD 0

theorem accept_eq (index : SymbolIndex) (ticket : Ticket) :
    (index.accept ticket).1 = decide (index.last ticket.uri < ticket.sequence) := by
  unfold accept last
  split
  next hlt => rw [decide_eq_true hlt]
  next hge => rw [decide_eq_false hge]

theorem last_accept (index : SymbolIndex) (ticket : Ticket) (uri : Uri) :
    (index.accept ticket).2.last uri =
      if (index.accept ticket).1 ∧ uri = ticket.uri then ticket.sequence else index.last uri := by
  unfold accept last
  split
  · by_cases huri : uri = ticket.uri
    · simp [huri, Table.get?_set]
    · simp [huri, Table.get?_set]
  · simp

theorem table_accept (index : SymbolIndex) (ticket : Ticket) :
    (index.accept ticket).2.table = index.table := by
  unfold accept
  split
  · rfl
  · rfl

theorem commit_eq (index : SymbolIndex) (ticket : Ticket) (found : Commit) :
    (index.commit ticket found).1.isSome = (index.accept ticket).1 ∧
      (index.commit ticket found).2 = if (index.accept ticket).1
        then { (index.accept ticket).2 with table := (install index.table ticket.uri found).2 }
        else index := by
  unfold commit accept
  by_cases hlt : (index.accepted.get? ticket.uri).getD 0 < ticket.sequence
  · simp [hlt]
  · simp [hlt]

theorem last_commit (index : SymbolIndex) (ticket : Ticket) (found : Commit) (uri : Uri) :
    (index.commit ticket found).2.last uri =
      if (index.accept ticket).1 ∧ uri = ticket.uri then ticket.sequence else index.last uri := by
  rw [(commit_eq index ticket found).2]
  split
  · exact index.last_accept ticket uri
  next haccept => rw [if_neg fun h => haccept h.1]

theorem nextSequence_commit (index : SymbolIndex) (ticket : Ticket) (found : Commit) :
    (index.commit ticket found).2.nextSequence = index.nextSequence := by
  have haccept : (index.accept ticket).2.nextSequence = index.nextSequence := by
    unfold accept
    split
    · rfl
    · rfl
  rw [(commit_eq index ticket found).2]
  split
  · exact haccept
  · rfl

/-- Accepting a ticket without a result is committing nothing. -/
theorem accept_eq_commit (index : SymbolIndex) (ticket : Ticket) :
    (index.accept ticket).1 = (index.commit ticket {}).1.isSome ∧
      (index.accept ticket).2 = (index.commit ticket {}).2 := by
  rw [(commit_eq index ticket {}).1, (commit_eq index ticket {}).2]
  refine ⟨rfl, ?_⟩
  unfold accept
  split
  · rfl
  · rfl

/-! ### The log of a run -/

/-- A commit and its answer. An acknowledgement is logged as a commit of nothing. -/
structure Call where
  ticket : Ticket
  found : Commit
  accepted : Bool

/-- The call that a commit makes. -/
def callOf (index : SymbolIndex) (ticket : Ticket) (found : Commit) : Call :=
  ⟨ticket, found, (index.commit ticket found).1.isSome⟩

/-- What a call tells about one matter of a document, if it was accepted. -/
def Call.tells {α : Type} (matter : Commit → Option α) (uri : Uri) (call : Call) : Option α :=
  if call.accepted ∧ call.ticket.uri = uri then matter call.found else none

theorem Call.tells_eq_some_iff {α : Type} {matter : Commit → Option α} {uri : Uri} {call : Call}
    {value : α} : call.tells matter uri = some value ↔
      call.accepted = true ∧ call.ticket.uri = uri ∧ matter call.found = some value := by
  rw [tells, Option.ite_none_right_eq_some, and_assoc]

/-- The accepted call with the greatest sequence that tells anything about a matter of a
document tells this. -/
def Newest {α : Type} (calls : List Call) (matter : Commit → Option α) (uri : Uri) (value : α) :
    Prop :=
  ∃ call ∈ calls, call.tells matter uri = some value ∧
    ∀ other ∈ calls, (other.tells matter uri).isSome →
      other.ticket.sequence ≤ call.ticket.sequence

/-- The accepted calls of each document are logged in the order of their sequences. -/
def Increasing (calls : List Call) : Prop :=
  calls.Pairwise fun later earlier => later.accepted = true → earlier.accepted = true →
    earlier.ticket.uri = later.ticket.uri → earlier.ticket.sequence < later.ticket.sequence

theorem newest_iff {calls : List Call} (h : Increasing calls) {α : Type}
    (matter : Commit → Option α) (uri : Uri) (value : α) :
    Newest calls matter uri value ↔ calls.findSome? (Call.tells matter uri) = some value := by
  induction calls with
  | nil => simp [Newest]
  | cons call rest ih =>
      obtain ⟨hfirst, hrest⟩ := List.pairwise_cons.mp h
      have hearlier : ∀ v, call.tells matter uri = some v → ∀ other ∈ rest,
          (other.tells matter uri).isSome → other.ticket.sequence < call.ticket.sequence := by
        intro v hv other hother hsome
        obtain ⟨hcall, hcalluri, _⟩ := Call.tells_eq_some_iff.mp hv
        obtain ⟨_, hw⟩ := Option.isSome_iff_exists.mp hsome
        obtain ⟨haccepted, huri, _⟩ := Call.tells_eq_some_iff.mp hw
        exact hfirst other hother hcall haccepted (huri.trans hcalluri.symm)
      rw [List.findSome?_cons]
      -- The log starts with the latest call: if that one tells, all that tell behind it are older.
      cases htells : call.tells matter uri with
      | some v =>
          constructor
          · rintro ⟨best, hbest, hvalue, hmax⟩
            rcases List.mem_cons.mp hbest with rfl | hmem
            · exact htells.symm.trans hvalue
            · have hlt := hearlier v htells best hmem (by rw [hvalue]; rfl)
              have hle := hmax call List.mem_cons_self (by rw [htells]; rfl)
              omega
          · intro hv
            refine ⟨call, List.mem_cons_self, htells.trans hv, ?_⟩
            intro other hother hsome
            rcases List.mem_cons.mp hother with rfl | hmem
            · exact Nat.le_refl _
            · exact Nat.le_of_lt (hearlier v htells other hmem hsome)
      | none =>
          rw [← ih hrest]
          constructor
          · rintro ⟨best, hbest, hvalue, hmax⟩
            rcases List.mem_cons.mp hbest with rfl | hmem
            · rw [htells] at hvalue
              cases hvalue
            · exact ⟨best, hmem, hvalue, fun other hother =>
                hmax other (List.mem_cons_of_mem call hother)⟩
          · rintro ⟨best, hbest, hvalue, hmax⟩
            refine ⟨best, List.mem_cons_of_mem call hbest, hvalue, ?_⟩
            intro other hother hsome
            rcases List.mem_cons.mp hother with rfl | hmem
            · rw [htells] at hsome
              cases hsome
            · exact hmax other hmem hsome

/-- The index holds what the accepted calls told last. -/
structure Follows (index : SymbolIndex) (calls : List Call) : Prop where
  bounded : ∀ call ∈ calls, call.accepted = true →
    call.ticket.sequence ≤ index.last call.ticket.uri
  increasing : Increasing calls
  contribution : ∀ uri, index.table.contribution? uri =
    (calls.findSome? (Call.tells Commit.contribution uri)).bind Contribution.stored
  hash : ∀ uri, index.table.hashes.get? uri = calls.findSome? (Call.tells Commit.contentHash uri)

namespace Follows

variable {index : SymbolIndex} {calls : List Call}

theorem nil (hcontributions : ∀ uri, index.table.contribution? uri = none)
    (hhashes : ∀ uri, index.table.hashes.get? uri = none) : Follows index [] :=
  ⟨nofun, .nil, hcontributions, hhashes⟩

theorem contribution_iff (h : Follows index calls) (uri : Uri) (c : Contribution) :
    index.table.contribution? uri = some c ↔
      c.isEmpty = false ∧ Newest calls Commit.contribution uri c := by
  rw [h.contribution, newest_iff h.increasing, Option.bind_eq_some_iff]
  constructor
  · rintro ⟨c', hc', hstored⟩
    obtain ⟨rfl, hnonempty⟩ := Contribution.stored_eq_some_iff.mp hstored
    exact ⟨hnonempty, hc'⟩
  · rintro ⟨hnonempty, hc⟩
    exact ⟨c, hc, Contribution.stored_eq_some_iff.mpr ⟨rfl, hnonempty⟩⟩

theorem hash_iff (h : Follows index calls) (uri : Uri) (hash : UInt64) :
    index.table.hashes.get? uri = some hash ↔ Newest calls Commit.contentHash uri hash := by
  rw [h.hash, newest_iff h.increasing]

theorem reject (h : Follows index calls) {call : Call} (hcall : call.accepted = false) :
    Follows index (call :: calls) := by
  have hsilent : ∀ {α : Type} (matter : Commit → Option α) (uri : Uri),
      call.tells matter uri = none := by
    intro α matter uri
    simp [Call.tells, hcall]
  refine ⟨?_, List.pairwise_cons.mpr ⟨?_, h.increasing⟩, ?_, ?_⟩
  · exact List.forall_mem_cons.mpr ⟨by simp [hcall], h.bounded⟩
  · intro earlier _ haccepted
    rw [hcall] at haccepted
    cases haccepted
  · intro uri
    rw [List.findSome?_cons, hsilent]
    exact h.contribution uri
  · intro uri
    rw [List.findSome?_cons, hsilent]
    exact h.hash uri

theorem install (h : Follows index calls) {ticket : Ticket} {found : Commit}
    (hlt : index.last ticket.uri < ticket.sequence) {index' : SymbolIndex}
    (hlast : ∀ uri, index'.last uri = if uri = ticket.uri then ticket.sequence else index.last uri)
    (htable : index'.table = (SymbolIndex.install index.table ticket.uri found).2) :
    Follows index' (⟨ticket, found, true⟩ :: calls) := by
  have htells : ∀ {α : Type} (matter : Commit → Option α) (uri : Uri),
      Call.tells matter uri ⟨ticket, found, true⟩ =
        if uri = ticket.uri then matter found else none := by
    intro α matter uri
    simp only [Call.tells, true_and, eq_comm]
  refine ⟨?_, List.pairwise_cons.mpr ⟨?_, h.increasing⟩, ?_, ?_⟩
  · intro call hmem haccepted
    rw [hlast]
    rcases List.mem_cons.mp hmem with rfl | hmem
    · exact Nat.le_of_eq (if_pos rfl).symm
    · have hle := h.bounded call hmem haccepted
      split
      next huri =>
          rw [huri] at hle
          omega
      · exact hle
  · intro earlier hmem _ haccepted huri
    have hle := h.bounded earlier hmem haccepted
    rw [huri] at hle
    exact Nat.lt_of_le_of_lt hle hlt
  · intro uri
    rw [List.findSome?_cons, htells, htable, contribution?_install, h.contribution uri]
    split
    · cases found.contribution with
      | none => rfl
      | some c => rfl
    · rfl
  · intro uri
    rw [List.findSome?_cons, htells, htable, hashes_install, h.hash uri]
    split
    · cases found.contentHash with
      | none => rfl
      | some hash => rfl
    · rfl

/-- Each commit keeps the index in step with the log. -/
theorem commit (h : Follows index calls) (ticket : Ticket) (found : Commit) :
    Follows (index.commit ticket found).2 (index.callOf ticket found :: calls) := by
  obtain ⟨hanswer, hindex⟩ := commit_eq index ticket found
  rw [callOf, hanswer, hindex]
  have hlast := index.last_commit ticket found
  have hlt := index.accept_eq ticket
  rw [hindex] at hlast
  cases haccept : (index.accept ticket).1 with
  | false => exact h.reject rfl
  | true =>
      rw [haccept] at hlast hlt
      simp only [true_and] at hlast
      exact h.install (of_decide_eq_true hlt.symm) hlast rfl

end Follows

end SymbolIndex

end Gml
