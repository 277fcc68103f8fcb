import Gml.Proofs.SymbolTable.Keeping

/-!
# Analyses of documents

An analysis of a document is a round of all analyses over one text. If the text has no
errors and the round is not overtaken, the table holds this text of the document
afterwards; otherwise the table is what it was. Other documents are left alone.
-/
namespace Gml

/-! ### Rounds -/

namespace LintDocument

/-- What a round reads. -/
def asReading (d : LintDocument) : Reading := ⟨d.uri, d.kind, d.text⟩

theorem found_of_errors {d : LintDocument} (h : (parse d.text).ok = false) (passes : Passes) :
    d.found passes = {} := by
  simp only [found, readsNames, h, Bool.false_and, Bool.false_eq_true, if_false]

end LintDocument

namespace SymbolIndex

variable {index : SymbolIndex} {made : Reading → Prop}

theorem table_commit (index : SymbolIndex) (ticket : Ticket) (found : Commit) :
    (index.commit ticket found).2.table = index.table ∨
      (index.commit ticket found).2.table = (install index.table ticket.uri found).2 := by
  rw [(commit_eq index ticket found).2]
  split
  · exact .inr rfl
  · exact .inl rfl

theorem agrees_commit (index : SymbolIndex) {uri other : Uri} (h : other ≠ uri) (sequence : Nat)
    (found : Commit) :
    index.table.Agrees (index.commit ⟨uri, sequence⟩ found).2.table other := by
  rcases index.table_commit ⟨uri, sequence⟩ found with hsame | hinstall
  · rw [hsame]
    exact ⟨rfl, rfl⟩
  · rw [hinstall]
    exact SymbolTable.agrees_install index.table h found

/-- A commit of a round keeps the table settled. -/
theorem settled_commit (h : index.table.Settled made) {d : LintDocument} (hmade : made d.asReading)
    (sequence : Nat) : (index.commit ⟨d.uri, sequence⟩ (d.found {})).2.table.Settled made := by
  rcases index.table_commit ⟨d.uri, sequence⟩ (d.found {}) with hsame | hinstall
  · rw [hsame]
    exact h
  · rw [hinstall]
    intro uri
    cases hok : (parse d.text).ok with
    | true =>
        by_cases heq : uri = d.uri
        · exact .inr ⟨_, hmade, heq.symm, SymbolTable.holds_install hok⟩
        · exact (h uri).of_agrees (SymbolTable.agrees_install index.table heq (d.found {}))
    | false =>
        refine (h uri).of_agrees ?_
        rw [LintDocument.found_of_errors hok, SymbolTable.Agrees, contribution?_install,
          hashes_install, Option.elim_none, Option.none_or, ite_self, ite_self]
        exact ⟨rfl, rfl⟩

/-- A text without errors is what the table holds once its commit is accepted. -/
theorem holds_commit {d : LintDocument} (hok : (parse d.text).ok = true) {sequence : Nat}
    (hlast : index.last d.uri < sequence) :
    (index.commit ⟨d.uri, sequence⟩ (d.found {})).2.table.Holds d.asReading := by
  have haccept : (index.accept ⟨d.uri, sequence⟩).1 = true := by
    rw [accept_eq]
    exact decide_eq_true hlast
  rw [(commit_eq index ⟨d.uri, sequence⟩ (d.found {})).2, if_pos haccept]
  exact SymbolTable.holds_install hok

/-- No accepted ticket is later than those given out. -/
def Timely (index : SymbolIndex) : Prop := ∀ uri, index.last uri < index.nextSequence

theorem Timely.issue_commit (h : index.Timely) (uri : Uri) (found : Commit) :
    ((index.issue uri).2.commit (index.issue uri).1 found).2.Timely := by
  intro other
  have hlast : (index.issue uri).2.last other = index.last other := rfl
  rw [last_commit, nextSequence_commit, hlast]
  split
  · exact Nat.lt_succ_self _
  · exact Nat.lt_succ_of_lt (h other)

end SymbolIndex

/-! ### The known documents -/

namespace Server

variable {server : Server} {P : Document → Prop} {document : Document} {url : Url}

/-- Every known document is known by its address and has some property. -/
def Every (P : Document → Prop) (server : Server) : Prop :=
  ∀ key document, server.documents.get? key = some document → document.url.render = key ∧ P document

theorem every_of_empty (h : server.documents = .empty) (P : Document → Prop) : server.Every P := by
  intro key document hdocument
  rw [h] at hdocument
  cases hdocument

theorem Every.putDocument (h : server.Every P) (hdocument : P document) :
    (server.putDocument document).Every P := by
  intro key other hother
  rw [Server.putDocument, Table.get?_set] at hother
  split at hother
  next hkey =>
      cases hother
      exact ⟨hkey.symm, hdocument⟩
  · exact h key other hother

theorem document?_putDocument (server : Server) (h : document.url.render = url.render) :
    (server.putDocument document).document? url = some document := by
  rw [document?, Server.putDocument, Table.get?_set, if_pos h.symm]

/-- The round that an analysis of a document is. -/
def roundOf (server : Server) (document : Document) (url : Url) (text : String) : LintDocument :=
  { uri := url.render, kind := document.kind, settings := server.lint, text }

theorem analyse_of_none (h : server.document? url = none) (text : String) (mode : LintMode) :
    server.analyse url text mode = (none, server) := by
  rw [analyse, h]

theorem recordParse_of_some (h : server.document? url = some document) (text : String)
    (parsed : Option ParsedText) :
    server.recordParse url text parsed =
      server.putDocument
        { document with parsed, dirty := document.dirty && document.content != text } := by
  rw [recordParse, h]

/-- An analysis commits what its round found, and no document changes but for its parse. -/
theorem analyse_of_some (h : server.document? url = some document) (text : String)
    (mode : LintMode) :
    let (ticket, index) := server.index.issue url.render
    ∃ documents, (server.analyse url text mode).2 = { server with
        index := (index.commit ticket ((server.roundOf document url text).found {})).2
        documents := documents } ∧
      (documents = server.documents ∨ ∃ parsed dirty,
        documents = (server.putDocument { document with parsed, dirty }).documents) := by
  have hround := ((server.roundOf document url text).runCycle_eq (server.index.issue url.render).2
    (server.index.issue url.render).1 {} mode).1
  rw [analyse, h]
  dsimp only
  rw [← roundOf, ← hround]
  generalize (server.roundOf document url text).runCycle (server.index.issue url.render).2
    (server.index.issue url.render).1 {} mode = round
  obtain ⟨outcome, analysed, index⟩ := round
  cases outcome.stale with
  | true => exact ⟨server.documents, rfl, .inl rfl⟩
  | false =>
      have hknown : ({ server with index } : Server).document? url = some document := h
      exact ⟨_, recordParse_of_some hknown text analysed.parsed, .inr ⟨_, _, rfl⟩⟩

theorem exists_analyse (server : Server) (url : Url) (text : String) (mode : LintMode) :
    ∃ index documents, (server.analyse url text mode).2 = { server with index, documents } := by
  cases h : server.document? url with
  | none => exact ⟨_, _, by rw [analyse_of_none h]⟩
  | some document =>
      obtain ⟨documents, hanalyse, -⟩ := analyse_of_some h text mode
      exact ⟨_, _, hanalyse⟩

variable {made : Reading → Prop} {text : String} {mode : LintMode}

theorem Every.analyse (h : server.Every P)
    (hparse : ∀ document parsed dirty, P document → P { document with parsed, dirty }) :
    (server.analyse url text mode).2.Every P := by
  cases hdocument : server.document? url with
  | none =>
      rw [analyse_of_none hdocument]
      exact h
  | some document =>
      obtain ⟨documents, hanalyse, hsame | ⟨parsed, dirty, hput⟩⟩ :=
        analyse_of_some hdocument text mode
      · rw [hanalyse, hsame]
        exact h
      · rw [hanalyse, hput]
        exact h.putDocument (hparse document parsed dirty (h _ _ hdocument).2)

theorem settled_analyse (h : server.index.table.Settled made)
    (hmade : ∀ document, server.document? url = some document →
      made ⟨url.render, document.kind, text⟩) :
    (server.analyse url text mode).2.index.table.Settled made := by
  cases hdocument : server.document? url with
  | none =>
      rw [analyse_of_none hdocument]
      exact h
  | some document =>
      obtain ⟨documents, hanalyse, -⟩ := analyse_of_some hdocument text mode
      have hissued : (server.index.issue url.render).2.table.Settled made := h
      have hround : made (server.roundOf document url text).asReading := hmade document hdocument
      rw [hanalyse]
      exact SymbolIndex.settled_commit hissued hround server.index.nextSequence

theorem timely_analyse (h : server.index.Timely) :
    (server.analyse url text mode).2.index.Timely := by
  cases hdocument : server.document? url with
  | none =>
      rw [analyse_of_none hdocument]
      exact h
  | some document =>
      obtain ⟨documents, hanalyse, -⟩ := analyse_of_some hdocument text mode
      rw [hanalyse]
      exact h.issue_commit url.render _

theorem agrees_analyse {other : Uri} (hother : other ≠ url.render) :
    server.index.table.Agrees (server.analyse url text mode).2.index.table other := by
  cases hdocument : server.document? url with
  | none =>
      rw [analyse_of_none hdocument]
      exact ⟨rfl, rfl⟩
  | some document =>
      obtain ⟨documents, hanalyse, -⟩ := analyse_of_some hdocument text mode
      rw [hanalyse]
      exact (server.index.issue url.render).2.agrees_commit hother _ _

theorem holds_analyse (htimely : server.index.Timely) (hdocument : server.document? url = some document)
    (hok : (parse text).ok = true) :
    (server.analyse url text mode).2.index.table.Holds ⟨url.render, document.kind, text⟩ := by
  obtain ⟨documents, hanalyse, -⟩ := analyse_of_some hdocument text mode
  have hlast : (server.index.issue url.render).2.last url.render < server.index.nextSequence :=
    htimely url.render
  have hround : (parse (server.roundOf document url text).text).ok = true := hok
  rw [hanalyse]
  exact SymbolIndex.holds_commit hround hlast

end Server

end Gml
