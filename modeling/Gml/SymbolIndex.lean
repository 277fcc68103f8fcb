import Gml.SymbolTable.Query

/-!
# The symbol index

The symbol table as several analyses share it. An analysis of a document takes a
ticket when it starts; what it found is installed only if no later ticket of the same
document was accepted before, so a slow analysis of an old text never overwrites a
newer one. Questions of an editor are answered once the workspace has been read.
-/
namespace Gml

/-- How far the reading of the workspace has come. It only moves on. -/
inductive Readiness where
  | notStarted
  | indexing
  | ready
  deriving DecidableEq, Repr, Inhabited

namespace Readiness

def rank : Readiness → Nat
  | .notStarted => 0
  | .indexing => 1
  | .ready => 2

def label : Readiness → String
  | .notStarted => "NotStarted"
  | .indexing => "Indexing"
  | .ready => "Ready"

end Readiness

/-- Stands for one analysis of one document. -/
structure Ticket where
  uri : Uri
  sequence : Nat
  deriving DecidableEq, Repr, Inhabited

inductive DocUpdate where
  | unchanged
  | clear
  | set (doc : ScriptDoc)
  deriving DecidableEq, Repr

structure Commit where
  contribution : Option Contribution := none
  doc : DocUpdate := .unchanged
  contentHash : Option UInt64 := none

structure SymbolIndex where
  table : SymbolTable := {}
  readiness : Readiness := .notStarted
  nextSequence : Nat := 1
  /-- The last accepted ticket of each document. -/
  accepted : Table Nat := .empty
  deriving Inhabited

namespace SymbolIndex

def advance (index : SymbolIndex) (target : Readiness) : Bool × SymbolIndex :=
  if index.readiness.rank < target.rank then (true, { index with readiness := target })
  else (false, index)

def isReady (index : SymbolIndex) : Bool := index.readiness == .ready

/-- A new ticket; the numbers grow over all documents. -/
def issue (index : SymbolIndex) (uri : Uri) : Ticket × SymbolIndex :=
  (⟨uri, index.nextSequence⟩, { index with nextSequence := index.nextSequence + 1 })

/-- Accepts a ticket unless a later one, or itself, was accepted before. -/
def accept (index : SymbolIndex) (ticket : Ticket) : Bool × SymbolIndex :=
  if (index.accepted.get? ticket.uri).getD 0 < ticket.sequence then
    (true, { index with accepted := index.accepted.set ticket.uri ticket.sequence })
  else (false, index)

/-- Changes the documentation of the script whose code a document is. -/
def updateDoc (t : SymbolTable) (uri : Uri) (doc : DocUpdate) : SymbolTable :=
  match doc, t.scriptAt? uri with
  | .set doc, some script =>
      match t.setScriptDoc script.name doc with
      | .ok t => t
      | .error _ => t
  | .clear, some script => t.clearScriptDoc script.name
  | _, _ => t

def install (t : SymbolTable) (uri : Uri) (commit : Commit) : List MacroConflict × SymbolTable :=
  let (conflicts, t) := match commit.contribution with
    | some contribution => t.replaceContribution uri contribution
    | none => ([], t)
  let t := updateDoc t uri commit.doc
  (conflicts, match commit.contentHash with
    | some hash => t.setHash uri hash
    | none => t)

/-- Installs what an analysis found, unless its ticket is stale. -/
def commit (index : SymbolIndex) (ticket : Ticket) (commit : Commit) :
    Option (List MacroConflict) × SymbolIndex :=
  match index.accept ticket with
  | (false, index) => (none, index)
  | (true, index) =>
      let (conflicts, table) := install index.table ticket.uri commit
      (some conflicts, { index with table })

/-- The answer to a question of an editor, once the workspace has been read. -/
def query {α : Type} (index : SymbolIndex) (ask : SymbolTable → α) : Option α :=
  if index.isReady then some (ask index.table) else none

end SymbolIndex

end Gml
