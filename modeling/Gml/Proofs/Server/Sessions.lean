import Gml.Proofs.Server.Indexing

/-!
# The sessions of a server

A session starts without documents. Then events of the editor come and the workspace is
read, with the snapshot of an earlier session if there is one. Rounds of analysis may be
slow and come back in any order among the events.
-/
namespace Gml.Session

variable {session earlier : Session} {made : Reading → Prop}

/-- A session that has been started and has seen nothing but its settings. -/
structure Fresh (session : Session) : Prop where
  documents : session.server.documents = .empty
  index : session.server.index = {}
  waiting : session.server.waiting = some []

/-- The files that the session finds in its project. -/
def discovered (session : Session) : List SourceFile :=
  match session.server.root? with
  | some root => Discovery.files session.disk root.onDisk
  | none => []

/-- The texts of the files that the session has read are among some texts. -/
def FilesAmong (made : Reading → Prop) (session : Session) : Prop :=
  ∀ root config file text, session.server.root? = some root →
    session.server.config = some config → file ∈ (session.filesToIndex root.onDisk config).1 →
      session.disk.read? file.path = some text → made (file.reading text)

/-- The sessions in which only some texts are analysed. The disk may change at any time,
and a round that began early may come back late. -/
inductive Reached (made : Reading → Prop) : Session → Prop
  | start {session : Session} (h : session.Fresh) : Reached made session
  | folders {session : Session} (h : Reached made session) (folders : List Url)
      (showsProgress : Bool) :
      Reached made { session with server := { session.server with folders, showsProgress } }
  | configure {session : Session} (h : Reached made session) (settings : ClientSettings) :
      Reached made { session with server := session.server.configure settings }
  | disk {session : Session} (h : Reached made session) (disk : Disk) :
      Reached made { session with disk }
  | index {session earlier : Session} (h : Reached made session) (hearlier : Reached made earlier)
      (hkept : session.indexWorkspace.2.KeepsFrom earlier)
      (hmade : session.indexWorkspace.2.FilesAmong made) : Reached made session.indexWorkspace.2
  | didOpen {session : Session} (h : Reached made session) (url : Url) (version : Int)
      (text : String) (hmade : made (session.opened url text)) :
      Reached made (session.didOpen url version text)
  | didChange {session : Session} (h : Reached made session) (url : Url) (version : Int)
      (changes : List TextChange)
      (hmade : ∀ document text, session.server.document? url = some document →
        Text.applyChanges? document.content changes = some text →
          made ⟨url.render, document.kind, text⟩) :
      Reached made (session.didChange url version changes)
  | didSave {session : Session} (h : Reached made session) (url : Url) (saved : Option String)
      (hmade : ∀ document, session.server.document? url = some document →
        made ⟨url.render, document.kind, saved.getD document.content⟩) :
      Reached made (session.didSave url saved)
  | didClose {session : Session} (h : Reached made session) (url : Url)
      (hmade : ∀ document text, session.server.document? url = some document →
        session.textOnDisk? url = some text → made ⟨url.render, document.kind, text⟩) :
      Reached made (session.didClose url)
  | round {session : Session} (h : Reached made session) (d : LintDocument) (sequence : Nat)
      (mode : LintMode) (hmade : made d.asReading) :
      Reached made { session with server := { session.server with
        index := (d.runCycle session.server.index ⟨d.uri, sequence⟩ {} mode).2.2 } }
  | shutdown {session : Session} (h : Reached made session) : Reached made session.shutdown

/-! ### Reading the workspace -/

/-- The session in which the workspace is being read. -/
def indexing (session : Session) : Session :=
  { session with server :=
      { session.server with index := (session.server.index.advance .indexing).2 } }

theorem indexWorkspace_of_root {root : FilePath} (h : session.server.root? = some root) :
    session.indexWorkspace = session.indexing.indexRoot root := by
  have hroot : session.indexing.server.root? = some root := h
  unfold indexWorkspace
  rw [← indexing]
  dsimp only
  rw [hroot]

theorem indexWorkspace_of_none (h : session.server.root? = none) :
    session.indexWorkspace = ({}, session.indexing.indexNothing) := by
  have hroot : session.indexing.server.root? = none := h
  unfold indexWorkspace
  rw [← indexing]
  dsimp only
  rw [hroot]

theorem orderly_indexing (h : session.server.Orderly made) :
    session.indexing.server.Orderly made := by
  obtain ⟨readiness, hadvance⟩ := exists_advance session.server.index .indexing
  unfold indexing
  rw [hadvance]
  exact ⟨h.table, h.documents⟩

theorem filesToIndex_congr {s s' : Session} (hdisk : s'.disk = s.disk) (root : String)
    (config : ProjectConfig) : s'.filesToIndex root config = s.filesToIndex root config := by
  unfold filesToIndex
  rw [hdisk]

section

variable {root : FilePath}

/-- What the reading of a workspace needs to know can be seen when it is over. -/
theorem KeepsFrom.before (h : (session.indexRoot root).2.KeepsFrom earlier) :
    (session.prepared root).KeepsFrom earlier := by
  obtain ⟨hdisk, -, hconfig⟩ := session.indexRoot_project root
  unfold KeepsFrom at h ⊢
  rw [hdisk, hconfig] at h
  rw [server_prepared]
  exact h

theorem FilesAmong.before (h : (session.indexRoot root).2.FilesAmong made)
    (hroot : session.server.root? = some root) :
    ∀ file ∈ ((session.prepared root).filesToIndex root.onDisk (session.loadedConfig root)).1,
      ∀ text, (session.prepared root).disk.read? file.path = some text →
        made (file.reading text) := by
  obtain ⟨hdisk, hfolders, hconfig⟩ := session.indexRoot_project root
  have hroot' : (session.indexRoot root).2.server.root? = some root := by
    rw [Server.root?, hfolders]
    exact hroot
  intro file hfile text hread
  refine h root (session.loadedConfig root) file text hroot' hconfig ?_ ?_
  · rw [filesToIndex_congr hdisk]
    exact hfile
  · rw [hdisk]
    exact hread

end

theorem orderly_indexNothing (h : session.server.Orderly made) :
    session.indexNothing.server.Orderly made := by
  have hseeded := h.setTable (.of_eq rfl rfl : session.server.index.table.Drops
    (session.server.index.table.seedBuiltins Manual.bundled))
  unfold indexNothing Server.finishIndexing
  dsimp only
  obtain ⟨readiness, hadvance⟩ := exists_advance (session.server.setTable
    (session.server.index.table.seedBuiltins Manual.bundled)).index .ready
  rw [hadvance]
  refine orderly_replayAll ?_ _
  exact ⟨hseeded.table, hseeded.documents⟩

theorem orderly_indexWorkspace (h : session.server.Orderly made)
    (hearlier : earlier.server.index.table.Settled made)
    (hkept : session.indexWorkspace.2.KeepsFrom earlier)
    (hmade : session.indexWorkspace.2.FilesAmong made) :
    session.indexWorkspace.2.server.Orderly made := by
  have hindexing := orderly_indexing h
  cases hroot : session.server.root? with
  | none =>
      rw [indexWorkspace_of_none hroot]
      exact orderly_indexNothing hindexing
  | some root =>
      rw [indexWorkspace_of_root hroot] at hkept hmade ⊢
      have hmade' := hmade.before hroot
      exact orderly_indexRoot hindexing (settled_startTable hearlier hkept.before) hmade'

/-! ### Every session -/

theorem Reached.orderly (h : Reached made session) : session.server.Orderly made := by
  induction h with
  | start h =>
      refine ⟨?_, Server.every_of_empty h.documents _⟩
      rw [h.index]
      exact SymbolTable.settled_empty made
  | folders _ folders showsProgress ih => exact ⟨ih.table, ih.documents⟩
  | configure _ settings ih => exact ⟨ih.table, ih.documents⟩
  | disk _ disk ih => exact ih
  | index _ _ hkept hmade ih ihearlier => exact orderly_indexWorkspace ih ihearlier.table hkept hmade
  | didOpen _ url version text hmade ih => exact orderly_didOpen ih version hmade
  | didChange _ url version changes hmade ih => exact orderly_didChange ih version changes hmade
  | didSave _ url saved hmade ih => exact orderly_didSave ih saved hmade
  | didClose _ url hmade ih => exact orderly_didClose ih hmade
  | round _ d sequence mode hmade ih =>
      refine ⟨?_, ih.documents⟩
      have hround := SymbolIndex.settled_commit ih.table hmade sequence
      rw [← (d.runCycle_eq _ ⟨d.uri, sequence⟩ {} mode).1] at hround
      exact hround
  | shutdown _ ih =>
      unfold Session.shutdown
      split
      · exact ih
      · split
        · exact ih
        · exact ih

end Gml.Session
