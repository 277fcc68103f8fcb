import Gml.Proofs.Server.Analysing
import Gml.Server.Editing
import Gml.Server.Indexing

/-!
# What events keep in order

Every analysis of the server is one of a known document. If the texts that the documents
are given are among some texts, then what the table keeps of each document comes from one
of these, whatever the events are.
-/
namespace Gml

def Document.reading (document : Document) : Reading :=
  ⟨document.url.render, document.kind, document.content⟩

namespace Server

variable {server : Server} {made : Reading → Prop} {document : Document} {url : Url}

/-- What the table keeps comes from some texts, and the known documents have such texts. -/
structure Orderly (made : Reading → Prop) (server : Server) : Prop where
  table : server.index.table.Settled made
  documents : server.Every fun document => made document.reading

namespace Orderly

theorem key_eq (h : server.Orderly made) (hdocument : server.document? url = some document) :
    document.url.render = url.render :=
  (h.documents url.render document hdocument).1

theorem made_content (h : server.Orderly made) (hdocument : server.document? url = some document) :
    made ⟨url.render, document.kind, document.content⟩ := by
  obtain ⟨hkey, hmade⟩ := h.documents url.render document hdocument
  rw [← hkey]
  exact hmade

theorem putDocument (h : server.Orderly made) (hdocument : made document.reading) :
    (server.putDocument document).Orderly made where
  table := h.table
  documents := h.documents.putDocument hdocument

theorem setTable (h : server.Orderly made) {table : SymbolTable}
    (hdrops : server.index.table.Drops table) : (server.setTable table).Orderly made where
  table := hdrops.settled h.table
  documents := h.documents

theorem register (h : server.Orderly made) (url : Url) : (server.register url).Orderly made := by
  rw [Server.register]
  split
  · exact h.setTable (SymbolTable.drops_registerIfPossible _ _ _)
  · exact h

theorem analyse (h : server.Orderly made) {text : String} (mode : LintMode)
    (hmade : ∀ document, server.document? url = some document →
      made ⟨url.render, document.kind, text⟩) :
    (server.analyse url text mode).2.Orderly made where
  table := settled_analyse h.table hmade
  documents := h.documents.analyse fun _ _ _ => id

end Orderly

/-- The text that a document has just been given may be analysed. -/
theorem made_put (server : Server) (hkey : document.url.render = url.render)
    (hmade : made document.reading) :
    ∀ other, (server.putDocument document).document? url = some other →
      made ⟨url.render, other.kind, document.content⟩ := by
  intro other hother
  rw [server.document?_putDocument hkey, Option.some.injEq] at hother
  rw [← hkey, ← hother]
  exact hmade

theorem documents_register (server : Server) (url : Url) :
    (server.register url).documents = server.documents := by
  rw [register]
  split <;> rfl

end Server

namespace Session

variable {session : Session} {made : Reading → Prop} {url : Url} {text : String}

/-! ### Steps of events -/

/-- To publish is to analyse, and then to send or not to send. -/
theorem publish_eq (session : Session) (url : Url) (version : Option Int) (text : String) :
    ∃ sent, session.publish url version text =
      { session with server := (session.server.analyse url text .full).2, sent } := by
  unfold publish analyse
  cases session.server.analyse url text .full with
  | mk report server =>
      cases report with
      | none => exact ⟨_, rfl⟩
      | some report =>
          dsimp only
          split
          · exact ⟨_, rfl⟩
          · exact ⟨_, rfl⟩

theorem orderly_publish (h : session.server.Orderly made) (version : Option Int)
    (hmade : ∀ document, session.server.document? url = some document →
      made ⟨url.render, document.kind, text⟩) :
    (session.publish url version text).server.Orderly made := by
  obtain ⟨sent, hpublish⟩ := session.publish_eq url version text
  rw [hpublish]
  exact h.analyse .full hmade

/-- A document waits for the index, or it is its turn at once. -/
theorem whenReady_eq (session : Session) (url : Url) (next : Session → Session) :
    session.whenReady url next = next session ∨
      ∃ waiting, session.whenReady url next = { session with
        server := { session.server with waiting } } := by
  unfold whenReady Server.defer
  cases session.server.waiting with
  | none => exact .inl rfl
  | some urls =>
      refine .inr ?_
      dsimp only
      split
      · exact ⟨_, rfl⟩
      · exact ⟨_, rfl⟩

theorem orderly_whenReady {next : Session → Session} (h : session.server.Orderly made)
    (hnext : (next session).server.Orderly made) :
    (session.whenReady url next).server.Orderly made := by
  rcases session.whenReady_eq url next with heq | ⟨waiting, heq⟩
  · rw [heq]
    exact hnext
  · rw [heq]
    exact ⟨h.table, h.documents⟩

/-! ### Events of an editor -/

/-- The text of a document that an editor opens. Only a new document is judged by its
address. -/
def opened (session : Session) (url : Url) (text : String) : Reading :=
  ⟨url.render, ((session.server.document? url).map (·.kind)).getD url.documentKind, text⟩

theorem orderly_didOpen (h : session.server.Orderly made) (version : Int)
    (hmade : made (session.opened url text)) :
    (session.didOpen url version text).server.Orderly made := by
  obtain ⟨document, hopen, hkey, hkind, hcontent⟩ : ∃ document : Document,
      session.server.openDocument url version text = session.server.putDocument document ∧
        document.url.render = url.render ∧ document.kind = (session.opened url text).kind ∧
        document.content = text := by
    refine ⟨_, rfl, ?_, ?_, rfl⟩
    · cases hdocument : session.server.document? url with
      | none => rfl
      | some document =>
          have hkey := h.key_eq hdocument
          exact hkey
    · rw [opened]
      cases session.server.document? url with
      | none => rfl
      | some document => rfl
  have hreading : made document.reading := by
    rw [Document.reading, hkey, hkind, hcontent]
    exact hmade
  have hput := h.putDocument hreading
  rw [didOpen, hopen]
  refine orderly_whenReady hput (orderly_publish (hput.register url) _ fun other hother => ?_)
  rw [Server.document?, Server.documents_register] at hother
  exact hcontent ▸ session.server.made_put hkey hreading other hother

/-- A known document gets another text, which is then analysed. -/
theorem orderly_update (h : session.server.Orderly made) (version : Int)
    {next : Session → Session}
    (hmade : ∀ document, session.server.document? url = some document →
      made ⟨url.render, document.kind, text⟩)
    (hnext : ∀ session : Session, session.server.Orderly made →
      (∀ document, session.server.document? url = some document →
        made ⟨url.render, document.kind, text⟩) → (next session).server.Orderly made) :
    ({ session with server := session.server.updateDocument url version text }.whenReady url
      next).server.Orderly made := by
  rw [Server.updateDocument]
  cases hdocument : session.server.document? url with
  | none => exact orderly_whenReady h (hnext session h hmade)
  | some document =>
      have hkey := h.key_eq hdocument
      have hreading : made (Document.reading
          { document with version, content := text, dirty := true }) := by
        rw [Document.reading, hkey]
        exact hmade document hdocument
      have hput := h.putDocument hreading
      exact orderly_whenReady hput (hnext _ hput (session.server.made_put hkey hreading))

theorem orderly_didChange (h : session.server.Orderly made) (version : Int)
    (changes : List TextChange)
    (hmade : ∀ document text, session.server.document? url = some document →
      Text.applyChanges? document.content changes = some text →
        made ⟨url.render, document.kind, text⟩) :
    (session.didChange url version changes).server.Orderly made := by
  unfold didChange
  split
  next change rest document hdocument =>
      split
      · exact h
      next text htext =>
          refine orderly_update h version (fun other hother => ?_) fun session h hmade =>
            orderly_publish h _ hmade
          rw [hdocument] at hother
          cases hother
          exact hmade document text hdocument htext
  · exact h

theorem orderly_didSave (h : session.server.Orderly made) (saved : Option String)
    (hmade : ∀ document, session.server.document? url = some document →
      made ⟨url.render, document.kind, saved.getD document.content⟩) :
    (session.didSave url saved).server.Orderly made := by
  unfold didSave
  split
  · exact h
  next document hdocument =>
      dsimp only
      split
      · exact h
      · refine orderly_whenReady h (orderly_publish h _ fun other hother => ?_)
        rw [hdocument] at hother
        cases hother
        exact hmade document hdocument

theorem orderly_didClose (h : session.server.Orderly made)
    (hmade : ∀ document text, session.server.document? url = some document →
      session.textOnDisk? url = some text → made ⟨url.render, document.kind, text⟩) :
    (session.didClose url).server.Orderly made := by
  unfold didClose
  cases hdocument : session.server.document? url with
  | none => exact h
  | some document =>
      have hclose : session.server.closeDocument url =
          session.server.putDocument { document with isOpen := false } := by
        rw [Server.closeDocument, hdocument]
      have hkey := h.key_eq hdocument
      have hclosed : (session.server.closeDocument url).Orderly made := by
        rw [hclose]
        exact h.putDocument (h.documents _ _ hdocument).2
      dsimp only
      split
      · exact hclosed
      next text htext =>
          split
          · exact hclosed
          · refine orderly_update hclosed 0 (fun other hother => ?_) fun session h hmade =>
              h.analyse .full hmade
            have hknown : (session.server.closeDocument url).document? url =
                some { document with isOpen := false } := by
              rw [hclose]
              exact session.server.document?_putDocument hkey
            have hother' := hknown.symm.trans hother
            cases hother'
            exact hmade document text hdocument htext

end Session

end Gml
