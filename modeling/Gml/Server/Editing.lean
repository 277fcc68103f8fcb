import Gml.Server.Registration
import Gml.Text.Edit

/-!
# Events of an editor

Opening, changing, saving and closing documents. Before the index is ready the texts
are only kept.
-/
namespace Gml.Session

def didOpen (session : Session) (url : Url) (version : Int) (text : String) : Session :=
  { session with server := session.server.openDocument url version text }.whenReady url fun session =>
    { session with server := session.server.register url }.publish url (some version) text

/-- The editor changes a document. Changes that do not fit the text are dropped. -/
def didChange (session : Session) (url : Url) (version : Int) (changes : List TextChange) :
    Session :=
  match changes, session.server.document? url with
  | _ :: _, some document =>
      match Text.applyChanges? document.content changes with
      | none => session
      | some text =>
          { session with server := session.server.updateDocument url version text }.whenReady url
            fun session => session.publish url (some version) text
  | _, _ => session

/-- The editor saves a document. A clean document with the same text has nothing new. -/
def didSave (session : Session) (url : Url) (text : Option String) : Session :=
  match session.server.document? url with
  | none => session
  | some document =>
      let text := text.getD document.content
      if !document.dirty && document.content == text then session
      else session.whenReady url fun session => session.publish url (some document.version) text

def textOnDisk? (session : Session) (url : Url) : Option String :=
  url.filePath?.bind fun path => session.disk.read? path.onDisk

/-- The editor closes a document. What was not saved is gone, and the text on disk
counts again. -/
def didClose (session : Session) (url : Url) : Session :=
  match session.server.document? url with
  | none => session
  | some document =>
      let session := { session with server := session.server.closeDocument url }.send
        (.diagnostics url [] none)
      match session.textOnDisk? url with
      | none => session
      | some text =>
          if text == document.content then session
          else
            { session with server := session.server.updateDocument url 0 text }.whenReady url
              fun session => (session.analyse url text .full).2

end Gml.Session
