import Gml.Lint.Document
import Gml.Project.Config
import Gml.Url

/-!
# The state of the server

The server knows the documents that an editor has opened and those that were read from
disk, and shares one index between them. Until the index is ready, documents that change
only wait; they are analysed afterwards in the order in which they came.
-/
namespace Gml

structure Document where
  url : Url
  /-- The editor's count of changes; zero for a text from disk. -/
  version : Int
  content : String
  kind : DocumentKind
  isOpen : Bool
  /-- The content changed since the last analysis that was finished. -/
  dirty : Bool := true
  /-- The parse of the text that was analysed last. -/
  parsed : Option ParsedText := none

structure Server where
  documents : Table Document := .empty
  index : SymbolIndex := {}
  /-- The documents that wait for the index; none once it is ready. -/
  waiting : Option (List Url) := some []
  folders : List Url := []
  config : Option ProjectConfig := none
  /-- Sentences of a description to show; zero shows all. -/
  sentences : Nat := 1
  lint : LintSettings := {}
  /-- Whether the editor can show how far the indexing is. -/
  showsProgress : Bool := false

/-- The kind of the document at an address: it is judged by its path on disk, if it has
one, or else by the path of the address. -/
def Url.documentKind (url : Url) : DocumentKind :=
  match url.filePath? with
  | some path => .ofFilePath path
  | none => .ofPath url.path

namespace Server

/-- The root directory: the first folder that has a path on disk. -/
def root? (server : Server) : Option FilePath := server.folders.findSome? Url.filePath?

def setConfig (server : Server) (config : ProjectConfig) : Server :=
  { server with config := some config, sentences := config.sentences, lint := config.lint }

def configure (server : Server) (settings : ClientSettings) : Server :=
  { server with sentences := settings.sentences.getD server.sentences }

def setTable (server : Server) (table : SymbolTable) : Server :=
  { server with index := { server.index with table } }

/-! ### Documents -/

def document? (server : Server) (url : Url) : Option Document := server.documents.get? url.render

def putDocument (server : Server) (document : Document) : Server :=
  { server with documents := server.documents.set document.url.render document }

/-- A document is opened, or taken over from the indexing. -/
def openDocument (server : Server) (url : Url) (version : Int) (content : String) : Server :=
  let document := (server.document? url).getD
    { url, version, content, kind := url.documentKind, isOpen := true }
  server.putDocument { document with version, content, isOpen := true, dirty := true }

/-- A document is read from disk, unless the editor has it open. -/
def indexDocument? (server : Server) (url : Url) (kind : DocumentKind) (content : String) :
    Option Server :=
  if ((server.document? url).map (·.isOpen)).getD false then none
  else some (server.putDocument { url, version := 0, content, kind, isOpen := false })

def updateDocument (server : Server) (url : Url) (version : Int) (content : String) : Server :=
  match server.document? url with
  | some document => server.putDocument { document with version, content, dirty := true }
  | none => server

/-- The editor closes a document; it stays known, so the index keeps what it says. -/
def closeDocument (server : Server) (url : Url) : Server :=
  match server.document? url with
  | some document => server.putDocument { document with isOpen := false }
  | none => server

/-- Keeps the parse of a finished analysis. The document is clean if its content is the
text that was analysed. -/
def recordParse (server : Server) (url : Url) (text : String) (parsed : Option ParsedText) :
    Server :=
  match server.document? url with
  | some document =>
      server.putDocument
        { document with parsed, dirty := document.dirty && document.content != text }
  | none => server

/-! ### Readiness -/

/-- Lets a document wait for the index. Says no once that is ready, when the document is
to be analysed at once. Addresses that are written alike are one address. -/
def defer (server : Server) (url : Url) : Bool × Server :=
  match server.waiting with
  | none => (false, server)
  | some urls =>
      (true, if urls.any (·.render == url.render) then server
        else { server with waiting := some (urls ++ [url]) })

/-- The index is ready; the documents that waited for it are handed out. -/
def finishIndexing (server : Server) : List Url × Server :=
  (server.waiting.getD [],
    { server with index := (server.index.advance .ready).2, waiting := none })

end Server

end Gml
