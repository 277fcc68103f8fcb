import Gml.ContentHash
import Gml.Diagnostic
import Gml.Disk
import Gml.DomainName
import Gml.DomainName.Mapping
import Gml.DomainName.Punycode
import Gml.Glob
import Gml.Json.Basic
import Gml.Json.Decode
import Gml.Json.Number
import Gml.Json.Print
import Gml.Json.Read
import Gml.Lint.Calls
import Gml.Lint.Document
import Gml.Lint.Names
import Gml.Lint.Occurrence
import Gml.MacroLine
import Gml.Manual.Basic
import Gml.Manual.Bundled
import Gml.Manual.Json
import Gml.Manual.Sentences
import Gml.Name
import Gml.Numeral
import Gml.Parse
import Gml.Parser.Error
import Gml.Parser.Expression
import Gml.Parser.State
import Gml.Parser.Statement
import Gml.Path
import Gml.Project.Config
import Gml.Project.Discovery
import Gml.Project.DocumentKind
import Gml.Project.Manifest
import Gml.Project.Storage
import Gml.Proofs.Disk
import Gml.Proofs.Grammar.Expr
import Gml.Proofs.Grammar.Finishing
import Gml.Proofs.Grammar.FirstFault
import Gml.Proofs.Grammar.Grouping
import Gml.Proofs.Grammar.Plan
import Gml.Proofs.Grammar.Printing
import Gml.Proofs.Grammar.Progress
import Gml.Proofs.Grammar.Realized
import Gml.Proofs.Grammar.Realizing
import Gml.Proofs.Grammar.Runs
import Gml.Proofs.Grammar.Viable
import Gml.Proofs.Json.Decoding
import Gml.Proofs.Json.Grammar
import Gml.Proofs.Json.Members
import Gml.Proofs.Json.Printing
import Gml.Proofs.Json.Reading
import Gml.Proofs.Json.Records
import Gml.Proofs.Json.Snapshots
import Gml.Proofs.Lint.Arity
import Gml.Proofs.Lint.Belonging
import Gml.Proofs.Lint.Contributing
import Gml.Proofs.Lint.Cycles
import Gml.Proofs.Lint.Declaring
import Gml.Proofs.Lint.Documenting
import Gml.Proofs.Lint.Mentions
import Gml.Proofs.Lint.Places
import Gml.Proofs.Lint.Pointing
import Gml.Proofs.Lint.Recording
import Gml.Proofs.Lint.Repeating
import Gml.Proofs.Lint.Sourcing
import Gml.Proofs.Lint.Unresolved
import Gml.Proofs.Manual.Entries
import Gml.Proofs.Manual.Sentences
import Gml.Proofs.Name
import Gml.Proofs.Parse.Edges
import Gml.Proofs.Parse.Events
import Gml.Proofs.Parse.Lossless
import Gml.Proofs.Parse.Regular
import Gml.Proofs.Parse.Shape
import Gml.Proofs.Parse.Trivia
import Gml.Proofs.Parser.Productions
import Gml.Proofs.Parser.Reading
import Gml.Proofs.Parser.Relocating
import Gml.Proofs.Parser.Rules
import Gml.Proofs.Parser.Shapes
import Gml.Proofs.Path
import Gml.Proofs.Path.Bytes
import Gml.Proofs.Project.Commas
import Gml.Proofs.Project.Layout
import Gml.Proofs.Project.Listing
import Gml.Proofs.ScriptDoc
import Gml.Proofs.Server.Analysing
import Gml.Proofs.Server.Calling
import Gml.Proofs.Server.Documentation
import Gml.Proofs.Server.Documents
import Gml.Proofs.Server.Events
import Gml.Proofs.Server.Gating
import Gml.Proofs.Server.Indexing
import Gml.Proofs.Server.Opening
import Gml.Proofs.Server.Outcomes
import Gml.Proofs.Server.Parses
import Gml.Proofs.Server.Referring
import Gml.Proofs.Server.Reordering
import Gml.Proofs.Server.Runs
import Gml.Proofs.Server.Sessions
import Gml.Proofs.Server.Signatures
import Gml.Proofs.Server.Starting
import Gml.Proofs.Server.Waiting
import Gml.Proofs.Server.Warming
import Gml.Proofs.Signature
import Gml.Proofs.SymbolIndex.Commits
import Gml.Proofs.SymbolIndex.Installing
import Gml.Proofs.SymbolIndex.Reachable
import Gml.Proofs.SymbolIndex.Runs
import Gml.Proofs.SymbolTable.Answers
import Gml.Proofs.SymbolTable.Blocks
import Gml.Proofs.SymbolTable.Completions
import Gml.Proofs.SymbolTable.Consistency
import Gml.Proofs.SymbolTable.Documents
import Gml.Proofs.SymbolTable.Edits
import Gml.Proofs.SymbolTable.Framing
import Gml.Proofs.SymbolTable.Grouping
import Gml.Proofs.SymbolTable.Keeping
import Gml.Proofs.SymbolTable.Linking
import Gml.Proofs.SymbolTable.Offering
import Gml.Proofs.SymbolTable.Ownership
import Gml.Proofs.SymbolTable.Pruning
import Gml.Proofs.SymbolTable.References
import Gml.Proofs.SymbolTable.Registering
import Gml.Proofs.SymbolTable.Rereading
import Gml.Proofs.SymbolTable.Resources
import Gml.Proofs.SymbolTable.Restoring
import Gml.Proofs.SymbolTable.Scripts
import Gml.Proofs.SymbolTable.Shadowing
import Gml.Proofs.SymbolTable.Visibility
import Gml.Proofs.Table
import Gml.Proofs.Text.Cutting
import Gml.Proofs.Text.Lines
import Gml.Proofs.Text.Pieces
import Gml.Proofs.Text.Positions
import Gml.Proofs.Text.Splicing
import Gml.Proofs.Text.Walking
import Gml.Proofs.Token.Leading
import Gml.Proofs.Token.Lexeme
import Gml.Proofs.Token.Longest
import Gml.Proofs.Token.Spelled
import Gml.Proofs.Token.Tiling
import Gml.Proofs.Tree.Links
import Gml.Proofs.Tree.Nesting
import Gml.Proofs.Tree.Parts
import Gml.Proofs.Tree.Preorder
import Gml.Proofs.Tree.Production
import Gml.Proofs.Tree.Spelling
import Gml.Proofs.Tree.Weaving
import Gml.Proofs.Url.Files
import Gml.Proofs.Url.Paths
import Gml.ScriptDoc
import Gml.Server.Editing
import Gml.Server.Feature
import Gml.Server.Indexing
import Gml.Server.Message
import Gml.Server.Registration
import Gml.Server.Session
import Gml.Server.State
import Gml.Signature.Basic
import Gml.Signature.Json
import Gml.Symbol.Json
import Gml.Symbol.Record
import Gml.SymbolIndex
import Gml.SymbolTable.Basic
import Gml.SymbolTable.Query
import Gml.SymbolTable.Snapshot
import Gml.Table
import Gml.Text.Blank
import Gml.Text.Bytes
import Gml.Text.Edit
import Gml.Text.Position
import Gml.Text.Word
import Gml.Token.Kind
import Gml.Token.Lexer
import Gml.Toml.Basic
import Gml.Toml.Decode
import Gml.Toml.Read
import Gml.Toml.Scalar
import Gml.Tree.Basic
import Gml.Tree.Build
import Gml.Tree.Event
import Gml.Tree.Kind
import Gml.Unicode.Composition
import Gml.Unicode.Direction
import Gml.Unicode.Joining
import Gml.Unicode.Mark
import Gml.Url
import Gml.Url.Host
import Gml.Url.Percent
import Gml.Url.Segment
