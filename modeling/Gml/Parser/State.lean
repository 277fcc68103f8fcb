import Gml.Parser.Error
import Gml.Token.Lexer
import Gml.Tree.Event

/-!
# Parser state

The grammar reads the tokens that are neither blank nor comment and writes events
and errors. It never moves back: each operation leaves the remaining tokens as
they are or drops the first one.
-/
namespace Gml

structure Parser where
  /-- The tokens still to be read. -/
  rest : List Token
  /-- Byte length of the text, where errors at the end of the input point. -/
  textEnd : Nat
  events : Array Event := #[]
  errors : Array ParseError := #[]

/-- A finished node: where its start stands in the events, and its kind. -/
structure Completed where
  start : Nat
  kind : NodeKind
  deriving DecidableEq

namespace Parser

/-- The kind of the next token, `eof` at the end. -/
def current (p : Parser) : TokenKind :=
  match p.rest with
  | [] => .eof
  | token :: _ => token.kind

/-- The text of the next token, empty at the end. -/
def currentText (p : Parser) : String :=
  match p.rest with
  | [] => ""
  | token :: _ => token.text

def currentSpan (p : Parser) : Span :=
  match p.rest with
  | [] => .empty p.textEnd
  | token :: _ => token.span

def isAt (p : Parser) (kind : TokenKind) : Bool := p.current == kind

def atEnd (p : Parser) : Bool := p.isAt .eof

def emit (p : Parser) (event : Event) : Parser := { p with events := p.events.push event }

/-- Takes the next token into the open node. -/
def bump (p : Parser) : Parser :=
  match p.rest with
  | [] => p
  | token :: rest => { p with rest, events := p.events.push (.token token.kind) }

def skip (kind : TokenKind) (p : Parser) : Parser := if p.isAt kind then p.bump else p

/-- Records a fault at the next token. -/
def fail (fault : Fault) (p : Parser) : Parser :=
  { p with errors := p.errors.push ⟨fault, p.currentSpan⟩ }

def expect (kind : TokenKind) (fault : Fault) (p : Parser) : Parser :=
  if p.isAt kind then p.bump else p.fail fault

/-- Runs `body` inside a node. -/
def node (kind : NodeKind) (body : Parser → Parser) (p : Parser) : Parser :=
  (body (p.emit (.start kind none))).emit .finish

/-- Records a fault and puts the next token into a node of its own, so that
something is taken wherever there is something left. -/
def failAndBump (fault : Fault) (p : Parser) : Parser :=
  let p := p.fail fault
  if p.atEnd then p else p.node .error bump

/-- Reserves the start of a node whose kind is not known yet. -/
def reserve (p : Parser) : Nat × Parser := (p.events.size, p.emit .reserved)

/-- The event at a reserved place once the kind is known. -/
def setKind (events : Array Event) (start : Nat) (kind : NodeKind) : Array Event :=
  match events[start]? with
  | some .reserved => events.setIfInBounds start (.start kind none)
  | some (.start _ wrapper) => events.setIfInBounds start (.start kind wrapper)
  | _ => events

/-- Finishes the node that was reserved at `start`. -/
def complete (start : Nat) (kind : NodeKind) (p : Parser) : Completed × Parser :=
  (⟨start, kind⟩, { p with events := (setKind p.events start kind).push .finish })

/-- Goes along the links from a start to the first one that links nowhere, and links this one to
the node around it. -/
def linkFrom (outer : Nat) : Nat → Nat → Array Event → Array Event
  | 0, _, events => events
  | steps + 1, place, events =>
      match events[place]? with
      | some (.start kind none) => events.setIfInBounds place (.start kind (some (outer - place)))
      | some (.start _ (some distance)) => linkFrom outer steps (place + distance) events
      | _ => events

/-- Links the node that starts at `inner`, or the outermost of those around it, to the node
around all of them. Links lead forward, so there are no more steps than events; a distance is a
number without a bound. -/
def link (events : Array Event) (inner outer : Nat) : Array Event :=
  linkFrom outer events.size inner events

/-- Reserves the start of a node around a finished one. -/
def wrap (inner : Completed) (p : Parser) : Nat × Parser :=
  let outer := p.events.size
  (outer, { p with events := link (p.events.push .reserved) inner.start outer })

/-- Runs `body` as a node of a kind that is already known; the start is reserved
first, so that the node can be wrapped later. -/
def completeNode (kind : NodeKind) (body : Parser → Parser) (p : Parser) : Completed × Parser :=
  let (start, p) := p.reserve
  (body p).complete start kind

/-- Runs `body` as the rest of a node that begins with a finished one. -/
def wrapNode (inner : Completed) (kind : NodeKind) (body : Parser → Parser) (p : Parser) :
    Completed × Parser :=
  let (start, p) := p.wrap inner
  (body p).complete start kind

/-- Repeats `body` while `more` holds, at most as often as the first argument says. -/
def iterate (more : Parser → Bool) (body : Parser → Parser) : Nat → Parser → Parser
  | 0, p => p
  | n + 1, p => if more p then iterate more body n (body p) else p

/-- Rounds that are enough for a loop whose every round takes a token. -/
def rounds (p : Parser) : Nat := p.rest.length + 1

/-- Repeats `body`, which takes a token each time, while `more` holds. -/
def repeatWhile (more : Parser → Bool) (body : Parser → Parser) (p : Parser) : Parser :=
  iterate more body p.rounds p

/-- Items with commas between and perhaps one after them, up to a closing token. -/
def itemsUntil (close : TokenKind) (item : Parser → Parser) : Nat → Parser → Parser
  | 0, p => p
  | n + 1, p =>
      if p.isAt close || p.atEnd then p
      else
        let p := item p
        if p.isAt .comma then itemsUntil close item n p.bump else p

def name (p : Parser) : Parser := p.node .name bump

end Parser

end Gml
