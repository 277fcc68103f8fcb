import Gml.Tree.Kind

/-!
# Parse events

The grammar writes a flat list of events: a node starts, the next token belongs
to the node that is open, the node ends. Where only what follows shows that a
finished node is the first part of a larger one, the larger one starts later in
the list and the finished one links forward to it. A slot is reserved for a node
whose kind is not yet known.
-/
namespace Gml

inductive Event where
  /-- A node starts. `wrapper` is the distance to the start of the node around it,
  if that one was found later. -/
  | start (kind : NodeKind) (wrapper : Option Nat)
  /-- The next token, of the kind that the grammar saw. -/
  | token (kind : TokenKind)
  | finish
  /-- A node whose kind is still open. -/
  | reserved
  deriving DecidableEq, Inhabited

/-- What a tree is built from: the events with the links resolved. -/
inductive BuildStep where
  /-- Nodes start at one place, the outermost first. -/
  | enter (kinds : List NodeKind)
  | token (kind : TokenKind)
  | leave
  deriving DecidableEq

namespace Event

/-- Follows the links from an event at `index`: the kinds of the nodes around it,
the outermost first, before the kinds already found. Starts that are reached give
up their place in the list. -/
def absorb : Nat → Nat → Option Nat → Array Event → List NodeKind → List NodeKind × Array Event
  | steps + 1, index, some distance, events, kinds =>
      match events[index + distance]? with
      | some (.start kind wrapper) =>
          absorb steps (index + distance) wrapper
            (events.setIfInBounds (index + distance) .reserved) (kind :: kinds)
      | _ => (kinds, events)
  | _, _, _, events, kinds => (kinds, events)

/-- The steps for the last `left` events, which start at `index`. -/
def resolve : Nat → Nat → Array Event → List BuildStep
  | 0, _, _ => []
  | left + 1, index, events =>
      match events[index]? with
      | some (.start kind wrapper) =>
          let (kinds, events) := absorb (left + 1) index wrapper events [kind]
          .enter kinds :: resolve left (index + 1) events
      | some (.token kind) => .token kind :: resolve left (index + 1) events
      | some .finish => .leave :: resolve left (index + 1) events
      | some .reserved | none => resolve left (index + 1) events

def steps (events : Array Event) : List BuildStep := resolve events.size 0 events

end Event

end Gml
