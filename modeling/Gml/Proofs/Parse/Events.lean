import Gml.Proofs.Parse.Lossless
import Gml.Proofs.Tree.Links

/-!
# Events are sunk into one tree

The events of a parse are sunk one after the other: a start opens its node and all nodes that it
links to, a token goes into the innermost open node, an end closes that node. The steps that
the events come to close the root with the last step and not before. So while the events are
sunk there is an open node in front of every event but the first, and after the last one the
tree of the text is the only one.
-/
namespace Gml

/-! ### Steps that close the root at the end -/

namespace BuildStep

/-- From some open nodes the steps close the last of them with the last step and not before. -/
inductive Closes : Nat → List BuildStep → Prop
  | last : Closes 1 [.leave]
  | enter {below : Nat} {steps : List BuildStep} (kinds : List NodeKind) :
      Closes (below + 1 + kinds.length) steps → Closes (below + 1) (.enter kinds :: steps)
  | token {below : Nat} {steps : List BuildStep} (kind : TokenKind) :
      Closes (below + 1) steps → Closes (below + 1) (.token kind :: steps)
  | leave {below : Nat} {steps : List BuildStep} :
      Closes (below + 1) steps → Closes (below + 2) (.leave :: steps)

theorem Closes.pos {opened : Nat} {steps : List BuildStep} (h : Closes opened steps) :
    0 < opened := by
  cases h <;> omega

end BuildStep

/-! ### The builder while nodes are open -/

namespace TreeBuilder

/-- So many nodes are open, and there is no root yet. -/
structure Opens (b : TreeBuilder) (opened : Nat) : Prop where
  length : b.openNodes.length = opened
  rootless : b.root = none

namespace Opens

variable {b : TreeBuilder} {opened : Nat}

theorem grow (h : b.Opens (opened + 1)) (trees : List Tree) (rest : List Token) :
    (b.grow trees rest).Opens (opened + 1) := by
  obtain ⟨top, below, hopen⟩ := List.exists_cons_of_length_eq_add_one h.length
  have hgrown := grow_open b top.kind top.reversed below trees rest
  have hsame : { b with openNodes := ⟨top.kind, top.reversed⟩ :: below } = b := by rw [← hopen]
  rw [hsame] at hgrown
  rw [hgrown]
  exact ⟨by simpa [hopen] using h.length, h.rootless⟩

theorem placeTrivia (h : b.Opens (opened + 1)) : b.placeTrivia.Opens (opened + 1) := by
  rw [placeTrivia_eq_grow]
  exact h.grow _ _

theorem placeToken (h : b.Opens (opened + 1)) (kind : TokenKind) :
    (b.placeToken kind).Opens (opened + 1) := by
  rw [placeToken_eq_grow]
  exact h.grow _ _

theorem enter (h : b.Opens opened) (kinds : List NodeKind) :
    (b.enter kinds).Opens (opened + kinds.length) :=
  ⟨by simp [TreeBuilder.enter, h.length, Nat.add_comm], h.rootless⟩

/-- A node that ends inside of another one goes into that one. -/
theorem leave (h : b.Opens (opened + 2)) : b.leave.Opens (opened + 1) := by
  obtain ⟨top, below, hopen⟩ := List.exists_cons_of_length_eq_add_one h.length
  have hlength := h.length
  rw [hopen, List.length_cons, Nat.add_right_cancel_iff] at hlength
  obtain ⟨next, outer, rfl⟩ := List.exists_cons_of_length_eq_add_one hlength
  rw [TreeBuilder.leave, hopen]
  exact ⟨hlength, h.rootless⟩

/-- The last node that ends is the root. -/
theorem root_of_leave (h : b.Opens 1) :
    b.leave.openNodes = [] ∧ ∃ tree, b.leave.root = some tree := by
  obtain ⟨top, hopen⟩ := List.length_eq_one_iff.mp h.length
  rw [TreeBuilder.leave, hopen]
  exact ⟨rfl, _, rfl⟩

end Opens

end TreeBuilder

/-! ### The sink -/

/-- What the tree is built from, event by event: the events, in which the starts that a link
has reached are given up, and the tree so far. -/
structure Sink where
  events : Array Event
  builder : TreeBuilder

namespace Sink

def ofEvents (events : Array Event) (tokens : List Token) : Sink := ⟨events, ⟨tokens, [], none⟩⟩

/-- Sinks the event at a place. Only the first event leaves the blanks and comments before it to
its node, and only the last one takes those that are left. -/
def step (s : Sink) (place : Nat) : Sink :=
  match s.events[place]? with
  | some (.start kind wrapper) =>
      let (kinds, events) := Event.absorb (s.events.size - place) place wrapper s.events [kind]
      ⟨events, (if place = 0 then s.builder else s.builder.placeTrivia).enter kinds⟩
  | some (.token kind) => { s with builder := s.builder.placeTrivia.placeToken kind }
  | some .finish =>
      let last := place + 1 = s.events.size
      { s with builder := (if last then s.builder.placeTrivia else s.builder).leave }
  | some .reserved | none => s

/-- The sink in front of an event. -/
def before (s : Sink) : Nat → Sink
  | 0 => s
  | place + 1 => (s.before place).step place

end Sink

namespace Event

theorem finish_ne_start (kind : NodeKind) (link : Option Nat) :
    Event.finish ≠ .start kind link := Event.noConfusion

theorem absorb_spec (steps index : Nat) (wrapper : Option Nat) (events : Array Event)
    (kinds : List NodeKind) :
    (absorb steps index wrapper events kinds).2.size = events.size ∧
      ∀ (place : Nat) (event : Event), events[place]? = some event →
        (∀ kind link, event ≠ Event.start kind link) →
        (absorb steps index wrapper events kinds).2[place]? = some event := by
  fun_induction absorb steps index wrapper events kinds with
  | case1 steps index distance events kinds kind wrapper hget ih =>
      obtain ⟨hsize, hspared⟩ := ih
      refine ⟨by simpa using hsize, fun place event hplace hevent => hspared place event ?_ hevent⟩
      rw [Array.getElem?_setIfInBounds_ne, hplace]
      rintro rfl
      rw [hget] at hplace
      exact hevent kind wrapper (Option.some.inj hplace).symm
  | case2 => exact ⟨rfl, fun _ _ hplace _ => hplace⟩
  | case3 => exact ⟨rfl, fun _ _ hplace _ => hplace⟩

/-- A list with an end in the last place comes to some step. -/
theorem resolve_ne_nil_of_finish {left place : Nat} {events : Array Event}
    (h : events[place + left]? = some .finish) : resolve (left + 1) place events ≠ [] := by
  induction left generalizing place events with
  | zero =>
      rw [Nat.add_zero] at h
      simp [resolve, h]
  | succ left ih =>
      have hlater : events[place + 1 + left]? = some .finish := by
        rwa [Nat.add_assoc, Nat.add_comm 1]
      rw [resolve]
      split
      · exact List.cons_ne_nil _ _
      · exact List.cons_ne_nil _ _
      · exact List.cons_ne_nil _ _
      · exact ih hlater
      · exact ih hlater

end Event

namespace Sink

/-- The sink in front of an event behind the first one, with so many events left behind it:
the steps that are left close the root with the last of them, and building goes on to the same
result. -/
structure Reaches (s : Sink) (place left : Nat) (result : TreeBuilder) : Prop where
  size : s.events.size = place + (left + 1)
  last : s.events[place + left]? = some .finish
  opens : ∃ opened, s.builder.Opens opened ∧
    BuildStep.Closes opened (Event.resolve (left + 1) place s.events)
  result : TreeBuilder.run (Event.resolve (left + 1) place s.events) s.builder = result

variable {s : Sink} {place left : Nat} {result : TreeBuilder}

theorem Reaches.step (h : s.Reaches place (left + 1) result) (hplace : 0 < place) :
    (s.step place).Reaches (place + 1) left result := by
  obtain ⟨hsize, hlast, ⟨opened, hopens, hcloses⟩, hresult⟩ := h
  have hsize' : s.events.size = place + 1 + (left + 1) := by omega
  have hlater : place + (left + 1) = place + 1 + left := by omega
  have hleft : s.events.size - place = left + 2 := by omega
  rw [hlater] at hlast
  obtain ⟨event, hget⟩ : ∃ event, s.events[place]? = some event :=
    ⟨_, Array.getElem?_eq_getElem (by omega)⟩
  obtain ⟨below, rfl⟩ := Nat.exists_eq_succ_of_ne_zero hcloses.pos.ne'
  rw [Event.resolve, hget] at hcloses hresult
  cases event with
  | start kind wrapper =>
      -- Absorbed events become reserved, and the last one, which is none of them, stays.
      obtain ⟨hkept, hspared⟩ := Event.absorb_spec (left + 2) place wrapper s.events [kind]
      cases hcloses with
      | enter kinds hcloses =>
          simp only [Sink.step, hget, hleft, if_neg hplace.ne']
          exact ⟨hkept.trans hsize', hspared _ _ hlast Event.finish_ne_start,
            ⟨_, hopens.placeTrivia.enter _, hcloses⟩, hresult⟩
  | token kind =>
      cases hcloses with
      | token _ hcloses =>
          simp only [Sink.step, hget]
          exact ⟨hsize', hlast, ⟨_, hopens.placeTrivia.placeToken kind, hcloses⟩, hresult⟩
  | finish =>
      have hinner : ¬ place + 1 = s.events.size := by omega
      have hmore := Event.resolve_ne_nil_of_finish hlast
      rw [TreeBuilder.run_leave hmore] at hresult
      simp only [Sink.step, hget, if_neg hinner]
      refine ⟨hsize', hlast, ?_, hresult⟩
      dsimp only at hcloses ⊢
      generalize Event.resolve (left + 1) (place + 1) s.events = steps at hcloses hmore ⊢
      cases hcloses with
      | last => exact absurd rfl hmore
      | leave hcloses => exact ⟨_, hopens.leave, hcloses⟩
  | reserved =>
      simp only [Sink.step, hget]
      exact ⟨hsize', hlast, ⟨_, hopens, hcloses⟩, hresult⟩

/-- The last event closes the root. -/
theorem Reaches.finish (h : s.Reaches place 0 result) : (s.step place).builder = result ∧
    result.openNodes = [] ∧ ∃ tree, result.root = some tree := by
  obtain ⟨hsize, hlast, ⟨opened, hopens, hcloses⟩, rfl⟩ := h
  rw [Nat.add_zero] at hlast
  have hsteps : Event.resolve (0 + 1) place s.events = [.leave] := by
    rw [Event.resolve, hlast]
    rfl
  rw [hsteps] at hcloses ⊢
  have hone : opened = 1 := by
    cases hcloses with
    | last => rfl
    | leave h => cases h
  subst hone
  refine ⟨?_, hopens.placeTrivia.root_of_leave⟩
  rw [Sink.step, hlast]
  simp only [hsize, Nat.zero_add, if_true]
  rfl

/-- What holds in front of the second event holds in front of each later one. -/
theorem Reaches.later {more : Nat} (h : (s.before 1).Reaches 1 (more + left) result) :
    (s.before (more + 1)).Reaches (more + 1) left result := by
  induction more generalizing left with
  | zero => rwa [Nat.zero_add] at h
  | succ more ih =>
      have hbefore := ih (by rwa [Nat.add_right_comm, Nat.add_assoc] at h)
      exact hbefore.step (Nat.succ_pos more)

/-- In front of each event but the first there is an open node and no root, and behind the last
one there is a root and no open node. -/
theorem Reaches.all (h : (s.before 1).Reaches 1 left result) :
    (∀ place, 0 < place → place < left + 2 →
      ∃ opened, 0 < opened ∧ (s.before place).builder.Opens opened) ∧
    (s.before (left + 2)).builder = result ∧ result.openNodes = [] ∧
      ∃ tree, result.root = some tree := by
  refine ⟨fun place hpos hplace => ?_, ?_⟩
  · obtain ⟨more, rfl⟩ := Nat.exists_eq_succ_of_ne_zero hpos.ne'
    obtain ⟨behind, rfl⟩ := Nat.exists_eq_add_of_le (show more ≤ left by omega)
    obtain ⟨opened, hopened, hcloses⟩ := h.later.opens
    exact ⟨opened, hcloses.pos, hopened⟩
  · have hlast : (s.before (left + 1)).Reaches (left + 1) 0 result := h.later
    exact hlast.finish

end Sink

/-- The events that the grammar writes for a text. -/
def eventsOf (text : String) : Array Event :=
  (Parser.ofTokens (lex text) text.utf8ByteSize).sourceFile.events

def Sink.ofText (text : String) : Sink := ofEvents (eventsOf text) (lex text)

end Gml
