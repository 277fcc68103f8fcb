import Gml.Tree.Basic
import Gml.Tree.Event
import Mathlib.Data.List.Induction

/-!
# Event lists that spell trees

An event list spells trees if its nodes are closed in the order in which they were
opened. A node that was found to be the first part of a larger one makes a chain
with it: the two stand behind each other in the list, and the first links forward to
the second. Following the links turns such a list into the build steps of the same
trees, read from left to right with every node opened before its first part.
-/
namespace Gml

/-- A node of a chain without the part that is wrapped: its kind, the events between
its start and its end, and the trees that these spell. -/
structure Link where
  kind : NodeKind
  inside : List Event
  trees : List Tree

namespace Link

def events (link : Link) (wrapper : Option Nat) : List Event :=
  .start link.kind wrapper :: (link.inside ++ [.finish])

/-- The distance from the start of a link to what follows it. -/
def reach (link : Link) : Nat := link.inside.length + 2

/-- Links of which each one starts where the wrapper of the one before is expected. -/
def linked (links : List Link) : List Event := links.flatMap fun link => link.events (some link.reach)

/-- A chain: the last link is wrapped by nothing. -/
def chain (inner : List Link) (last : Link) : List Event := linked inner ++ last.events none

/-- The links once their starts have been reached by way of a link. -/
def hollow (links : List Link) : List Event :=
  links.flatMap fun link => .reserved :: (link.inside ++ [.finish])

/-- Puts what is there so far into a link in the first place. -/
def wrap (inner : List Tree) (link : Link) : List Tree := [.node link.kind (inner ++ link.trees)]

/-- The tree of a chain, the first link innermost; none if there are no links. -/
def nest (links : List Link) : List Tree := links.foldl wrap []

/-- The kinds of a chain, the outermost first. -/
def kinds (links : List Link) : List NodeKind := (links.map Link.kind).reverse

@[simp] theorem events_length (link : Link) (wrapper : Option Nat) :
    (link.events wrapper).length = link.reach := by
  simp [events, reach]

theorem linked_concat (inner : List Link) (last : Link) :
    linked (inner ++ [last]) = linked inner ++ last.events (some last.reach) := by
  simp [linked]

theorem nest_concat (inner : List Link) (last : Link) :
    nest (inner ++ [last]) = [.node last.kind (nest inner ++ last.trees)] := by
  simp [nest, wrap]

theorem kinds_concat (inner : List Link) (last : Link) :
    kinds (inner ++ [last]) = last.kind :: kinds inner := by
  simp [kinds]

theorem kinds_cons (first : Link) (rest : List Link) :
    kinds (first :: rest) = kinds rest ++ [first.kind] := by
  simp [kinds]

theorem length_le_linked (links : List Link) : links.length ≤ (linked links).length := by
  induction links with
  | nil => exact Nat.le_refl 0
  | cons link links ih =>
      simp only [linked, List.flatMap_cons, List.length_append, events_length, List.length_cons,
        reach] at ih ⊢
      omega

theorem hollow_length (inner : List Link) (last : Link) :
    (hollow (inner ++ [last])).length = (chain inner last).length := by
  induction inner with
  | nil => simp [hollow, chain, linked, reach]
  | cons link inner ih =>
      simp only [hollow, chain, linked, List.cons_append, List.flatMap_cons, List.length_append,
        events_length, reach, List.length_cons, List.length_nil] at ih ⊢
      omega

theorem chain_cons (first : Link) (inner : List Link) (last : Link) :
    chain (first :: inner) last = first.events (some first.reach) ++ chain inner last := by
  simp [chain, linked]

end Link

/-- The events spell the trees from left to right. -/
inductive Spells : List Event → List Tree → Prop
  | nil : Spells [] []
  | token (token : Token) {events : List Event} {trees : List Tree} :
      Spells events trees → Spells (.token token.kind :: events) (.leaf token :: trees)
  | node (inner : List Link) (last : Link) {events : List Event} {trees : List Tree} :
      (∀ link ∈ inner ++ [last], Spells link.inside link.trees) → Spells events trees →
      Spells (Link.chain inner last ++ events) (Link.nest (inner ++ [last]) ++ trees)

theorem Spells.append {events more : List Event} {trees others : List Tree}
    (h : Spells events trees) (k : Spells more others) :
    Spells (events ++ more) (trees ++ others) := by
  induction h with
  | nil => exact k
  | token token _ ih => exact .token token ih
  | node inner last hlinks _ _ ih =>
      rw [List.append_assoc, List.append_assoc]
      exact .node inner last hlinks ih

/-- A single node around what is spelled. -/
theorem Spells.enclose {events : List Event} {trees : List Tree} (kind : NodeKind)
    (h : Spells events trees) :
    Spells (.start kind none :: (events ++ [.finish])) [.node kind trees] := by
  have hnode := Spells.node [] ⟨kind, events, trees⟩ (by simpa using h) .nil
  simpa [Link.chain, Link.linked, Link.events, Link.nest, Link.wrap] using hnode

/-! ### Build steps of a tree -/

namespace Tree

mutual

/-- The build steps of a tree that opens its nodes one by one. -/
def steps : Tree → List BuildStep
  | .leaf token => [.token token.kind]
  | .node kind children => .enter [kind] :: (stepsAll children ++ [.leave])

def stepsAll : List Tree → List BuildStep
  | [] => []
  | tree :: trees => steps tree ++ stepsAll trees

end

theorem leavesAll_append (trees others : List Tree) :
    leavesAll (trees ++ others) = leavesAll trees ++ leavesAll others := by
  induction trees with
  | nil => rfl
  | cons tree trees ih => simp only [List.cons_append, leavesAll, ih, List.append_assoc]

theorem stepsAll_append (trees others : List Tree) :
    stepsAll (trees ++ others) = stepsAll trees ++ stepsAll others := by
  induction trees with
  | nil => rfl
  | cons tree trees ih => simp only [List.cons_append, stepsAll, ih, List.append_assoc]

theorem stepsAll_node (kind : NodeKind) (children : List Tree) :
    stepsAll [.node kind children] = .enter [kind] :: (stepsAll children ++ [.leave]) := by
  simp only [stepsAll, steps, List.append_nil]

end Tree

namespace BuildStep

/-- Nodes that start at one place, opened one by one. -/
def single : BuildStep → List BuildStep
  | .enter kinds => kinds.map fun kind => .enter [kind]
  | step => [step]

def singles (steps : List BuildStep) : List BuildStep := steps.flatMap single

theorem singles_append (steps more : List BuildStep) :
    singles (steps ++ more) = singles steps ++ singles more := by
  simp [singles]

end BuildStep

/-- A chain opens all its nodes first and then closes them one after the other. -/
theorem Link.stepsAll_nest (links : List Link) :
    Tree.stepsAll (nest links) = BuildStep.single (.enter (kinds links)) ++
      links.flatMap fun link => Tree.stepsAll link.trees ++ [.leave] := by
  induction links using List.reverseRecOn with
  | nil => rfl
  | append_singleton inner last ih =>
      rw [nest_concat, kinds_concat, Tree.stepsAll_node, Tree.stepsAll_append, ih]
      simp [BuildStep.single]

namespace Event

/-! ### Following the links -/

/-- What stands from `index` on is `suffix`. -/
def StandsAt (events : Array Event) (index : Nat) (suffix : List Event) : Prop :=
  events.toList.drop index = suffix

theorem StandsAt.head {events : Array Event} {index : Nat} {event : Event} {suffix : List Event}
    (h : StandsAt events index (event :: suffix)) : events[index]? = some event := by
  have hget := congrArg (·[0]?) h
  simpa using hget

theorem StandsAt.skip {events : Array Event} {index : Nat} {before suffix : List Event}
    (h : StandsAt events index (before ++ suffix)) :
    StandsAt events (index + before.length) suffix := by
  unfold StandsAt at h ⊢
  rw [← List.drop_drop, h, List.drop_left]

theorem StandsAt.tail {events : Array Event} {index : Nat} {event : Event} {suffix : List Event}
    (h : StandsAt events index (event :: suffix)) : StandsAt events (index + 1) suffix := by
  have hcons : StandsAt events index ([event] ++ suffix) := h
  exact hcons.skip

/-- A start that is reached by a link gives up its place; nothing else changes. -/
theorem StandsAt.reserve {events : Array Event} {index : Nat} {before suffix : List Event}
    {event : Event} (h : StandsAt events index (before ++ event :: suffix)) :
    StandsAt (events.setIfInBounds (index + before.length) .reserved) index
      (before ++ .reserved :: suffix) := by
  unfold StandsAt at h ⊢
  rw [Array.toList_setIfInBounds, List.drop_set, if_neg (by omega), h]
  simp

/-- Follows the links of a chain to its outermost node. -/
theorem absorb_chain (inner : List Link) (last : Link) (steps index origin distance : Nat)
    (before suffix : List Event) (events : Array Event) (found : List NodeKind)
    (hsteps : inner.length < steps) (horigin : origin + distance = index + before.length)
    (h : StandsAt events index (before ++ (Link.chain inner last ++ suffix))) :
    ∃ events', absorb steps origin (some distance) events found =
        (Link.kinds (inner ++ [last]) ++ found, events') ∧
      StandsAt events' index (before ++ (Link.hollow (inner ++ [last]) ++ suffix)) := by
  obtain ⟨steps, rfl⟩ : ∃ n, steps = n + 1 := ⟨steps - 1, by omega⟩
  -- A link that has been followed is reserved and joins what stands in front of the next one.
  induction inner generalizing steps before events found distance origin with
  | nil =>
      have h' : StandsAt events index
          (before ++ .start last.kind none :: (last.inside ++ .finish :: suffix)) := by
        simpa [Link.chain, Link.linked, Link.events] using h
      refine ⟨events.setIfInBounds (index + before.length) .reserved, ?_, ?_⟩
      · simp only [absorb, horigin, h'.skip.head]
        cases steps <;> rfl
      · simpa [Link.hollow] using h'.reserve
  | cons first inner ih =>
      rw [Link.chain_cons] at h
      have h' : StandsAt events index (before ++ .start first.kind (some first.reach) ::
          (first.inside ++ .finish :: (Link.chain inner last ++ suffix))) := by
        simpa [Link.events] using h
      obtain ⟨steps, rfl⟩ : ∃ n, steps = n + 1 :=
        ⟨steps - 1, by simp only [List.length_cons] at hsteps; omega⟩
      have hreach : origin + distance + first.reach =
          index + (before ++ Event.reserved :: (first.inside ++ [Event.finish])).length := by
        simp only [horigin, Link.reach, List.length_append, List.length_cons, List.length_nil]
        omega
      obtain ⟨events', hkinds, hstands⟩ := ih (origin + distance) first.reach
        (before ++ .reserved :: (first.inside ++ [.finish]))
        (events.setIfInBounds (index + before.length) .reserved) (first.kind :: found) hreach
        (by simpa using h'.reserve) steps (by simp only [List.length_cons] at hsteps; omega)
      refine ⟨events', ?_, ?_⟩
      · rw [horigin] at hkinds
        rw [absorb, horigin, h'.skip.head]
        simp only
        rw [hkinds, List.cons_append, Link.kinds_cons, List.append_assoc]
        rfl
      · simpa [Link.hollow] using hstands

/-- An entered node or chain of nodes has a kind. -/
theorem absorb_ne_nil (steps index : Nat) (wrapper : Option Nat) (events : Array Event)
    (found : List NodeKind) (h : found ≠ []) : (absorb steps index wrapper events found).1 ≠ [] := by
  induction steps generalizing index wrapper events found with
  | zero => exact h
  | succ steps ih =>
      cases wrapper with
      | none => exact h
      | some distance =>
          rw [absorb]
          split
          · exact ih _ _ _ _ (List.cons_ne_nil _ _)
          · exact h

theorem resolve_ne_nil (left index : Nat) (events : Array Event) (kinds : List NodeKind)
    (h : .enter kinds ∈ resolve left index events) : kinds ≠ [] := by
  induction left generalizing index events with
  | zero => simp [resolve] at h
  | succ left ih =>
      rw [resolve] at h
      split at h
      · rcases List.mem_cons.mp h with h | h
        · rw [BuildStep.enter.inj h]
          exact absorb_ne_nil _ _ _ _ _ (List.cons_ne_nil _ _)
        · exact ih _ _ h
      · exact ih _ _ (by simpa using h)
      · exact ih _ _ (by simpa using h)
      · exact ih _ _ h
      · exact ih _ _ h

/-! ### The steps of what is spelled -/

/-- Wherever the events are the last ones, they turn into the steps. -/
def Resolves (suffix : List Event) (steps : List BuildStep) : Prop :=
  ∀ (events : Array Event) (index : Nat), StandsAt events index suffix →
    resolve suffix.length index events = steps

theorem Resolves.nil : Resolves [] [] := fun _ _ _ => rfl

theorem Resolves.token {suffix : List Event} {steps : List BuildStep} (kind : TokenKind)
    (h : Resolves suffix steps) : Resolves (.token kind :: suffix) (.token kind :: steps) := by
  intro events index hs
  rw [List.length_cons, resolve, hs.head]
  simp only [h _ _ hs.tail]

theorem Resolves.finish {suffix : List Event} {steps : List BuildStep}
    (h : Resolves suffix steps) : Resolves (.finish :: suffix) (.leave :: steps) := by
  intro events index hs
  rw [List.length_cons, resolve, hs.head]
  simp only [h _ _ hs.tail]

theorem Resolves.reserved {suffix : List Event} {steps : List BuildStep}
    (h : Resolves suffix steps) : Resolves (.reserved :: suffix) steps := by
  intro events index hs
  rw [List.length_cons, resolve, hs.head]
  exact h _ _ hs.tail

theorem Resolves.start {suffix : List Event} {steps : List BuildStep} (kind : NodeKind)
    (h : Resolves suffix steps) :
    Resolves (.start kind none :: suffix) (.enter [kind] :: steps) := by
  intro events index hs
  rw [List.length_cons, resolve, hs.head]
  simp only [absorb, h _ _ hs.tail]

/-- The first start of a chain opens all nodes of the chain. -/
theorem Resolves.chain {inner : List Link} {last first : Link} {rest : List Link}
    {suffix : List Event} {steps : List BuildStep} (hlinks : inner ++ [last] = first :: rest)
    (h : Resolves (first.inside ++ .finish :: (Link.hollow rest ++ suffix)) steps) :
    Resolves (Link.chain inner last ++ suffix) (.enter (Link.kinds (inner ++ [last])) :: steps) := by
  cases inner with
  | nil =>
      obtain ⟨rfl, rfl⟩ : last = first ∧ [] = rest := by simpa using hlinks
      simpa [Link.chain, Link.linked, Link.events, Link.kinds, Link.hollow] using h.start last.kind
  | cons head inner =>
      obtain ⟨rfl, rfl⟩ : head = first ∧ inner ++ [last] = rest := by simpa using hlinks
      intro events index hs
      rw [Link.chain_cons, List.append_assoc] at hs
      have hlength : inner.length < (Link.chain (head :: inner) last ++ suffix).length := by
        have hlinked := Link.length_le_linked (head :: inner)
        simp only [Link.chain, List.length_append, List.length_cons] at hlinked ⊢
        omega
      obtain ⟨events', hkinds, hstands⟩ := absorb_chain inner last _ index index head.reach
        (head.events (some head.reach)) suffix events [head.kind] hlength (by simp) hs
      have hinside : StandsAt events' (index + 1)
          (head.inside ++ .finish :: (Link.hollow (inner ++ [last]) ++ suffix)) := by
        have hstart : StandsAt events' index (.start head.kind (some head.reach) ::
            (head.inside ++ .finish :: (Link.hollow (inner ++ [last]) ++ suffix))) := by
          simpa [Link.events] using hstands
        exact hstart.tail
      have hcount : (Link.chain (head :: inner) last ++ suffix).length =
          (head.inside ++ .finish :: (Link.hollow (inner ++ [last]) ++ suffix)).length + 1 := by
        simp only [Link.chain_cons, List.length_append, List.length_cons, Link.events_length,
          Link.reach, Link.hollow_length]
        omega
      have hhead : events[index]? = some (.start head.kind (some head.reach)) := by
        apply StandsAt.head
        simpa [Link.events] using hs
      rw [hcount] at hkinds ⊢
      rw [resolve, hhead]
      simp only
      rw [hkinds, List.cons_append, Link.kinds_cons]
      simp only [h _ _ hinside]

/-- Wherever the events stand, they turn into steps that open the nodes one by one like
`flat`. -/
def Unfolds (segment : List Event) (flat : List BuildStep) : Prop :=
  ∀ suffix steps, Resolves suffix steps →
    ∃ before, Resolves (segment ++ suffix) (before ++ steps) ∧ BuildStep.singles before = flat

theorem Unfolds.nil : Unfolds [] [] := fun _ _ h => ⟨[], h, rfl⟩

theorem Unfolds.append {segment more : List Event} {flat others : List BuildStep}
    (h : Unfolds segment flat) (k : Unfolds more others) :
    Unfolds (segment ++ more) (flat ++ others) := by
  intro suffix steps hs
  obtain ⟨last, hlast, rfl⟩ := k suffix steps hs
  obtain ⟨first, hfirst, rfl⟩ := h _ _ hlast
  refine ⟨first ++ last, ?_, BuildStep.singles_append first last⟩
  rwa [List.append_assoc, List.append_assoc]

theorem Unfolds.token (kind : TokenKind) : Unfolds [.token kind] [.token kind] :=
  fun _ _ h => ⟨[.token kind], h.token kind, rfl⟩

theorem Unfolds.finish : Unfolds [.finish] [.leave] := fun _ _ h => ⟨[.leave], h.finish, rfl⟩

theorem Unfolds.reserved : Unfolds [.reserved] [] := fun _ _ h => ⟨[], h.reserved, rfl⟩

/-- What the links hold is left in order, each part with the end of its node. -/
theorem Unfolds.hollow (links : List Link)
    (h : ∀ link ∈ links, Unfolds link.inside (Tree.stepsAll link.trees)) :
    Unfolds (Link.hollow links) (links.flatMap fun link => Tree.stepsAll link.trees ++ [.leave]) := by
  induction links with
  | nil => exact .nil
  | cons link links ih =>
      have hinside := h link List.mem_cons_self
      have hrest := ih fun other hother => h other (List.mem_cons_of_mem link hother)
      exact (Unfolds.reserved.append (hinside.append .finish)).append hrest

/-- A chain unfolds like its tree. -/
theorem Unfolds.chain (inner : List Link) (last : Link)
    (h : ∀ link ∈ inner ++ [last], Unfolds link.inside (Tree.stepsAll link.trees)) :
    Unfolds (Link.chain inner last) (Tree.stepsAll (Link.nest (inner ++ [last]))) := by
  obtain ⟨first, rest, hlinks⟩ : ∃ first rest, inner ++ [last] = first :: rest :=
    List.exists_cons_of_ne_nil (by simp)
  have hfirst := h first (by simp [hlinks])
  have hrest := Unfolds.hollow rest fun link hlink => h link (by simp [hlinks, hlink])
  intro suffix steps hs
  obtain ⟨before, hbefore, hflat⟩ := (hfirst.append (Unfolds.finish.append hrest)) suffix steps hs
  refine ⟨.enter (Link.kinds (inner ++ [last])) :: before, ?_, ?_⟩
  · exact Resolves.chain hlinks (by simpa using hbefore)
  · rw [Link.stepsAll_nest]
    simp only [BuildStep.singles, List.flatMap_cons] at hflat ⊢
    rw [hflat, hlinks]
    simp

/-- What spells trees turns into the steps of these trees. -/
theorem unfolds_of_spells {events : List Event} {trees : List Tree} (h : Spells events trees) :
    Unfolds events (Tree.stepsAll trees) := by
  induction h with
  | nil => exact .nil
  | token token _ ih => exact (Unfolds.token token.kind).append ih
  | node inner last _ _ ihlinks ih =>
      rw [Tree.stepsAll_append]
      exact (Unfolds.chain inner last ihlinks).append ih

/-- The steps of a single node: it is opened, the rest is what the trees in it need. -/
theorem steps_enclose {events : List Event} {trees : List Tree} (kind : NodeKind)
    (h : Spells events trees) :
    ∃ inside, steps (.start kind none :: (events ++ [.finish])).toArray =
        .enter [kind] :: (inside ++ [.leave]) ∧
      BuildStep.singles inside = Tree.stepsAll trees := by
  obtain ⟨inside, hinside, hflat⟩ := unfolds_of_spells h _ _ Resolves.nil.finish
  exact ⟨inside, hinside.start kind _ 0 rfl, hflat⟩

end Event

end Gml
