import Gml.Proofs.Tree.Spelling

/-!
# Links between events

In a list of events that spells trees no start is reserved any more. Every link leads forward
to another start, and no two links lead to the same one. This is kept when such lists stand
behind each other, and when a start is put in front that links behind its own end.
-/
namespace Gml

namespace Event

/-- The event at one place links to another place. -/
def LinksTo (events : List Event) (origin target : Nat) : Prop :=
  ∃ kind distance, events[origin]? = some (.start kind (some distance)) ∧ origin + distance = target

/-- A start, linked or not, stands at a place. -/
def StartsAt (events : List Event) (place : Nat) : Prop :=
  ∃ kind wrapper, events[place]? = some (.start kind wrapper)

/-- Every start has a kind, and the links form chains of starts that lead forward. -/
structure Linked (events : List Event) : Prop where
  complete : .reserved ∉ events
  forward : ∀ origin target, LinksTo events origin target → origin < target ∧ StartsAt events target
  apart : ∀ origin other target, LinksTo events origin target → LinksTo events other target →
    origin = other

/-! ### Where a link stands -/

variable {events more : List Event} {event : Event} {origin target place : Nat}

theorem StartsAt.lt_length (h : StartsAt events place) : place < events.length := by
  obtain ⟨kind, wrapper, hget⟩ := h
  exact (List.getElem?_eq_some_iff.mp hget).1

theorem StartsAt.append_right (h : StartsAt events place) (more : List Event) :
    StartsAt (events ++ more) place := by
  have hlt := h.lt_length
  obtain ⟨kind, wrapper, hget⟩ := h
  exact ⟨kind, wrapper, by rw [List.getElem?_append_left hlt, hget]⟩

theorem StartsAt.append_left (h : StartsAt more place) (events : List Event) :
    StartsAt (events ++ more) (events.length + place) := by
  obtain ⟨kind, wrapper, hget⟩ := h
  refine ⟨kind, wrapper, ?_⟩
  rw [List.getElem?_append_right (Nat.le_add_right _ _), Nat.add_sub_cancel_left, hget]

theorem StartsAt.cons (h : StartsAt events place) (event : Event) :
    StartsAt (event :: events) (place + 1) := h

/-- A link in two lists behind each other is a link in one of them. -/
theorem LinksTo.append_cases (h : LinksTo (events ++ more) origin target) :
    LinksTo events origin target ∨ ∃ origin' target', origin = events.length + origin' ∧
      target = events.length + target' ∧ LinksTo more origin' target' := by
  obtain ⟨kind, distance, hget, htarget⟩ := h
  by_cases hlt : origin < events.length
  · rw [List.getElem?_append_left hlt] at hget
    exact .inl ⟨kind, distance, hget, htarget⟩
  · rw [List.getElem?_append_right (by omega)] at hget
    exact .inr ⟨origin - events.length, origin - events.length + distance, by omega, by omega,
      kind, distance, hget, rfl⟩

/-- A link behind an event is a link of that event or one in the rest. -/
theorem LinksTo.cons_cases (h : LinksTo (event :: events) origin target) :
    (origin = 0 ∧ ∃ kind, event = .start kind (some target)) ∨
      ∃ origin' target', origin = origin' + 1 ∧ target = target' + 1 ∧
        LinksTo events origin' target' := by
  obtain ⟨kind, distance, hget, htarget⟩ := h
  cases origin with
  | zero =>
      rw [Nat.zero_add] at htarget
      subst htarget
      exact .inl ⟨rfl, kind, by simpa using hget⟩
  | succ origin =>
      exact .inr ⟨origin, origin + distance, rfl, by omega, kind, distance, hget, rfl⟩

/-! ### Lists of linked events -/

namespace Linked

theorem nil : Linked [] := by
  refine ⟨List.not_mem_nil, fun origin target hlink => ?_, fun origin other target hlink => ?_⟩
  · obtain ⟨kind, distance, hget, -⟩ := hlink
    simp at hget
  · obtain ⟨kind, distance, hget, -⟩ := hlink
    simp at hget

theorem append (h : Linked events) (h' : Linked more) : Linked (events ++ more) where
  complete hmem := (List.mem_append.mp hmem).elim h.complete h'.complete
  forward origin target hlink := by
    rcases hlink.append_cases with hfirst | ⟨origin, target, rfl, rfl, hrest⟩
    · obtain ⟨hlt, hstart⟩ := h.forward origin target hfirst
      exact ⟨hlt, hstart.append_right more⟩
    · obtain ⟨hlt, hstart⟩ := h'.forward origin target hrest
      exact ⟨by omega, hstart.append_left events⟩
  apart origin other target hlink hother := by
    rcases hlink.append_cases with hfirst | ⟨origin, target, rfl, rfl, hrest⟩
    · have hlt := (h.forward origin target hfirst).2.lt_length
      rcases hother.append_cases with hfirst' | ⟨other, target, rfl, rfl, -⟩
      · exact h.apart origin other target hfirst hfirst'
      · omega
    · rcases hother.append_cases with hfirst' | ⟨other, target', rfl, htarget, hrest'⟩
      · have hlt := (h.forward other _ hfirst').2.lt_length
        omega
      · obtain rfl : target = target' := by omega
        rw [h'.apart origin other target hrest hrest']

/-- An event that links nowhere can be put in front. -/
theorem cons (h : Linked events) (hreserved : event ≠ .reserved)
    (hlinks : ∀ kind distance, event ≠ .start kind (some distance)) : Linked (event :: events) := by
  have hcases : ∀ {origin target}, LinksTo (event :: events) origin target →
      ∃ origin' target', origin = origin' + 1 ∧ target = target' + 1 ∧
        LinksTo events origin' target' := by
    intro origin target hlink
    rcases hlink.cons_cases with ⟨-, kind, hevent⟩ | hrest
    · exact absurd hevent (hlinks kind target)
    · exact hrest
  refine ⟨?_, fun origin target hlink => ?_, fun origin other target hlink hother => ?_⟩
  · rw [List.mem_cons, not_or]
    exact ⟨hreserved.symm, h.complete⟩
  · obtain ⟨origin, target, rfl, rfl, hrest⟩ := hcases hlink
    obtain ⟨hlt, hstart⟩ := h.forward origin target hrest
    exact ⟨by omega, hstart.cons event⟩
  · obtain ⟨origin, target, rfl, rfl, hrest⟩ := hcases hlink
    obtain ⟨other, target', rfl, htarget, hrest'⟩ := hcases hother
    obtain rfl : target = target' := by omega
    rw [h.apart origin other target hrest hrest']

theorem token (h : Linked events) (kind : TokenKind) : Linked (.token kind :: events) :=
  h.cons nofun nofun

theorem finish (h : Linked events) : Linked (.finish :: events) := h.cons nofun nofun

theorem start (h : Linked events) (kind : NodeKind) : Linked (.start kind none :: events) :=
  h.cons nofun nofun

/-- A start that links to a later one can be put in front if nothing else links there. -/
theorem link (h : Linked events) (kind : NodeKind) {distance : Nat}
    (hstart : StartsAt events distance) (hfree : ∀ origin, ¬ LinksTo events origin distance) :
    Linked (.start kind (some (distance + 1)) :: events) := by
  refine ⟨?_, fun origin target hlink => ?_, fun origin other target hlink hother => ?_⟩
  · rw [List.mem_cons, not_or]
    exact ⟨nofun, h.complete⟩
  · rcases hlink.cons_cases with ⟨rfl, kind, hevent⟩ | ⟨origin, target, rfl, rfl, hrest⟩
    · cases hevent
      exact ⟨Nat.succ_pos distance, hstart.cons _⟩
    · obtain ⟨hlt, hstart⟩ := h.forward origin target hrest
      exact ⟨by omega, hstart.cons _⟩
  · rcases hlink.cons_cases with ⟨rfl, kind, hevent⟩ | ⟨origin, target, rfl, rfl, hrest⟩
    · rcases hother.cons_cases with ⟨rfl, -⟩ | ⟨other, target, rfl, rfl, hrest'⟩
      · rfl
      · cases hevent
        exact absurd hrest' (hfree other)
    · rcases hother.cons_cases with ⟨rfl, kind, hevent⟩ | ⟨other, target', rfl, htarget, hrest'⟩
      · cases hevent
        exact absurd hrest (hfree origin)
      · obtain rfl : target = target' := by omega
        rw [h.apart origin other target hrest hrest']

/-- A node that links to the start behind its own end. -/
theorem wrapped (hinside : Linked events) (h : Linked more) (kind : NodeKind)
    (hstart : StartsAt more 0) :
    Linked (.start kind (some (events.length + 2)) :: (events ++ .finish :: more)) := by
  refine (hinside.append h.finish).link kind ?_ fun origin hlink => ?_
  · exact (hstart.cons .finish).append_left events
  · rcases hlink.append_cases with hfirst | ⟨origin', target, -, htarget, hrest⟩
    · have hlt := (hinside.forward origin _ hfirst).2.lt_length
      omega
    · rcases hrest.cons_cases with ⟨-, other, hevent⟩ | ⟨origin, target', -, htarget', hrest⟩
      · cases hevent
      · -- Only what stands before the start behind the end could link to it.
        have hlt := (h.forward origin target' hrest).1
        omega

/-- A chain in front of linked events. -/
theorem chain (inner : List Link) (last : Link)
    (hlinks : ∀ link ∈ inner ++ [last], Linked link.inside) (h : Linked events) :
    Linked (Link.chain inner last ++ events) := by
  induction inner with
  | nil =>
      have hlast := hlinks last List.mem_cons_self
      simpa [Link.chain, Link.linked, Link.events] using (hlast.append h.finish).start last.kind
  | cons first inner ih =>
      have hrest := ih fun link hlink => hlinks link (List.mem_cons_of_mem first hlink)
      have hstart : StartsAt (Link.chain inner last ++ events) 0 := by
        cases inner with
        | nil => exact ⟨last.kind, none, rfl⟩
        | cons next inner => exact ⟨next.kind, some next.reach, rfl⟩
      have hfirst := (hlinks first List.mem_cons_self).wrapped hrest first.kind hstart
      simpa [Link.chain_cons, Link.events, Link.reach] using hfirst

end Linked

end Event

end Gml
