import Gml.Parser.State
import Gml.Proofs.Tree.Spelling

/-!
# What the parser operations read and write

A run of the parser takes tokens off the front and writes events that spell trees
over exactly these tokens. This is the one fact that all rules of the grammar share;
it is proved here for the operations that the rules are made of. A finished node that
can still be wrapped is kept as a chain, since only the last link may get a wrapper.
-/
namespace Gml.Parser

/-- From `p` to `q` the trees were read. -/
structure Reads (p : Parser) (trees : List Tree) (q : Parser) : Prop where
  written : ∃ events, Spells events trees ∧ q.events.toList = p.events.toList ++ events
  taken : p.rest = Tree.leavesAll trees ++ q.rest

theorem Reads.refl (p : Parser) : p.Reads [] p := ⟨⟨[], .nil, by simp⟩, rfl⟩

theorem Reads.trans {p q r : Parser} {trees others : List Tree} (h : p.Reads trees q)
    (k : q.Reads others r) : p.Reads (trees ++ others) r := by
  obtain ⟨first, hfirst, hq⟩ := h.written
  obtain ⟨second, hsecond, hr⟩ := k.written
  refine ⟨⟨first ++ second, hfirst.append hsecond, ?_⟩, ?_⟩
  · rw [hr, hq, List.append_assoc]
  · rw [h.taken, k.taken, Tree.leavesAll_append, List.append_assoc]

/-- Some trees were read, perhaps none. -/
def Advances (p q : Parser) : Prop := ∃ trees, p.Reads trees q

/-- Some trees were read, and at least one token was taken if there was one left. -/
def Takes (p q : Parser) : Prop :=
  p.Advances q ∧ (p.rest ≠ [] → q.rest.length < p.rest.length)

theorem Advances.refl (p : Parser) : p.Advances p := ⟨[], .refl p⟩

theorem Advances.trans {p q r : Parser} (h : p.Advances q) (k : q.Advances r) : p.Advances r := by
  obtain ⟨trees, h⟩ := h
  obtain ⟨others, k⟩ := k
  exact ⟨trees ++ others, h.trans k⟩

theorem Advances.length_le {p q : Parser} (h : p.Advances q) : q.rest.length ≤ p.rest.length := by
  obtain ⟨trees, h⟩ := h
  rw [h.taken, List.length_append]
  exact Nat.le_add_left _ _

theorem Takes.trans {p q r : Parser} (h : p.Takes q) (k : q.Advances r) : p.Takes r :=
  ⟨h.1.trans k, fun hp => Nat.lt_of_le_of_lt k.length_le (h.2 hp)⟩

theorem advances_ite {c : Prop} [Decidable c] {p q r : Parser} (hq : p.Advances q)
    (hr : p.Advances r) : p.Advances (if c then q else r) := by
  split
  · exact hq
  · exact hr

/-! ### Single operations -/

theorem bump_takes (p : Parser) : p.Takes p.bump := by
  unfold bump
  cases hrest : p.rest with
  | nil => exact ⟨.refl p, fun h => absurd hrest h⟩
  | cons token rest =>
      refine ⟨⟨[.leaf token], ⟨[.token token.kind], .token token .nil, ?_⟩, ?_⟩, ?_⟩
      · simp
      · simp [hrest, Tree.leavesAll, Tree.leaves]
      · simp [hrest]

theorem fail_advances (fault : Fault) (p : Parser) : p.Advances (p.fail fault) :=
  ⟨[], ⟨[], .nil, by simp [fail]⟩, rfl⟩

theorem skip_advances (kind : TokenKind) (p : Parser) : p.Advances (p.skip kind) := by
  unfold skip
  exact advances_ite p.bump_takes.1 (.refl p)

theorem expect_advances (kind : TokenKind) (fault : Fault) (p : Parser) :
    p.Advances (p.expect kind fault) := by
  unfold expect
  exact advances_ite p.bump_takes.1 (p.fail_advances fault)

/-- What is read between the start and the end of a node is read as that node. -/
theorem Reads.enclose {p q : Parser} {trees : List Tree} (kind : NodeKind)
    (h : (p.emit (.start kind none)).Reads trees q) :
    p.Reads [.node kind trees] (q.emit .finish) := by
  obtain ⟨events, hspells, hq⟩ := h.written
  refine ⟨⟨_, hspells.enclose kind, ?_⟩, ?_⟩
  · simp [emit] at hq ⊢
    simp [hq]
  · simpa [emit, Tree.leavesAll, Tree.leaves] using h.taken

theorem node_advances (kind : NodeKind) {body : Parser → Parser} (h : ∀ p : Parser, p.Advances (body p))
    (p : Parser) : p.Advances (p.node kind body) := by
  obtain ⟨trees, h⟩ := h (p.emit (.start kind none))
  exact ⟨_, h.enclose kind⟩

theorem node_takes (kind : NodeKind) {body : Parser → Parser} (h : ∀ p : Parser, p.Takes (body p))
    (p : Parser) : p.Takes (p.node kind body) :=
  ⟨node_advances kind (fun p => (h p).1) p, (h (p.emit (.start kind none))).2⟩

theorem name_takes (p : Parser) : p.Takes p.name := node_takes .name bump_takes p

theorem failAndBump_advances (fault : Fault) (p : Parser) : p.Advances (p.failAndBump fault) := by
  have hfail := p.fail_advances fault
  unfold failAndBump
  exact advances_ite hfail (hfail.trans (node_takes .error bump_takes _).1)

/-! ### Loops -/

theorem iterate_advances (more : Parser → Bool) {body : Parser → Parser}
    (h : ∀ p : Parser, p.Advances (body p)) (rounds : Nat) (p : Parser) :
    p.Advances (iterate more body rounds p) := by
  induction rounds generalizing p with
  | zero => exact .refl p
  | succ rounds ih =>
      rw [iterate]
      exact advances_ite ((h p).trans (ih (body p))) (.refl p)

theorem repeatWhile_advances (more : Parser → Bool) {body : Parser → Parser}
    (h : ∀ p : Parser, p.Advances (body p)) (p : Parser) : p.Advances (p.repeatWhile more body) :=
  iterate_advances more h _ p

/-- A loop whose every round takes a token ends where its condition fails. -/
theorem more_iterate_eq_false {more : Parser → Bool} {body : Parser → Parser}
    (h : ∀ p : Parser, more p = true → (body p).rest.length < p.rest.length) (rounds : Nat)
    (p : Parser) (hrounds : p.rest.length < rounds) :
    more (iterate more body rounds p) = false := by
  induction rounds generalizing p with
  | zero => omega
  | succ rounds ih =>
      rw [iterate]
      split
      next hmore =>
          have hbody := h p hmore
          exact ih (body p) (by omega)
      next hmore => simpa using hmore

theorem itemsUntil_advances (close : TokenKind) {item : Parser → Parser}
    (h : ∀ p : Parser, p.Advances (item p)) (rounds : Nat) (p : Parser) :
    p.Advances (itemsUntil close item rounds p) := by
  induction rounds generalizing p with
  | zero => exact .refl p
  | succ rounds ih =>
      rw [itemsUntil]
      exact advances_ite (.refl p)
        (advances_ite (((h p).trans (bump_takes _).1).trans (ih _)) (h p))

/-! ### Nodes that can be wrapped -/

/-- From `p` on, a tree was read whose outermost node is the finished one; its start has
no wrapper yet. -/
structure Completes (p : Parser) (tree : Tree) (r : Completed × Parser) : Prop where
  written : ∃ inner last, (∀ link ∈ inner ++ [last], Spells link.inside link.trees) ∧
    Link.nest (inner ++ [last]) = [tree] ∧
    r.1.start = p.events.size + (Link.linked inner).length ∧
    r.2.events.toList = p.events.toList ++ Link.chain inner last
  taken : p.rest = tree.leaves ++ r.2.rest

/-- A tree was read that can still be wrapped. -/
def Finishes (p : Parser) (r : Completed × Parser) : Prop := ∃ tree, p.Completes tree r

theorem Completes.reads {p : Parser} {tree : Tree} {r : Completed × Parser}
    (h : p.Completes tree r) : p.Reads [tree] r.2 := by
  obtain ⟨inner, last, hlinks, hnest, -, hevents⟩ := h.written
  have hspells := Spells.node inner last hlinks .nil
  rw [hnest, List.append_nil, List.append_nil] at hspells
  exact ⟨⟨_, hspells, hevents⟩, by simpa [Tree.leavesAll] using h.taken⟩

theorem Finishes.advances {p : Parser} {r : Completed × Parser} (h : p.Finishes r) :
    p.Advances r.2 := by
  obtain ⟨tree, h⟩ := h
  exact ⟨[tree], h.reads⟩

theorem toList_setKind {events : Array Event} {before after : List Event} (kind : NodeKind)
    (h : events.toList = before ++ .reserved :: after) :
    (setKind events before.length kind).toList = before ++ .start kind none :: after := by
  have hget : events[before.length]? = some .reserved := by
    rw [← Array.getElem?_toList, h]
    simp
  rw [setKind, hget]
  simp [h]

/-- A start that links nowhere is the outermost itself. -/
theorem toList_link {events : Array Event} {before after : List Event} {kind : NodeKind}
    (h : events.toList = before ++ .start kind none :: after) (outer : Nat) :
    (link events before.length outer).toList =
      before ++ .start kind (some (outer - before.length)) :: after := by
  have hget : events[before.length]? = some (.start kind none) := by
    rw [← Array.getElem?_toList, h]
    simp
  obtain ⟨steps, hsteps⟩ : ∃ steps, events.size = steps + 1 :=
    ⟨before.length + after.length, by simp [← Array.length_toList, h, Nat.add_assoc]⟩
  rw [link, hsteps, linkFrom, hget]
  simp [h]

theorem toList_complete {q : Parser} {before after : List Event} (kind : NodeKind)
    (h : q.events.toList = before ++ .reserved :: after) :
    (q.complete before.length kind).2.events.toList =
      before ++ .start kind none :: (after ++ [.finish]) := by
  simp [complete, toList_setKind kind h]

/-- A reserved start becomes the node around what was read since. -/
theorem Reads.completes {p q : Parser} {trees : List Tree} (kind : NodeKind)
    (h : p.reserve.2.Reads trees q) :
    p.Completes (.node kind trees) (q.complete p.reserve.1 kind) := by
  obtain ⟨events, hspells, hq⟩ := h.written
  have hevents : q.events.toList = p.events.toList ++ .reserved :: events := by
    simpa [reserve, emit] using hq
  refine ⟨⟨[], ⟨kind, events, trees⟩, by simpa using hspells, rfl, rfl, ?_⟩, h.taken⟩
  exact toList_complete kind hevents

theorem complete_takes (kind : NodeKind) {p q : Parser} (h : p.reserve.2.Takes q) :
    p.Takes (q.complete p.reserve.1 kind).2 := by
  obtain ⟨⟨trees, hreads⟩, hrest⟩ := h
  exact ⟨⟨_, (hreads.completes kind).reads⟩, hrest⟩

theorem completeNode_finishes (kind : NodeKind) {body : Parser → Parser} {p : Parser}
    (h : p.reserve.2.Advances (body p.reserve.2)) : p.Finishes (p.completeNode kind body) := by
  obtain ⟨trees, h⟩ := h
  exact ⟨_, h.completes kind⟩

theorem completeNode_takes (kind : NodeKind) {body : Parser → Parser} {p : Parser}
    (h : p.reserve.2.Takes (body p.reserve.2)) : p.Takes (p.completeNode kind body).2 :=
  ⟨(completeNode_finishes kind h.1).advances, h.2⟩

/-- The start of a finished node is linked to the place reserved around it. -/
theorem toList_wrap {p : Parser} {operand : Completed} {before : List Event} {last : Link}
    (hstart : operand.start = before.length)
    (h : p.events.toList = before ++ last.events none) :
    (p.wrap operand).2.events.toList = before ++ last.events (some last.reach) ++ [.reserved] := by
  have hsize : p.events.size = before.length + last.reach := by
    rw [← Array.length_toList, h, List.length_append, Link.events_length]
  have hpush : (p.events.push .reserved).toList =
      before ++ .start last.kind none :: (last.inside ++ [.finish] ++ [.reserved]) := by
    simp [h, Link.events]
  simp only [wrap, hstart, toList_link hpush, hsize, Nat.add_sub_cancel_left, Link.events,
    List.append_assoc, List.cons_append]

theorem Completes.wrapped {p q : Parser} {tree : Tree} {operand : Completed}
    (h : p.Completes tree (operand, q)) {r : Parser} {trees : List Tree} (kind : NodeKind)
    (hr : (q.wrap operand).2.Reads trees r) :
    p.Completes (.node kind (tree :: trees)) (r.complete (q.wrap operand).1 kind) := by
  obtain ⟨inner, last, hlinks, hnest, hstart, hevents⟩ := h.written
  obtain ⟨events, hspells, hwritten⟩ := hr.written
  have hq : q.events.toList = p.events.toList ++ Link.linked inner ++ last.events none := by
    rw [hevents, Link.chain, List.append_assoc]
  have hplace : operand.start = (p.events.toList ++ Link.linked inner).length := by
    simpa using hstart
  have hwrap := toList_wrap hplace hq
  have hreserved : r.events.toList =
      p.events.toList ++ Link.linked (inner ++ [last]) ++ .reserved :: events := by
    rw [hwritten, hwrap, Link.linked_concat]
    simp
  have houter : (q.wrap operand).1 =
      (p.events.toList ++ Link.linked (inner ++ [last])).length := by
    change q.events.size = _
    rw [← Array.length_toList, hq, Link.linked_concat]
    simp
  refine ⟨⟨inner ++ [last], ⟨kind, events, trees⟩, ?_, ?_, ?_, ?_⟩, ?_⟩
  · intro link hlink
    rcases List.mem_append.mp hlink with hlink | hlink
    · exact hlinks link hlink
    · rw [List.mem_singleton.mp hlink]
      exact hspells
  · rw [Link.nest_concat, hnest]
    rfl
  · change (q.wrap operand).1 = _
    rw [houter, List.length_append, Array.length_toList]
  · rw [houter, toList_complete kind hreserved, Link.chain, List.append_assoc]
    rfl
  · have hrest : q.rest = Tree.leavesAll trees ++ r.rest := hr.taken
    have htaken : p.rest = tree.leaves ++ q.rest := h.taken
    rw [htaken, hrest, ← List.append_assoc]
    rfl

theorem wrapNode_finishes {p q : Parser} {operand : Completed} (h : p.Finishes (operand, q))
    (kind : NodeKind) {body : Parser → Parser} (hbody : ∀ p : Parser, p.Advances (body p)) :
    p.Finishes (q.wrapNode operand kind body) := by
  obtain ⟨tree, h⟩ := h
  obtain ⟨trees, hr⟩ := hbody (q.wrap operand).2
  exact ⟨_, h.wrapped kind hr⟩

theorem length_wrapNode_le (q : Parser) (operand : Completed) (kind : NodeKind)
    {body : Parser → Parser} (hbody : ∀ p : Parser, p.Advances (body p)) :
    (q.wrapNode operand kind body).2.rest.length ≤ q.rest.length :=
  (hbody (q.wrap operand).2).length_le

end Gml.Parser
