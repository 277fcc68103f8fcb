import Gml.Proofs.Parser.Reading
import Gml.Proofs.Tree.Production

/-!
# What is read without a fault

No operation takes a recorded fault back, so where a run of the parser ends with no more
faults than it began with, none of its parts recorded one. A rule yields a shape if
what it reads in such a run has the shape. Rules below a bound on the remaining tokens
are put together here like the languages that they yield.
-/
namespace Gml.Parser

open Shape Computability

variable {p q r : Parser} {shape other : Language Tree}

structure Yields (p : Parser) (shape : Language Tree) (q : Parser) : Prop where
  length_le : q.rest.length ≤ p.rest.length
  errors_le : p.errors.size ≤ q.errors.size
  reads : q.errors.size = p.errors.size →
    ∃ trees ∈ shape, p.Reads trees q ∧ ∀ tree ∈ trees, tree.WellShaped

namespace Yields

theorem refl (p : Parser) : p.Yields 1 p where
  length_le := Nat.le_refl _
  errors_le := Nat.le_refl _
  reads _ := ⟨[], Language.nil_mem_one, .refl p, nofun⟩

theorem trans (h : p.Yields shape q) (k : q.Yields other r) : p.Yields (shape * other) r := by
  have hlength := h.length_le
  have herrors := h.errors_le
  refine ⟨k.length_le.trans hlength, herrors.trans k.errors_le, fun hclean => ?_⟩
  have herrors' := k.errors_le
  obtain ⟨first, hfirst, hreads, hshaped⟩ := h.reads (by omega)
  obtain ⟨second, hsecond, hreads', hshaped'⟩ := k.reads (by omega)
  refine ⟨first ++ second, Language.append_mem_mul hfirst hsecond, hreads.trans hreads', ?_⟩
  intro tree htree
  rcases List.mem_append.mp htree with htree | htree
  · exact hshaped tree htree
  · exact hshaped' tree htree

theorem mono (h : p.Yields shape q) (hle : shape ≤ other) : p.Yields other q where
  length_le := h.length_le
  errors_le := h.errors_le
  reads hclean := by
    obtain ⟨trees, hmem, hreads⟩ := h.reads hclean
    exact ⟨trees, hle hmem, hreads⟩

/-- Where a fault is recorded, nothing is asked of what is read. -/
theorem of_errors_lt (hlength : q.rest.length ≤ p.rest.length)
    (hlt : p.errors.size < q.errors.size) (shape : Language Tree) : p.Yields shape q where
  length_le := hlength
  errors_le := hlt.le
  reads hclean := absurd hclean hlt.ne'

end Yields

theorem Yields.fail (h : p.Yields shape q) (fault : Fault) (other : Language Tree) :
    p.Yields other (q.fail fault) := by
  have hlt : p.errors.size < (q.fail fault).errors.size := by
    simpa [Parser.fail] using Nat.lt_succ_of_le h.errors_le
  exact .of_errors_lt (q := q.fail fault) h.length_le hlt other

theorem fail_yields (fault : Fault) (p : Parser) (shape : Language Tree) :
    p.Yields shape (p.fail fault) :=
  (Yields.refl p).fail fault shape

theorem errors_bump (p : Parser) : p.bump.errors = p.errors := by
  unfold bump
  cases p.rest <;> rfl

theorem failAndBump_yields (fault : Fault) (p : Parser) (shape : Language Tree) :
    p.Yields shape (p.failAndBump fault) := by
  refine .of_errors_lt (p.failAndBump_advances fault).length_le ?_ shape
  unfold failAndBump
  dsimp only
  split
  · simp [fail]
  · simp [node, emit, errors_bump, fail]

/-- Tokens of the kind are there to be taken and fit a lexeme. -/
def Plain (kind : TokenKind) : Prop := kind ≠ .eof ∧ kind ≠ .error

instance (kind : TokenKind) : Decidable (Plain kind) := inferInstanceAs (Decidable (_ ∧ _))

theorem exists_token {kind : TokenKind} (hkind : kind ≠ .eof) (hp : p.current = kind) :
    ∃ t rest, p.rest = t :: rest ∧ t.kind = kind := by
  cases hrest : p.rest with
  | nil =>
      rw [current, hrest] at hp
      exact absurd hp.symm hkind
  | cons t rest =>
      rw [current, hrest] at hp
      exact ⟨t, rest, rfl, hp⟩

theorem bump_yields {t : Token} {rest : List Token} (hrest : p.rest = t :: rest)
    (hfits : t.kind ≠ .error) (hmem : [.leaf t] ∈ shape) :
    p.Yields shape p.bump ∧ p.bump.rest.length < p.rest.length := by
  have hbump : p.bump = { p with rest, events := p.events.push (.token t.kind) } := by
    rw [bump, hrest]
  have hreads : p.Reads [.leaf t] p.bump := by
    refine ⟨⟨[.token t.kind], .token t .nil, ?_⟩, ?_⟩
    · simp [hbump]
    · simp [hbump, hrest, Tree.leavesAll, Tree.leaves]
  have hlength : p.bump.rest.length < p.rest.length := by simp [hbump, hrest]
  refine ⟨⟨hlength.le, (congrArg Array.size (errors_bump p)).ge, fun _ => ?_⟩, hlength⟩
  refine ⟨[.leaf t], hmem, hreads, ?_⟩
  intro tree htree
  rw [List.mem_singleton.mp htree]
  exact .leaf hfits

theorem node_yields {kind : NodeKind} {body : Parser → Parser}
    (h : (p.emit (.start kind none)).Yields kind.production (body (p.emit (.start kind none)))) :
    p.Yields (Shape.node kind) (p.node kind body) where
  length_le := h.length_le
  errors_le := h.errors_le
  reads hclean := by
    obtain ⟨trees, hmem, hreads, hshaped⟩ := h.reads hclean
    refine ⟨[.node kind trees], ⟨trees, rfl⟩, hreads.enclose kind, ?_⟩
    intro tree htree
    rw [List.mem_singleton.mp htree]
    exact .node hmem hshaped

/-! ### Rules below a bound -/

/-- With less than `n` tokens left the rule yields the shape. -/
def Parses (n : Nat) (shape : Language Tree) (rule : Parser → Parser) : Prop :=
  ∀ p : Parser, p.rest.length < n → p.Yields shape (rule p)

/-- With at most `n` tokens left, of which the first has the kind, the rule yields the
shape and leaves less than `n`. -/
def Leads (n : Nat) (kind : TokenKind) (shape : Language Tree) (rule : Parser → Parser) : Prop :=
  ∀ p : Parser, p.rest.length ≤ n → p.current = kind →
    p.Yields shape (rule p) ∧ (rule p).rest.length < n

variable {n : Nat} {kind : TokenKind} {rule next : Parser → Parser}

theorem leads_bump (n : Nat) (kind : TokenKind) (hkind : Plain kind) :
    Leads n kind (token kind) bump := by
  intro p hp hcurrent
  obtain ⟨t, rest, hrest, rfl⟩ := exists_token hkind.1 hcurrent
  have hmem : [Tree.leaf t] ∈ token t.kind := ⟨t, rfl, rfl⟩
  obtain ⟨hyields, hlt⟩ := bump_yields hrest hkind.2 hmem
  exact ⟨hyields, by omega⟩

/-- Any token of a class that leaves out the end and unreadable text. -/
theorem leads_bumpThat (n : Nat) {accepts : TokenKind → Bool} (haccepts : accepts kind = true)
    (hend : accepts .eof = false) (herror : accepts .error = false) :
    Leads n kind (tokenThat accepts) bump := by
  have hplain : Plain kind := by
    constructor
    · rintro rfl
      exact Bool.false_ne_true (hend.symm.trans haccepts)
    · rintro rfl
      exact Bool.false_ne_true (herror.symm.trans haccepts)
  intro p hp hcurrent
  obtain ⟨hyields, hlt⟩ := leads_bump n kind hplain p hp hcurrent
  exact ⟨hyields.mono (tokenThat_of_token haccepts), hlt⟩

namespace Leads

theorem comp (h : Leads n kind shape rule) (k : Parses n other next) :
    Leads n kind (shape * other) (fun p => next (rule p)) := by
  intro p hp hcurrent
  obtain ⟨hyields, hlt⟩ := h p hp hcurrent
  have hnext := k (rule p) hlt
  exact ⟨hyields.trans hnext, Nat.lt_of_le_of_lt hnext.length_le hlt⟩

theorem mono (h : Leads n kind shape rule) (hle : shape ≤ other) : Leads n kind other rule :=
  fun p hp hcurrent => ⟨(h p hp hcurrent).1.mono hle, (h p hp hcurrent).2⟩

theorem node (h : Leads n kind shape rule) {nodeKind : NodeKind}
    (hshape : shape = nodeKind.production) :
    Leads n kind (Shape.node nodeKind) (fun p => p.node nodeKind rule) := by
  subst hshape
  intro p hp hcurrent
  obtain ⟨hyields, hlt⟩ := h (p.emit (.start nodeKind none)) hp hcurrent
  exact ⟨node_yields hyields, hlt⟩

theorem yields (h : Leads n kind shape rule) (hp : p.rest.length ≤ n) (hcurrent : p.current = kind) :
    p.Yields shape (rule p) :=
  (h p hp hcurrent).1

theorem yieldsAt (h : Leads n kind shape rule) (hp : p.rest.length ≤ n)
    (hcurrent : p.isAt kind = true) : p.Yields shape (rule p) :=
  h.yields hp (by simpa [isAt] using hcurrent)

end Leads

theorem parses_id (n : Nat) : Parses n 1 (fun p => p) := fun p _ => .refl p

theorem parses_fail (n : Nat) (fault : Fault) (shape : Language Tree) :
    Parses n shape (fail fault) :=
  fun p _ => p.fail_yields fault shape

namespace Parses

theorem comp (h : Parses n shape rule) (k : Parses n other next) :
    Parses n (shape * other) (fun p => next (rule p)) := by
  intro p hp
  have hyields := h p hp
  exact hyields.trans (k (rule p) (Nat.lt_of_le_of_lt hyields.length_le hp))

theorem mono (h : Parses n shape rule) (hle : shape ≤ other) : Parses n other rule :=
  fun p hp => (h p hp).mono hle

theorem ite {more : Parser → Bool} (h : ∀ p : Parser, p.rest.length < n → more p = true →
    p.Yields shape (rule p)) (k : Parses n shape next) :
    Parses n shape (fun p => if more p then rule p else next p) := by
  intro p hp
  dsimp only
  split
  next hmore => exact h p hp hmore
  · exact k p hp

end Parses

theorem Leads.option (h : Leads n kind shape rule) :
    Parses n (optional shape) (fun p => if p.isAt kind then rule p else p) :=
  .ite (fun _ hp hat => (h.yieldsAt hp.le hat).mono (le_optional shape))
    ((parses_id n).mono (one_le_optional shape))

theorem Leads.orFail (h : Leads n kind shape rule) (fault : Fault) :
    Parses n shape (fun p => if p.isAt kind then rule p else p.fail fault) :=
  .ite (fun _ hp hat => h.yieldsAt hp.le hat) (parses_fail n fault shape)

theorem parses_skip (n : Nat) (kind : TokenKind) (hkind : Plain kind) :
    Parses n (optional (token kind)) (skip kind) :=
  (leads_bump n kind hkind).option

theorem parses_expect (n : Nat) (kind : TokenKind) (fault : Fault) (hkind : Plain kind) :
    Parses n (token kind) (expect kind fault) :=
  (leads_bump n kind hkind).orFail fault

theorem leads_name (n : Nat) : Leads n .ident (Shape.node .name) name :=
  (leads_bump n .ident (by decide)).node rfl

/-! ### Loops -/

theorem parses_iterate {more : Parser → Bool} (h : ∀ p : Parser, p.rest.length < n →
    more p = true → p.Yields shape (rule p)) (rounds : Nat) :
    Parses n shape∗ (iterate more rule rounds) := by
  induction rounds with
  | zero => exact (parses_id n).mono one_le_kstar
  | succ rounds ih =>
      refine .ite (fun p hp hmore => ?_) ((parses_id n).mono one_le_kstar)
      have hround := h p hp hmore
      have hrest := ih (rule p) (Nat.lt_of_le_of_lt hround.length_le hp)
      exact (hround.trans hrest).mono mul_kstar_le_kstar

theorem parses_repeatWhile {more : Parser → Bool} (h : ∀ p : Parser, p.rest.length < n →
    more p = true → p.Yields shape (rule p)) : Parses n shape∗ (repeatWhile more rule) :=
  fun p hp => parses_iterate h p.rounds p hp

/-- An item with a comma and more items behind it, if there is a comma. -/
theorem Parses.beforeComma (h : Parses n shape rule) (k : Parses n other next) :
    Parses n (shape * optional (token .comma * other))
      (fun p => if (rule p).isAt .comma then next (rule p).bump else rule p) :=
  h.comp ((leads_bump n .comma (by decide)).comp k).option

theorem parses_itemsUntil (close : TokenKind) (h : Parses n shape rule) (rounds : Nat) :
    Parses n (listed shape) (itemsUntil close rule rounds) := by
  induction rounds with
  | zero => exact (parses_id n).mono (one_le_optional _)
  | succ rounds ih =>
      refine .ite (fun p _ _ => ?_) ?_
      · exact (Yields.refl p).mono (one_le_optional _)
      · exact (h.beforeComma ih).mono listed_step

/-! ### Nodes that can be wrapped -/

/-- What is read from `p` on without a fault is the finished node, in the shape. -/
structure Forms (p : Parser) (shape : Language Tree) (r : Completed × Parser) : Prop where
  length_le : r.2.rest.length ≤ p.rest.length
  errors_le : p.errors.size ≤ r.2.errors.size
  completes : r.2.errors.size = p.errors.size → ∃ children,
    p.Completes (.node r.1.kind children) r ∧ [.node r.1.kind children] ∈ shape ∧
      (Tree.node r.1.kind children).WellShaped

theorem Forms.mono {r : Completed × Parser} (h : p.Forms shape r) (hle : shape ≤ other) :
    p.Forms other r where
  length_le := h.length_le
  errors_le := h.errors_le
  completes hclean := by
    obtain ⟨children, hcompletes, hmem, hshaped⟩ := h.completes hclean
    exact ⟨children, hcompletes, hle hmem, hshaped⟩

theorem Forms.of_errors_lt {r : Completed × Parser} (hlength : r.2.rest.length ≤ p.rest.length)
    (hlt : p.errors.size < r.2.errors.size) (shape : Language Tree) : p.Forms shape r where
  length_le := hlength
  errors_le := hlt.le
  completes hclean := absurd hclean hlt.ne'

theorem Forms.yields {r : Completed × Parser} (h : p.Forms shape r) : p.Yields shape r.2 where
  length_le := h.length_le
  errors_le := h.errors_le
  reads hclean := by
    obtain ⟨children, hcompletes, hmem, hshaped⟩ := h.completes hclean
    refine ⟨_, hmem, hcompletes.reads, ?_⟩
    intro tree htree
    rwa [List.mem_singleton.mp htree]

theorem complete_forms {nodeKind : NodeKind} (h : p.reserve.2.Yields nodeKind.production q) :
    p.Forms (Shape.node nodeKind) (q.complete p.reserve.1 nodeKind) where
  length_le := h.length_le
  errors_le := h.errors_le
  completes hclean := by
    obtain ⟨trees, hmem, hreads, hshaped⟩ := h.reads hclean
    exact ⟨trees, hreads.completes nodeKind, ⟨trees, rfl⟩, .node hmem hshaped⟩

theorem Leads.completeNode (h : Leads n kind shape rule) {nodeKind : NodeKind}
    (hshape : shape = nodeKind.production) (hp : p.rest.length ≤ n) (hcurrent : p.current = kind) :
    p.Forms (Shape.node nodeKind) (p.completeNode nodeKind rule) := by
  subst hshape
  exact complete_forms (h.yields hp hcurrent)

/-- A finished node and what follows it become the parts of a larger node. -/
theorem Leads.wrapNode (h : Leads n kind shape rule) {nodeKind : NodeKind} {operand : Completed}
    (hshape : other * shape = nodeKind.production) (hoperand : p.Forms other (operand, q))
    (hq : q.rest.length ≤ n) (hcurrent : q.current = kind) :
    p.Forms (Shape.node nodeKind) (q.wrapNode operand nodeKind rule) := by
  have hbody : (q.wrap operand).2.Yields shape (rule (q.wrap operand).2) := h.yields hq hcurrent
  have hlength : (rule (q.wrap operand).2).rest.length ≤ q.rest.length := hbody.length_le
  have herrors : q.errors.size ≤ (rule (q.wrap operand).2).errors.size := hbody.errors_le
  have hfirst : p.errors.size ≤ q.errors.size := hoperand.errors_le
  refine ⟨hlength.trans hoperand.length_le, hfirst.trans herrors, fun hclean => ?_⟩
  have hclean' : (rule (q.wrap operand).2).errors.size = p.errors.size := hclean
  obtain ⟨children, hcompletes, hmem, hshaped⟩ := hoperand.completes (by change q.errors.size = _; omega)
  obtain ⟨trees, hmem', hreads, hshaped'⟩ := hbody.reads (by change _ = q.errors.size; omega)
  refine ⟨_, hcompletes.wrapped nodeKind hreads, ⟨_, rfl⟩, .node ?_ ?_⟩
  · change _ ∈ nodeKind.production
    rw [← hshape]
    exact Language.append_mem_mul hmem hmem'
  · intro tree htree
    rcases List.mem_cons.mp htree with rfl | htree
    · exact hshaped
    · exact hshaped' tree htree

end Gml.Parser
