import Gml.SymbolTable.Basic
import Mathlib.Data.List.Nodup
import Mathlib.Logic.Function.Basic

/-!
# Lists in blocks

Where several documents have records of one name, the records of each document stand
together in a block. A document that is read again gets a new block: in the place of the
old one, or at the end. The blocks of the other documents stay where they are.
-/
namespace Gml

/-- The records fall into one block for each owner, in the order of the owners. -/
structure Blocks {β : Type} (ownerOf : β → Uri) (block : Uri → List β) (owners : List Uri)
    (records : List β) : Prop where
  nodup : owners.Nodup
  mem_iff : ∀ uri, uri ∈ owners ↔ block uri ≠ []
  owned : ∀ uri, ∀ record ∈ block uri, ownerOf record = uri
  eq : records = owners.flatMap block

/-- Puts records into a list at a place. -/
def splice {β : Type} (slot : Nat) (new records : List β) : List β :=
  records.take slot ++ (new ++ records.drop slot)

theorem splice_nil {β : Type} (slot : Nat) (records : List β) : splice slot [] records = records :=
  List.take_append_drop slot records

theorem splice_length {β : Type} (before new after : List β) :
    splice before.length new (before ++ after) = before ++ (new ++ after) := by
  rw [splice, List.take_left, List.drop_left]

namespace Blocks

variable {β : Type} {ownerOf : β → Uri} {block : Uri → List β} {uri : Uri}
  {owners before after : List Uri} {records : List β}

theorem nil (hnone : ∀ uri, block uri = []) : Blocks ownerOf block [] [] where
  nodup := .nil
  mem_iff := fun uri => by simp [hnone uri]
  owned := fun uri record hrecord => by simp [hnone uri] at hrecord
  eq := rfl

/-- What depends on the owner alone keeps or drops whole blocks. -/
theorem filter_owner (h : Blocks ownerOf block owners records) (keep : Uri → Bool) :
    records.filter (fun record => keep (ownerOf record)) = (owners.filter keep).flatMap block := by
  have hblock : ∀ uri, (block uri).filter (fun record => keep (ownerOf record)) =
      if keep uri then block uri else [] := by
    intro uri
    split
    next hkeep =>
        rw [List.filter_eq_self]
        intro record hrecord
        rw [h.owned uri record hrecord, hkeep]
    next hdrop =>
        rw [List.filter_eq_nil_iff]
        intro record hrecord
        rwa [h.owned uri record hrecord]
  rw [h.eq]
  clear h
  induction owners with
  | nil => rfl
  | cons uri rest ih =>
      rw [List.flatMap_cons, List.filter_append, ih, hblock, List.filter_cons]
      split
      · rw [List.flatMap_cons]
      · rw [List.nil_append]

/-- The records of one owner are its block. -/
theorem filter_eq (h : Blocks ownerOf block owners records) (uri : Uri) :
    records.filter (ownerOf · == uri) = block uri := by
  rw [h.filter_owner (· == uri)]
  by_cases hmem : uri ∈ owners
  · obtain ⟨before, after, hsplit⟩ := List.append_of_mem hmem
    have hnodup := h.nodup
    rw [hsplit, List.nodup_middle, List.nodup_cons, List.mem_append, not_or] at hnodup
    obtain ⟨⟨hbefore, hafter⟩, -⟩ := hnodup
    have hothers : ∀ others : List Uri, uri ∉ others → others.filter (· == uri) = [] := by
      intro others hnot
      rw [List.filter_eq_nil_iff]
      intro other hother heq
      exact hnot (eq_of_beq heq ▸ hother)
    rw [hsplit, List.filter_append, List.filter_cons_of_pos (by simp), hothers _ hbefore,
      hothers _ hafter]
    simp
  · have hnone : block uri = [] := by
      by_contra hne
      exact hmem ((h.mem_iff uri).mpr hne)
    rw [hnone, List.flatMap_eq_nil_iff]
    intro other hother
    rw [eq_of_beq (List.mem_filter.mp hother).2, hnone]

theorem notMem_of_block_eq_nil (h : Blocks ownerOf block owners records) (hfree : block uri = []) :
    uri ∉ owners :=
  fun hmem => (h.mem_iff uri).mp hmem hfree

theorem filter_ne_eq_self (h : Blocks ownerOf block owners records) (hfree : block uri = []) :
    records.filter (ownerOf · != uri) = records := by
  rw [h.filter_owner (· != uri),
    List.filter_bne_eq_self_of_not_mem (h.notMem_of_block_eq_nil hfree), ← h.eq]

/-- The owners can be read off the records. -/
theorem eraseDups_map (h : Blocks ownerOf block owners records) :
    (records.map ownerOf).eraseDups = owners := by
  obtain ⟨hnodup, hmem, howned, rfl⟩ := h
  have hne : ∀ uri ∈ owners, block uri ≠ [] := fun uri => (hmem uri).mp
  clear hmem
  induction owners with
  | nil => rfl
  | cons uri rest ih =>
      obtain ⟨hnot, hrest⟩ := List.nodup_cons.mp hnodup
      obtain ⟨first, others, hblock⟩ := List.exists_cons_of_ne_nil (hne uri List.mem_cons_self)
      have hfirst : ∀ record ∈ first :: others, ownerOf record = uri := hblock ▸ howned uri
      -- Behind the first record all others of its block go, and nothing else.
      have hothers : (others.map ownerOf).filter (fun owner => !owner == uri) = [] := by
        rw [List.filter_eq_nil_iff, List.forall_mem_map]
        intro record hrecord
        simp [hfirst record (List.mem_cons_of_mem first hrecord)]
      have hlater : ((rest.flatMap block).map ownerOf).filter (fun owner => !owner == uri) =
          (rest.flatMap block).map ownerOf := by
        rw [List.filter_eq_self, List.forall_mem_map]
        intro record hrecord
        obtain ⟨other, hother, hin⟩ := List.mem_flatMap.mp hrecord
        rw [howned other record hin, Bool.not_eq_true', beq_eq_false_iff_ne]
        rintro rfl
        exact hnot hother
      rw [List.flatMap_cons, hblock, List.cons_append, List.map_cons, hfirst first List.mem_cons_self,
        List.eraseDups_cons, List.map_append, List.filter_append, hothers, hlater, List.nil_append,
        ih hrest fun other hother => hne other (List.mem_cons_of_mem uri hother)]

theorem ofOwners (h : Blocks ownerOf block owners records) :
    Blocks ownerOf block (records.map ownerOf).eraseDups records := by
  rwa [h.eraseDups_map]

/-- The first record is the first one of the first owner. -/
theorem head?_eq (h : Blocks ownerOf block owners records) :
    records.head? = owners.head?.bind fun uri => (block uri).head? := by
  rw [h.eq]
  cases howners : owners with
  | nil => rfl
  | cons uri rest =>
      have hne : block uri ≠ [] := (h.mem_iff uri).mp (by simp [howners])
      rw [List.flatMap_cons, List.head?_append_of_ne_nil _ hne]
      rfl

/-! ### A new block -/

/-- The blocks of the others are left when an owner goes. -/
theorem without (h : Blocks ownerOf block owners records) (uri : Uri) :
    Blocks ownerOf (Function.update block uri []) (owners.filter (· != uri))
      (records.filter (ownerOf · != uri)) where
  nodup := h.nodup.filter _
  mem_iff := by
    intro other
    rw [List.mem_filter, h.mem_iff, Function.update_apply]
    split
    next heq => simp [heq]
    next hne => simp [hne]
  owned := by
    intro other record hrecord
    rw [Function.update_apply] at hrecord
    split at hrecord
    · cases hrecord
    · exact h.owned other record hrecord
  eq := by
    rw [h.filter_owner (· != uri)]
    refine List.flatMap_congr fun other hother => ?_
    rw [Function.update_of_ne (by simpa using (List.mem_filter.mp hother).2)]

/-- A document without a block gets one between two others. -/
theorem put (h : Blocks ownerOf block (before ++ after) records) {uri : Uri}
    (hfree : block uri = []) {new : List β} (hne : new ≠ [])
    (hnew : ∀ record ∈ new, ownerOf record = uri) :
    Blocks ownerOf (Function.update block uri new) (before ++ uri :: after)
      (before.flatMap block ++ (new ++ after.flatMap block)) := by
  have hnot : uri ∉ before ++ after := h.notMem_of_block_eq_nil hfree
  have hother : ∀ other ∈ before ++ after, Function.update block uri new other = block other := by
    intro other hmem
    refine Function.update_of_ne ?_ _ _
    rintro rfl
    exact hnot hmem
  refine ⟨?_, ?_, ?_, ?_⟩
  · rw [List.nodup_middle]
    exact List.nodup_cons.mpr ⟨hnot, h.nodup⟩
  · intro other
    rw [Function.update_apply]
    split
    next heq => simp [heq, hne]
    next hneq =>
        rw [← h.mem_iff]
        simp [hneq]
  · intro other record hrecord
    rw [Function.update_apply] at hrecord
    split at hrecord
    next heq => rw [heq, hnew record hrecord]
    next => exact h.owned other record hrecord
  · rw [List.flatMap_append, List.flatMap_cons, Function.update_self,
      List.flatMap_congr fun other hmem => hother other (List.mem_append_left _ hmem),
      List.flatMap_congr fun other hmem => hother other (List.mem_append_right _ hmem)]

/-- A new block at the end. -/
theorem append (h : Blocks ownerOf block owners records) {uri : Uri} (hfree : block uri = [])
    {new : List β} (hne : new ≠ []) (hnew : ∀ record ∈ new, ownerOf record = uri) :
    Blocks ownerOf (Function.update block uri new) (owners ++ [uri]) (records ++ new) := by
  have hput : Blocks ownerOf _ (owners ++ uri :: []) _ :=
    put (by rwa [List.append_nil]) hfree hne hnew
  rwa [List.flatMap_nil, List.append_nil, ← h.eq] at hput

/-- A document that is read again and goes to the end. -/
theorem replaceLast (h : Blocks ownerOf block owners records) (uri : Uri) {new : List β}
    (hnew : ∀ record ∈ new, ownerOf record = uri) :
    Blocks ownerOf (Function.update block uri new)
      (owners.filter (· != uri) ++ if new.isEmpty then [] else [uri])
      (records.filter (ownerOf · != uri) ++ new) := by
  have hothers := h.without uri
  split
  next hempty =>
      rw [List.isEmpty_iff] at hempty
      rwa [hempty, List.append_nil, List.append_nil]
  next hnonempty =>
      have hne : new ≠ [] := fun hnil => hnonempty (List.isEmpty_iff.mpr hnil)
      have hlast := hothers.append (Function.update_self ..) hne hnew
      rwa [Function.update_idem] at hlast

theorem findIdx?_flatMap_eq_none (howned : ∀ other, ∀ record ∈ block other, ownerOf record = other)
    (hnot : uri ∉ owners) : (owners.flatMap block).findIdx? (ownerOf · == uri) = none := by
  rw [List.findIdx?_eq_none_iff]
  intro record hrecord
  obtain ⟨other, hother, hin⟩ := List.mem_flatMap.mp hrecord
  rw [howned other record hin, beq_eq_false_iff_ne]
  rintro rfl
  exact hnot hother

/-- The block of an owner starts where its first record is found. -/
theorem findIdx?_eq (h : Blocks ownerOf block (before ++ uri :: after) records) :
    records.findIdx? (ownerOf · == uri) = some (before.flatMap block).length := by
  obtain ⟨hnot, -⟩ := List.nodup_cons.mp (List.nodup_middle.mp h.nodup)
  have hbefore := findIdx?_flatMap_eq_none h.owned fun hmem => hnot (List.mem_append_left after hmem)
  obtain ⟨first, others, hblock⟩ :=
    List.exists_cons_of_ne_nil ((h.mem_iff uri).mp (by simp))
  have hfirst : (ownerOf first == uri) = true := by simp [h.owned uri first, hblock]
  rw [h.eq, List.flatMap_append, List.flatMap_cons, hblock, List.findIdx?_append, hbefore,
    List.cons_append, List.findIdx?_cons, hfirst]
  simp

/-- A document that is read again keeps its place. -/
theorem replace (h : Blocks ownerOf block owners records) (uri : Uri) {new : List β}
    (hnew : ∀ record ∈ new, ownerOf record = uri) :
    Blocks ownerOf (Function.update block uri new)
      (if new.isEmpty then owners.filter (· != uri)
        else if uri ∈ owners then owners else owners ++ [uri])
      (let kept := records.filter (ownerOf · != uri)
      splice (min ((records.findIdx? (ownerOf · == uri)).getD kept.length) kept.length) new kept) := by
  have hothers := h.without uri
  dsimp only
  split
  next hempty =>
      rw [List.isEmpty_iff] at hempty
      subst hempty
      rwa [splice_nil]
  next hnonempty =>
      have hne : new ≠ [] := fun hnil => hnonempty (List.isEmpty_iff.mpr hnil)
      split
      next hmem =>
          obtain ⟨before, after, rfl⟩ := List.append_of_mem hmem
          obtain ⟨hnot, -⟩ := List.nodup_cons.mp (List.nodup_middle.mp h.nodup)
          have hrest : (before ++ uri :: after).filter (· != uri) = before ++ after := by
            rw [List.filter_append, List.filter_cons_of_neg (by simp), ← List.filter_append,
              List.filter_bne_eq_self_of_not_mem hnot]
          have hbefore : before.flatMap (Function.update block uri []) = before.flatMap block := by
            refine List.flatMap_congr fun other hother => ?_
            refine Function.update_of_ne ?_ _ _
            rintro rfl
            exact hnot (List.mem_append_left after hother)
          rw [hrest] at hothers
          -- Without its block the owner is free, so that the new one is put where the old one was.
          have hput := put hothers (Function.update_self ..) hne hnew
          rw [Function.update_idem] at hput
          rw [h.findIdx?_eq, Option.getD_some, hothers.eq, List.flatMap_append, hbefore,
            Nat.min_eq_left (by simp), splice_length]
          rwa [hbefore] at hput
      next hmem =>
          have hlast := hothers.append (Function.update_self ..) hne hnew
          rw [Function.update_idem, List.filter_bne_eq_self_of_not_mem hmem] at hlast
          have hnone := findIdx?_flatMap_eq_none h.owned hmem
          rw [← h.eq] at hnone
          rw [hnone, Option.getD_none, Nat.min_self, splice, List.take_length, List.drop_length,
            List.append_nil]
          exact hlast

end Blocks

end Gml
