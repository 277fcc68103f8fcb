import Gml.Proofs.SymbolTable.Consistency
import Gml.SymbolTable.Query
import Mathlib.Data.String.Basic

/-!
# The references of a name

The users of a name lead to its uses: in a consistent symbol table the references are
the places of all uses that a scan finds, sorted by document and place.
-/
namespace Gml

namespace Location

theorem le_iff {a b : Location} :
    a.le b = true ↔ a.uri < b.uri ∨ a.uri = b.uri ∧
      (a.start ≠ b.start ∧ a.start.le b.start = true ∨
        a.start = b.start ∧ a.stop.le b.stop = true) := by
  rw [le]
  split
  next huri =>
      split
      next hstart => simp [huri, hstart]
      next hstart => simp [huri, hstart]
  next huri => simp [huri]

theorem le_total (a b : Location) : a.le b = true ∨ b.le a = true := by
  rw [le_iff, le_iff]
  rcases lt_trichotomy a.uri b.uri with hlt | heq | hgt
  · exact .inl (.inl hlt)
  · by_cases hstart : a.start = b.start
    · rcases Position.le_total a.stop b.stop with hle | hle
      · exact .inl (.inr ⟨heq, .inr ⟨hstart, hle⟩⟩)
      · exact .inr (.inr ⟨heq.symm, .inr ⟨hstart.symm, hle⟩⟩)
    · rcases Position.le_total a.start b.start with hle | hle
      · exact .inl (.inr ⟨heq, .inl ⟨hstart, hle⟩⟩)
      · exact .inr (.inr ⟨heq.symm, .inl ⟨Ne.symm hstart, hle⟩⟩)
  · exact .inr (.inl hgt)

theorem le_trans {a b c : Location} (hab : a.le b = true) (hbc : b.le c = true) :
    a.le c = true := by
  rw [le_iff] at *
  rcases hab with hab | ⟨huri, hab⟩
  · rcases hbc with hbc | ⟨huri, _⟩
    · exact .inl (hab.trans hbc)
    · exact .inl (huri ▸ hab)
  · rw [huri]
    rcases hbc with hbc | ⟨huri, hbc⟩
    · exact .inl hbc
    · refine .inr ⟨huri, ?_⟩
      rcases hab with ⟨hne, hab⟩ | ⟨heq, hab⟩
      · rcases hbc with ⟨_, hbc⟩ | ⟨heq, _⟩
        · refine .inl ⟨?_, Position.le_trans hab hbc⟩
          intro hac
          exact hne (Position.le_antisymm hab (hac ▸ hbc))
        · exact .inl (heq ▸ ⟨hne, hab⟩)
      · rw [heq]
        rcases hbc with hbc | ⟨heq, hbc⟩
        · exact .inl hbc
        · exact .inr ⟨heq, Position.le_trans hab hbc⟩

theorem le_antisymm {a b : Location} (hab : a.le b = true) (hba : b.le a = true) : a = b := by
  rw [le_iff] at *
  rcases hab with hlt | ⟨huri, hab⟩
  · rcases hba with hgt | ⟨huri, -⟩
    · exact absurd hgt (lt_asymm hlt)
    · exact absurd huri.symm hlt.ne
  · rcases hba with hgt | ⟨-, hba⟩
    · exact absurd huri.symm hgt.ne
    · have hstart : a.start = b.start := by
        rcases hab with ⟨-, hab⟩ | ⟨heq, -⟩
        · rcases hba with ⟨-, hba⟩ | ⟨heq, -⟩
          · exact Position.le_antisymm hab hba
          · exact heq.symm
        · exact heq
      have hstop : a.stop = b.stop := by
        rcases hab with ⟨hne, -⟩ | ⟨-, hab⟩
        · exact absurd hstart hne
        · rcases hba with ⟨hne, -⟩ | ⟨-, hba⟩
          · exact absurd hstart.symm hne
          · exact Position.le_antisymm hab hba
      cases a
      cases b
      simp_all

end Location

namespace SymbolTable

variable {t : SymbolTable}

theorem pairwise_sortLocations (locations : List Location) :
    (sortLocations locations).Pairwise (fun a b => a.le b = true) := by
  refine List.pairwise_mergeSort ?_ ?_ _
  · intro a b c
    exact Location.le_trans
  · intro a b
    rw [Bool.or_eq_true]
    exact Location.le_total a b

theorem pairwise_references (t : SymbolTable) (name : String) :
    (t.references name).Pairwise (fun a b => a.le b = true) :=
  pairwise_sortLocations _

theorem eq_of_perm_of_sorted {locations others : List Location}
    (h : locations.Pairwise (fun a b => a.le b = true))
    (h' : others.Pairwise (fun a b => a.le b = true)) (hperm : locations.Perm others) :
    locations = others :=
  hperm.eq_of_pairwise (fun _ _ _ _ => Location.le_antisymm) h h'

theorem sortLocations_eq_of_perm {locations others : List Location}
    (h : locations.Perm others) : sortLocations locations = sortLocations others := by
  have hsorted : (sortLocations locations).Perm (sortLocations others) :=
    ((List.mergeSort_perm _ _).trans h).trans (List.mergeSort_perm _ _).symm
  exact eq_of_perm_of_sorted (pairwise_sortLocations _) (pairwise_sortLocations _) hsorted

theorem scanUsers_eq (t : SymbolTable) (name : String) :
    t.scanUsers name =
      (t.contributions.entries.filter fun entry => entry.2.uses.any (·.name == name)).map Prod.fst := by
  rw [scanUsers, Table.collect]
  induction t.contributions.entries with
  | nil => rfl
  | cons entry rest ih =>
      rw [List.flatMap_cons, ih, List.filter_cons]
      split
      · rfl
      · rfl

theorem nodup_scanUsers (t : SymbolTable) (name : String) : (t.scanUsers name).Nodup := by
  rw [scanUsers_eq]
  exact t.contributions.nodup.sublist (List.filter_sublist.map Prod.fst)

theorem mem_scanUsers_iff (t : SymbolTable) (name : String) (uri : Uri) :
    uri ∈ t.scanUsers name ↔
      ∃ c, t.contribution? uri = some c ∧ ∃ use ∈ c.uses, use.name = name := by
  rw [scanUsers_eq, List.mem_map]
  constructor
  · rintro ⟨⟨uri, c⟩, hentry, rfl⟩
    obtain ⟨hmem, hused⟩ := List.mem_filter.mp hentry
    obtain ⟨use, huse, hname⟩ := List.any_eq_true.mp hused
    exact ⟨c, (Table.get?_eq_some_iff _ _ _).mpr hmem, use, huse, eq_of_beq hname⟩
  · rintro ⟨c, hc, use, huse, hname⟩
    refine ⟨(uri, c), List.mem_filter.mpr ⟨(Table.get?_eq_some_iff _ _ _).mp hc, ?_⟩, rfl⟩
    exact List.any_eq_true.mpr ⟨use, huse, beq_iff_eq.mpr hname⟩

/-- Going to the users of a name and picking its uses there finds all of them. -/
theorem flatMap_scanUsers (t : SymbolTable) (name : String) :
    (t.scanUsers name).flatMap (fun uri =>
        (((t.contributions.get? uri).map (·.uses)).getD []).filter (·.name == name)) =
      t.scanUses name := by
  rw [scanUsers, scanUses, Table.collect, Table.collect, List.flatMap_assoc]
  refine List.flatMap_congr fun entry hentry => ?_
  have hget : t.contributions.get? entry.1 = some entry.2 :=
    (Table.get?_eq_some_iff _ _ _).mpr hentry
  split
  · rw [List.flatMap_singleton, hget, Option.map_some, Option.getD_some]
  next hunused =>
      rw [List.flatMap_nil, eq_comm, List.filter_eq_nil_iff]
      intro use huse hname
      exact hunused (List.any_eq_true.mpr ⟨use, huse, hname⟩)

theorem Consistent.references_perm (h : t.Consistent) (name : String) :
    (t.references name).Perm ((t.scanUses name).map (·.location)) := by
  refine (List.mergeSort_perm _ _).trans (List.Perm.map _ ?_)
  rw [List.filter_flatMap, ← flatMap_scanUsers]
  exact (h.users.perm name).flatMap_right _

end SymbolTable

end Gml
