import Gml.Path
import Gml.Proofs.Text.Cutting
import Mathlib.Data.List.Basic
import Mathlib.Data.List.TakeWhile

/-!
# What paths are made of

A path is its parts between slashes, and joining paths appends what their parts mean. A path that
is made of names can be taken apart again.
-/
namespace Gml

namespace Path

variable {base name path : String} {names : List String}

/-- What is no more and no less than one component of a path. -/
structure IsName (name : String) : Prop where
  slash : '/' ∉ name.toList
  counts : component? name = some (.normal name)

theorem component?_eq_normal (hempty : name ≠ "") (hhere : name ≠ ".") (hup : name ≠ "..") :
    component? name = some (.normal name) := by
  unfold component?
  split
  · contradiction
  · contradiction
  · contradiction
  · rfl

namespace IsName

theorem ne_empty (h : IsName name) : name ≠ "" := by
  rintro rfl
  exact nomatch h.counts

theorem ne_here (h : IsName name) : name ≠ "." := by
  rintro rfl
  exact nomatch h.counts

end IsName

/-! ### Parts -/

theorem parts_eq (path : String) : parts path = (path.toList.splitOn '/').map String.ofList := by
  rw [parts, Text.splitAll_eq_splitOnP, List.splitOn_eq_splitOnP]

theorem parts_append_slash (base path : String) :
    parts (base ++ "/" ++ path) = parts base ++ parts path := by
  have hcut : (base ++ "/" ++ path).toList = base.toList ++ '/' :: path.toList := by simp
  have happend : (base.toList ++ '/' :: path.toList).splitOn '/' =
      base.toList.splitOn '/' ++ path.toList.splitOn '/' := by
    rw [List.splitOn_eq_splitOnP]
    exact List.splitOnP_append_cons base.toList path.toList rfl
  rw [parts_eq, hcut, happend, List.map_append, ← parts_eq, ← parts_eq]

theorem parts_intercalate (hne : names ≠ []) (h : ∀ name ∈ names, '/' ∉ name.toList) :
    parts ("/".intercalate names) = names := by
  have hslash : "/".toList = ['/'] := rfl
  rw [parts_eq, String.toList_intercalate, hslash, List.splitOn_intercalate, List.map_map]
  · exact (List.map_congr_left fun name _ => String.ofList_toList).trans (List.map_id names)
  · exact List.forall_mem_map.mpr h
  · simpa using hne

theorem parts_of_slash_notMem (h : '/' ∉ name.toList) : parts name = [name] := by
  have hsingle := parts_intercalate (List.cons_ne_nil name []) (by simpa using h)
  rwa [String.intercalate_singleton] at hsingle

/-! ### Components -/

/-- What a path means below a directory. -/
def meaning (path : String) : List PathComponent := (parts path).filterMap component?

theorem meaning_of_slash_notMem (h : '/' ∉ name.toList) :
    meaning name = (component? name).toList := by
  rw [meaning, parts_of_slash_notMem h]
  cases hname : component? name with
  | none => rw [List.filterMap_cons_none hname]; rfl
  | some component => rw [List.filterMap_cons_some hname]; rfl

/-- A path below another one means first what that one means. -/
theorem meaning_join (base : String) (h : isAbsolute name = false) :
    meaning (join base name) = meaning base ++ meaning name := by
  have hempty : parts "" = [""] := rfl
  have hnone : component? "" = none := rfl
  have happend : ∀ front, meaning (front ++ "/" ++ name) = meaning front ++ meaning name := by
    intro front
    rw [meaning, parts_append_slash, List.filterMap_append]
    rfl
  rw [join, h, Bool.false_or]
  split
  next hbase =>
      rw [String.isEmpty_iff.mp hbase]
      rfl
  next =>
      split
      next hlast =>
          -- The base ends in a slash, behind which there is an empty part.
          obtain ⟨front, hfront⟩ := List.getLast?_eq_some_iff.mp (beq_iff_eq.mp hlast)
          obtain rfl : base = String.ofList front ++ "/" := by
            rw [← String.toList_inj]
            simpa using hfront
          have hfrontOnly := happend (String.ofList front)
          have hbase : meaning (String.ofList front ++ "/" ++ "") = meaning (String.ofList front) := by
            rw [meaning, parts_append_slash, hempty, List.filterMap_append,
              List.filterMap_cons_none hnone, List.filterMap_nil, List.append_nil]
            rfl
          rw [String.append_empty] at hbase
          rw [hfrontOnly, hbase]
      next => exact happend base

theorem parts_of_isAbsolute (h : isAbsolute path = true) : ∃ rest, parts path = "" :: rest := by
  rw [isAbsolute, beq_iff_eq, List.head?_eq_some_iff] at h
  obtain ⟨cs, hcs⟩ := h
  rw [parts, hcs]
  exact ⟨_, rfl⟩

theorem ne_empty_of_isAbsolute (h : isAbsolute path = true) : path ≠ "" := by
  rintro rfl
  cases h

theorem components_of_isAbsolute (h : isAbsolute path = true) :
    components path = .root :: meaning path := by
  have hne : path.isEmpty = false := String.isEmpty_eq_false_iff.mpr (ne_empty_of_isAbsolute h)
  have hnone : component? "" = none := rfl
  obtain ⟨rest, hrest⟩ := parts_of_isAbsolute h
  rw [components, meaning, hrest, List.filterMap_cons_none hnone]
  simp [hne]

theorem isAbsolute_append (hne : base ≠ "") (path : String) :
    isAbsolute (base ++ path) = isAbsolute base := by
  have hcs : base.toList ≠ [] := by simpa using hne
  rw [isAbsolute, isAbsolute, String.toList_append, List.head?_append_of_ne_nil _ hcs]

/-- A path below another one starts where that one starts. -/
theorem isAbsolute_join (hne : base ≠ "") (h : isAbsolute name = false) :
    isAbsolute (join base name) = isAbsolute base := by
  rw [join, h, Bool.false_or, String.isEmpty_eq_false_iff.mpr hne, if_neg Bool.false_ne_true]
  split
  · exact isAbsolute_append hne name
  · rw [String.append_assoc]
    exact isAbsolute_append hne _

theorem isAbsolute_join_eq_false (hbase : isAbsolute base = false)
    (hname : isAbsolute name = false) : isAbsolute (join base name) = false := by
  by_cases hne : base = ""
  · subst hne
    rw [join, hname]
    exact hname
  · exact (isAbsolute_join hne hname).trans hbase

theorem isAbsolute_join_eq_true (hbase : isAbsolute base = true) (hname : isAbsolute name = false) :
    isAbsolute (join base name) = true :=
  (isAbsolute_join (ne_empty_of_isAbsolute hbase) hname).trans hbase

/-- The name of a component has no slash in it. -/
theorem slash_notMem_of_mem_components (h : .normal name ∈ components path) :
    '/' ∉ name.toList := by
  have hpart : ∀ part ∈ parts path, '/' ∉ part.toList := by
    intro part hpart hslash
    obtain ⟨piece, hpiece, rfl⟩ := List.mem_map.mp hpart
    rw [String.toList_ofList] at hslash
    cases Text.eq_false_of_mem_splitAll hpiece hslash
  have hnormal : ∀ {part}, component? part = some (.normal name) → part = name := by
    intro part hcounts
    unfold component? at hcounts
    split at hcounts <;> cases hcounts
    rfl
  suffices hsome : ∃ part ∈ parts path, component? part = some (.normal name) by
    obtain ⟨part, hmem, hcounts⟩ := hsome
    exact hnormal hcounts ▸ hpart part hmem
  unfold components at h
  split at h
  · cases h
  next first rest hparts =>
      rw [hparts]
      rcases List.mem_append.mp h with hfirst | hrest
      · refine ⟨first, List.mem_cons_self, ?_⟩
        split at hfirst
        · split at hfirst <;> simp at hfirst
        · simp at hfirst
        · exact Option.mem_toList.mp hfirst
      · obtain ⟨part, hmem, hcounts⟩ := List.mem_filterMap.mp hrest
        exact ⟨part, List.mem_cons_of_mem first hmem, hcounts⟩

/-! ### Paths that are made of names -/

theorem meaning_intercalate (h : ∀ name ∈ names, IsName name) :
    meaning ("/".intercalate names) = names.map .normal := by
  rcases names with _ | ⟨first, rest⟩
  · rfl
  · have hparts : parts ("/".intercalate (first :: rest)) = first :: rest :=
      parts_intercalate (List.cons_ne_nil _ _) fun name hname => (h name hname).slash
    rw [meaning, hparts, ← List.filterMap_eq_map]
    exact List.filterMap_congr fun name hname => (h name hname).counts

theorem components_intercalate (h : ∀ name ∈ names, IsName name) :
    components ("/".intercalate names) = names.map .normal := by
  rcases names with _ | ⟨first, rest⟩
  · rfl
  · obtain ⟨hfirst, hrest⟩ := List.forall_mem_cons.mp h
    have hparts : parts ("/".intercalate (first :: rest)) = first :: rest :=
      parts_intercalate (List.cons_ne_nil _ _) fun name hname => (h name hname).slash
    have hnames : rest.filterMap component? = rest.map .normal := by
      rw [← List.filterMap_eq_map]
      exact List.filterMap_congr fun name hname => (hrest name hname).counts
    rw [components, hparts, List.map_cons]
    dsimp only
    rw [hnames]
    split
    · exact absurd rfl hfirst.ne_empty
    · exact absurd rfl hfirst.ne_here
    · rw [hfirst.counts]
      rfl

theorem isAbsolute_intercalate (h : ∀ name ∈ names, IsName name) :
    isAbsolute ("/".intercalate names) = false := by
  rcases names with _ | ⟨first, rest⟩
  · rfl
  · rw [Bool.eq_false_iff]
    intro habsolute
    obtain ⟨parts, hparts⟩ := parts_of_isAbsolute habsolute
    rw [parts_intercalate (List.cons_ne_nil _ _) fun name hname => (h name hname).slash] at hparts
    exact (h first List.mem_cons_self).ne_empty (List.cons.inj hparts).1

theorem IsName.isAbsolute (h : IsName name) : isAbsolute name = false := by
  have hsingle := isAbsolute_intercalate (List.forall_mem_singleton.mpr h)
  rwa [String.intercalate_singleton] at hsingle

theorem IsName.meaning (h : IsName name) : meaning name = [.normal name] := by
  rw [meaning_of_slash_notMem h.slash, h.counts]
  rfl

theorem trimParts_eq (h : ∀ name ∈ names, IsName name) : trimParts names = names := by
  cases names with
  | nil => rfl
  | cons first rest =>
      have hkept : rest.reverse.dropWhile (fun part => part.isEmpty || part == ".") =
          rest.reverse := by
        rw [List.dropWhile_eq_self_iff]
        intro hlength hdropped
        have hname := h _ (List.mem_cons_of_mem first (List.mem_reverse.mp (List.getElem_mem hlength)))
        rw [Bool.or_eq_true, String.isEmpty_iff, beq_iff_eq] at hdropped
        exact hdropped.elim hname.ne_empty hname.ne_here
      rw [trimParts, hkept, List.reverse_reverse]

theorem ofParts_cons {first : String} (h : first ≠ "") (rest : List String) :
    ofParts (first :: rest) = "/".intercalate (first :: rest) := by
  unfold ofParts
  split
  next heq => exact absurd (List.cons.inj heq).1 h
  next => rfl

/-- The directory of a path that is made of names. -/
theorem parent?_intercalate (h : ∀ name ∈ names, IsName name) :
    (parent? ("/".intercalate names)).getD "" = "/".intercalate names.dropLast := by
  rcases names with _ | ⟨first, _ | ⟨second, rest⟩⟩
  · rfl
  · have hfirst := h first List.mem_cons_self
    have hempty : first.isEmpty = false := String.isEmpty_eq_false_iff.mpr hfirst.ne_empty
    rw [String.intercalate_singleton, parent?, parts_of_slash_notMem hfirst.slash]
    simp [trimParts, hempty]
  · have hfirst := h first List.mem_cons_self
    have hfront : ∀ name ∈ (first :: second :: rest).dropLast, IsName name := fun name hname =>
      h name ((List.dropLast_sublist _).subset hname)
    rw [parent?, parts_intercalate (List.cons_ne_nil _ _) fun name hname => (h name hname).slash,
      trimParts_eq h]
    dsimp only
    rw [trimParts_eq hfront, List.dropLast_cons_cons, Option.getD_some, ofParts_cons hfirst.ne_empty]

/-! ### The last name -/

theorem fileName?_eq_some_iff :
    fileName? path = some name ↔ (components path).getLast? = some (.normal name) := by
  unfold fileName?
  split
  next last hsome => rw [hsome, Option.some.injEq, Option.some.injEq, PathComponent.normal.injEq]
  next hother => exact iff_of_false nofun (hother name)

/-- The name of a file is the last thing that its path means. -/
theorem fileName?_iff_meaning :
    fileName? path = some name ↔ (meaning path).getLast? = some (.normal name) := by
  rw [fileName?_eq_some_iff, components, meaning]
  cases parts path with
  | nil => rfl
  | cons first rest =>
      have hfirst : (first :: rest).filterMap component? =
          (component? first).toList ++ rest.filterMap component? := by
        cases hcounts : component? first with
        | none => rw [List.filterMap_cons_none hcounts]; rfl
        | some component => rw [List.filterMap_cons_some hcounts]; rfl
      rw [hfirst]
      dsimp only
      -- Only if nothing follows the first part does it matter how the path begins.
      rcases List.eq_nil_or_concat (rest.filterMap component?) with hrest | ⟨front, last, hrest⟩
      · rw [hrest, List.append_nil, List.append_nil]
        split
        · split <;> exact iff_of_false nofun nofun
        · exact iff_of_false nofun nofun
        · exact Iff.rfl
      · rw [hrest, List.concat_eq_append, ← List.append_assoc, ← List.append_assoc,
          List.getLast?_concat, List.getLast?_concat]

theorem fileName?_join (base : String) (h : fileName? path = some name) :
    fileName? (join base path) = some name := by
  cases habsolute : isAbsolute path with
  | true =>
      rw [join, habsolute, Bool.true_or, if_pos rfl]
      exact h
  | false =>
      rw [fileName?_iff_meaning] at h ⊢
      rw [meaning_join base habsolute, List.getLast?_append, h]
      rfl

theorem IsName.fileName? (h : IsName name) : fileName? name = some name := by
  rw [fileName?_iff_meaning, h.meaning]
  rfl

/-- What has no slash in it and ends in no dot is a name. -/
theorem isName_of_getLast? {c : Char} (hslash : '/' ∉ name.toList)
    (hlast : name.toList.getLast? = some c) (hc : c ≠ '.') : IsName name := by
  refine ⟨hslash, component?_eq_normal ?_ ?_ ?_⟩
  · rintro rfl
    cases hlast
  · rintro rfl
    exact hc (Option.some.inj hlast).symm
  · rintro rfl
    exact hc (Option.some.inj hlast).symm

/-- A text without slashes that has a file name is one. -/
theorem isName_of_fileName? {file : String} (hslash : '/' ∉ name.toList)
    (h : fileName? name = some file) : IsName name := by
  refine ⟨hslash, component?_eq_normal ?_ ?_ ?_⟩
  · rintro rfl
    cases h
  · rintro rfl
    cases h
  · rintro rfl
    cases h

/-! ### Extensions -/

theorem splitExtension_of_dot {before after : List Char}
    (hname : name.toList = before ++ '.' :: after) (h : '.' ∉ after) :
    splitExtension name =
      if before.isEmpty then (name, none)
      else (String.ofList before, some (String.ofList after)) := by
  have hbehind : (name.toList.reverse.takeWhile (· != '.')).reverse = after := by
    have hfree : ∀ c ∈ after.reverse, (c != '.') = true := by
      rintro c hc
      rw [bne_iff_ne]
      rintro rfl
      exact h (List.mem_reverse.mp hc)
    have hreverse : name.toList.reverse = after.reverse ++ '.' :: before.reverse := by
      rw [hname]
      simp
    rw [hreverse, List.takeWhile_append_of_pos hfree]
    simp
  have hlength : (before ++ '.' :: after).length - after.length - 1 = before.length := by
    rw [List.length_append, List.length_cons]
    omega
  have hlonger : after.length ≠ (before ++ '.' :: after).length := by
    rw [List.length_append, List.length_cons]
    omega
  rw [splitExtension, hbehind, hname, hlength, List.take_left, decide_eq_false hlonger,
    Bool.false_or]

theorem splitExtension_of_dot_notMem (h : '.' ∉ name.toList) :
    splitExtension name = (name, none) := by
  have hall : name.toList.reverse.takeWhile (· != '.') = name.toList.reverse := by
    rw [List.takeWhile_eq_self_iff]
    rintro c hc
    rw [bne_iff_ne]
    rintro rfl
    exact h (List.mem_reverse.mp hc)
  rw [splitExtension, hall, List.reverse_reverse, decide_eq_true rfl, Bool.true_or, if_pos rfl]

/-- The extension is what stands behind the last dot, unless the name starts with this dot. -/
theorem splitExtension_eq_some_iff {stem extension : String} :
    splitExtension name = (stem, some extension) ↔
      stem ≠ "" ∧ '.' ∉ extension.toList ∧ name = stem ++ "." ++ extension := by
  constructor
  · intro h
    by_cases hdot : '.' ∈ name.toList
    · obtain ⟨after, before, hreverse, hlast⟩ :=
        List.eq_append_cons_of_mem (List.mem_reverse.mpr hdot)
      have hname : name.toList = before.reverse ++ '.' :: after.reverse := by
        simpa using congrArg List.reverse hreverse
      rw [splitExtension_of_dot hname (by simpa using hlast)] at h
      split at h
      · cases h
      next hbefore =>
          cases h
          refine ⟨?_, ?_, ?_⟩
          · rintro hempty
            exact hbefore (by simpa using congrArg String.toList hempty)
          · simpa using hlast
          · rw [← String.toList_inj, hname]
            simp
    · rw [splitExtension_of_dot_notMem hdot] at h
      cases h
  · rintro ⟨hstem, hdot, rfl⟩
    rw [splitExtension_of_dot (by simp; rfl) hdot, if_neg (by simpa using hstem),
      String.ofList_toList, String.ofList_toList]

theorem extension?_eq_some_iff {extension : String} :
    extension? path = some extension ↔
      ∃ stem, stem ≠ "" ∧ '.' ∉ extension.toList ∧ fileName? path = some (stem ++ "." ++ extension) := by
  rw [extension?, Option.bind_eq_some_iff]
  constructor
  · rintro ⟨name, hname, hsplit⟩
    obtain ⟨hstem, hdot, hcut⟩ := splitExtension_eq_some_iff.mp (Prod.ext rfl hsplit)
    exact ⟨_, hstem, hdot, hcut ▸ hname⟩
  · rintro ⟨stem, hstem, hdot, hname⟩
    exact ⟨_, hname, by rw [splitExtension_eq_some_iff.mpr ⟨hstem, hdot, rfl⟩]⟩

/-- A name with an extension is put together from its stem and the extension. -/
theorem exists_stem {extension : String} (hslash : '/' ∉ name.toList)
    (h : extension? name = some extension) :
    IsName name ∧ ∃ stem, fileStem? name = some stem ∧ name = stem ++ "." ++ extension := by
  obtain ⟨stem, hstem, hdot, hfile⟩ := extension?_eq_some_iff.mp h
  have hname := isName_of_fileName? hslash hfile
  have hcut : name = stem ++ "." ++ extension := Option.some.inj (hname.fileName?.symm.trans hfile)
  refine ⟨hname, stem, ?_, hcut⟩
  rw [fileStem?, hname.fileName?, Option.map_some,
    splitExtension_eq_some_iff.mpr ⟨hstem, hdot, hcut⟩]

theorem fileStem?_join (base : String) (h : IsName name) :
    fileStem? (join base name) = fileStem? name := by
  rw [fileStem?, fileStem?, fileName?_join base h.fileName?, h.fileName?]

end Path

end Gml
