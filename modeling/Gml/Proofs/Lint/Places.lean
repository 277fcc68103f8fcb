import Gml.Proofs.Lint.Pointing
import Gml.Proofs.Tree.Nesting

/-!
# Mentions stand apart

Every mention lies in a token, and no two mentions share a byte: the token of a mention stands
in a child that mentions nothing else. So no two uses of a document have the same place, and
none is empty, as the first character of a document is when it stands for the whole.
-/
namespace Gml

open Token (Ordered)

/-! ### Mentions and tokens -/

/-- A mention is a piece of a token, or all of it. -/
structure Mention.InToken (m : Mention) (token : Token) : Prop where
  start : token.start ≤ m.span.start
  nonempty : m.span.start < m.span.stop
  stop : m.span.stop ≤ token.stop

/-- One of two mentions is in front of the other. -/
def Mention.Apart (m m' : Mention) : Prop :=
  m.span.stop ≤ m'.span.start ∨ m'.span.stop ≤ m.span.start

theorem Mention.inToken_ofToken {token : Token} (h : token.start < token.stop) :
    (Mention.ofToken token).InToken token :=
  ⟨Nat.le_refl _, h, Nat.le_refl _⟩

theorem MacroLine.name_ne_nil {line : String} {found : MacroLine} (h : parse? line = some found) :
    found.name.toList ≠ [] := by
  obtain ⟨body, -, h⟩ := Option.bind_eq_some_iff.mp h
  dsimp only at h
  split at h
  · split at h
    · cases h
    next hname =>
        cases h
        simpa [List.isEmpty_iff] using hname
  · split at h
    · cases h
    next hname =>
        cases h
        simpa [List.isEmpty_iff] using hname

theorem Text.byteLength_pos {cs : List Char} (h : cs ≠ []) : 0 < byteLength cs := by
  cases cs with
  | nil => exact absurd rfl h
  | cons c cs =>
      have hsize := c.utf8Size_pos
      rw [byteLength]
      omega

namespace Tree

theorem inToken_of_macroMention? {children : List Tree} {m : Mention}
    (h : macroMention? children = some m) :
    ∃ token, findLeaf? .macroLine children = some token ∧ m.InToken token := by
  obtain ⟨token, htoken, hline⟩ := Option.bind_eq_some_iff.mp h
  obtain ⟨line, hparse, rfl⟩ := Option.map_eq_some_iff.mp hline
  obtain ⟨⟨before, after, hwhole, hbefore⟩, hstop⟩ := MacroLine.standsAt hparse
  have hname := Text.byteLength_pos (MacroLine.name_ne_nil hparse)
  have hsize := Text.byteLength_toList token.text
  rw [hwhole, Text.byteLength_append, Text.byteLength_append] at hsize
  refine ⟨token, htoken, ?_, ?_, ?_⟩
  · exact Nat.le_add_left _ _
  · simp only [Span.shift]
    omega
  · simp only [Span.shift, Token.stop]
    omega

/-- A mention lies in a child that mentions nothing. -/
def MentionedBy (children : List Tree) (m : Mention) : Prop :=
  ∃ child ∈ children, child.mentions = [] ∧ ∃ token ∈ child.leaves, m.InToken token

section

variable {kind : NodeKind} {children : List Tree} {m : Mention}

theorem mentionedBy_of_leaf {token : Token} (h : .leaf token ∈ children)
    (hin : m.InToken token) : MentionedBy children m :=
  ⟨_, h, rfl, token, List.mem_cons_self, hin⟩

theorem mentionedBy_names (hregular : ∀ child ∈ children, child.Regular)
    (hnonempty : ∀ token ∈ leavesAll children, token.start < token.stop)
    (h : m ∈ (names children).map Mention.ofToken) : MentionedBy children m := by
  obtain ⟨token, htoken, rfl⟩ := List.mem_map.mp h
  obtain ⟨name, hname, hident⟩ := List.mem_filterMap.mp htoken
  obtain ⟨hchild, hkind⟩ := List.mem_filter.mp hname
  have hleaf := mem_leaves_of_childToken? hident
  exact ⟨name, hchild, mentions_of_hasKind_name (hregular name hchild) hkind, token, hleaf,
    Mention.inToken_ofToken (hnonempty token (mem_leavesAll_of_mem hchild hleaf))⟩

/-- An assignment to a field of `global` or `self` is mentioned by the assignment alone. -/
theorem mentions_of_ownField? {target : Tree} (h : target.Regular) {field : Token}
    (hfield : target.bare.ownField? = some field) : target.mentions = [] := by
  cases target with
  | leaf token => rfl
  | node kind children =>
      by_cases hkind : kind = .fieldExpr
      · subst hkind
        rcases h.ownField?_fieldExpr with ⟨_, _, -, -, -, -, hnothing⟩ | ⟨-, hnone⟩
        · exact hnothing
        · rw [hnone] at hfield
          cases hfield
      · rw [bare] at hfield
        unfold ownField? at hfield
        split at hfield
        next heq => exact absurd (Tree.node.inj heq).1 hkind
        · cases hfield

theorem mentionedBy_of_mem_mentionsAt (hregular : (node kind children).Regular)
    (hnonempty : ∀ token ∈ leavesAll children, token.start < token.stop)
    (h : m ∈ mentionsAt (node kind children)) : MentionedBy children m := by
  unfold mentionsAt at h
  split at h
  next heq =>
      cases heq
      obtain ⟨token, htoken, rfl⟩ := Option.map_eq_some_iff.mp (Option.mem_toList.mp h)
      exact mentionedBy_of_leaf (of_findLeaf? htoken).1
        (Mention.inToken_ofToken (hnonempty token (mem_leaves_of_findLeaf? htoken)))
  iterate 4 next heq =>
    cases heq
    exact mentionedBy_names hregular.child hnonempty h
  next heq =>
      cases heq
      obtain ⟨field, hassigned, rfl⟩ := Option.map_eq_some_iff.mp (Option.mem_toList.mp h)
      obtain ⟨target, htarget, hfield⟩ := Option.bind_eq_some_iff.mp hassigned
      have hchild := List.mem_of_find?_eq_some htarget
      have hleaf := mem_leaves_of_bare (mem_leaves_of_ownField? hfield)
      exact ⟨target, hchild, mentions_of_ownField? (hregular.child target hchild) hfield, field,
        hleaf, Mention.inToken_ofToken (hnonempty field (mem_leavesAll_of_mem hchild hleaf))⟩
  next heq =>
      cases heq
      obtain ⟨token, htoken, hin⟩ := inToken_of_macroMention? (Option.mem_toList.mp h)
      exact mentionedBy_of_leaf (of_findLeaf? htoken).1 hin
  · cases h

end

theorem exists_inToken {tree : Tree} (hregular : tree.Regular)
    (hnonempty : ∀ token ∈ tree.leaves, token.start < token.stop) :
    ∀ m ∈ tree.mentions, ∃ token ∈ tree.leaves, m.InToken token := by
  intro m hm
  obtain ⟨part, hpart, hat⟩ := List.mem_flatMap.mp hm
  cases part with
  | leaf token => cases hat
  | node kind children =>
      have hleaves := leaves_of_mem_preorder hpart
      have hbelow : (node kind children).Regular :=
        hregular.below fun _ hnode => preorder_trans hpart hnode
      obtain ⟨child, hchild, -, token, htoken, hin⟩ := mentionedBy_of_mem_mentionsAt hbelow
        (fun token htoken => hnonempty token (hleaves token htoken)) hat
      exact ⟨token, hleaves token (mem_leavesAll_of_mem hchild htoken), hin⟩

theorem mem_mentionsAll {trees : List Tree} {m : Mention} (h : m ∈ mentionsAll trees) :
    ∃ tree ∈ trees, m ∈ tree.mentions := by
  rw [mentionsAll_eq_flatMap] at h
  obtain ⟨tree, htree, hm⟩ := List.mem_flatMap.mp h
  exact ⟨tree, List.mem_of_mem_filter htree, hm⟩

/-! ### No two mentions share a byte -/

theorem Apart.mentions_apart {tree other : Tree} (h : tree.Apart other) {token token' : Token}
    (htoken : token ∈ tree.leaves) (htoken' : token' ∈ other.leaves) {m m' : Mention}
    (hin : m.InToken token) (hin' : m'.InToken token') : m.Apart m' := by
  rcases h with hbefore | hbehind
  · have hbetween := hbefore token htoken token' htoken'
    exact .inl (Nat.le_trans hin.stop (Nat.le_trans hbetween hin'.start))
  · have hbetween := hbehind token' htoken' token htoken
    exact .inr (Nat.le_trans hin'.stop (Nat.le_trans hbetween hin.start))

theorem names_pairwise {children : List Tree} (h : Ordered (leavesAll children)) :
    ((names children).map Mention.ofToken).Pairwise Mention.Apart := by
  have hchildren := (siblings_pairwise h).filter (hasKind .name)
  refine List.pairwise_map.mpr (hchildren.filterMap (childToken? .ident) ?_)
  intro name name' hprecedes token htoken token' htoken'
  exact .inl (hprecedes token (mem_leaves_of_childToken? htoken) token'
    (mem_leaves_of_childToken? htoken'))

theorem mentionsAt_pairwise {tree : Tree} (h : Ordered tree.leaves) :
    tree.mentionsAt.Pairwise Mention.Apart := by
  unfold mentionsAt
  split
  · exact Option.pairwise_toList
  · exact names_pairwise h
  · exact names_pairwise h
  · exact names_pairwise h
  · exact names_pairwise h
  · exact Option.pairwise_toList
  · exact Option.pairwise_toList
  · exact .nil

mutual

theorem mentions_pairwise {tree : Tree} (hregular : tree.Regular) (h : Ordered tree.leaves) :
    tree.mentions.Pairwise Mention.Apart := by
  match tree with
  | .leaf token => exact .nil
  | .node kind children =>
      rw [mentions_node, List.pairwise_append]
      refine ⟨mentionsAt_pairwise h, mentionsAll_pairwise hregular.child h, ?_⟩
      intro m hm m' hm'
      obtain ⟨child, hchild, hnothing, token, htoken, hin⟩ :=
        mentionedBy_of_mem_mentionsAt hregular h.nonempty hm
      obtain ⟨other, hother, hmentions⟩ := mem_mentionsAll hm'
      have hne : child ≠ other := by
        rintro rfl
        rw [hnothing] at hmentions
        cases hmentions
      obtain ⟨token', htoken', hin'⟩ := exists_inToken (hregular.child other hother)
        (fun token htoken => h.nonempty token (mem_leavesAll_of_mem hother htoken)) m' hmentions
      exact (apart_of_ne h hchild hother hne).mentions_apart htoken htoken' hin hin'

theorem mentionsAll_pairwise {trees : List Tree} (hregular : ∀ tree ∈ trees, tree.Regular)
    (h : Ordered (leavesAll trees)) : (mentionsAll trees).Pairwise Mention.Apart := by
  match trees with
  | [] => exact .nil
  | tree :: trees =>
      rw [List.forall_mem_cons] at hregular
      rw [leavesAll] at h
      rw [mentionsAll_cons, List.pairwise_append]
      refine ⟨mentions_pairwise hregular.1 h.left, mentionsAll_pairwise hregular.2 h.right, ?_⟩
      intro m hm m' hm'
      obtain ⟨other, hother, hmentions⟩ := mem_mentionsAll hm'
      obtain ⟨token, htoken, hin⟩ := exists_inToken hregular.1 h.left.nonempty m hm
      obtain ⟨token', htoken', hin'⟩ := exists_inToken (hregular.2 other hother)
        (fun token htoken => h.right.nonempty token (mem_leavesAll_of_mem hother htoken))
        m' hmentions
      have hapart : tree.Apart other := .inl fun token htoken token' htoken' =>
        h.across token htoken token' (mem_leavesAll_of_mem hother htoken')
      exact hapart.mentions_apart htoken htoken' hin hin'

end

end Tree

/-! ### The places of uses -/

namespace LintDocument

variable {d : LintDocument}

theorem position_inj {text : String} {offset offset' : Nat}
    (h : Text.isBoundary text.toList offset = true) (h' : Text.isBoundary text.toList offset' = true)
    (heq : (LineIndex.ofText text).position offset = (LineIndex.ofText text).position offset') :
    offset = offset' := by
  have hfound := LineIndex.offset?_position h
  rw [heq, LineIndex.offset?_position h'] at hfound
  exact (Option.some.inj hfound).symm

theorem place_inj {span span' : Span} (h : span.Within d.text) (h' : span'.Within d.text)
    (heq : d.place span = d.place span') : span = span' := by
  obtain ⟨start, stop⟩ := span
  obtain ⟨start', stop'⟩ := span'
  have hstart := position_inj h.start h'.start (congrArg Location.start heq)
  have hstop := position_inj h.stop h'.stop (congrArg Location.stop heq)
  exact congr (congrArg Span.mk hstart) hstop

/-- The uses of a text without errors stand where its mentions do. -/
theorem locations_perm_places (h : (parse d.text).ok = true) :
    (d.reading.uses.map SymbolUse.location).Perm
      ((parse d.text).tree.mentions.map fun m => d.place m.span) := by
  have hplaces := (reading_uses_perm h).map Prod.snd
  rw [List.map_map, List.map_map] at hplaces
  exact hplaces

theorem within_of_mem_mentions {m : Mention} (hm : m ∈ (parse d.text).tree.mentions) :
    m.span.Within d.text :=
  Span.within_of_slice? (mentions_spelledIn d.text m hm)

theorem nonempty_of_mem_mentions (h : (parse d.text).ok = true) {m : Mention}
    (hm : m ∈ (parse d.text).tree.mentions) : m.span.start < m.span.stop := by
  obtain ⟨token, -, hin⟩ :=
    Tree.exists_inToken (parse_regular h) (parse_ordered d.text).nonempty m hm
  exact hin.nonempty

/-- No two uses of a document stand at the same place. -/
theorem locations_nodup (h : (parse d.text).ok = true) :
    (d.reading.uses.map SymbolUse.location).Nodup := by
  rw [(locations_perm_places h).nodup_iff, List.Nodup, List.pairwise_map]
  refine (Tree.mentions_pairwise (parse_regular h) (parse_ordered d.text)).imp_of_mem ?_
  intro m m' hm hm' hapart hplace
  have hspan := place_inj (within_of_mem_mentions hm) (within_of_mem_mentions hm') hplace
  have hnonempty := nonempty_of_mem_mentions h hm
  unfold Mention.Apart at hapart
  rw [← hspan] at hapart
  omega

/-- No use stands for the start of a document. -/
theorem location_ne_fileStart (h : (parse d.text).ok = true) {use : SymbolUse}
    (huse : use ∈ d.reading.uses) (uri : Uri) : use.location ≠ .fileStart uri := by
  intro heq
  obtain ⟨m, hm, hplace⟩ := List.mem_map.mp
    ((locations_perm_places h).mem_iff.mp (List.mem_map_of_mem huse))
  rw [heq] at hplace
  have hwithin := within_of_mem_mentions hm
  have hsame := position_inj hwithin.start hwithin.stop
    ((congrArg Location.start hplace).trans (congrArg Location.stop hplace).symm)
  have hnonempty := nonempty_of_mem_mentions h hm
  omega

end LintDocument

end Gml
