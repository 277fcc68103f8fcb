import Gml.Proofs.Lint.Cycles
import Gml.Proofs.Lint.Mentions
import Gml.Proofs.Lint.Recording
import Gml.Proofs.Token.Longest

/-!
# Uses and mentions

The uses that a document contributes are the mentions of names in its tree, each with the
place where the text spells the name.
-/
namespace Gml

/-! ### Where mentions stand -/

/-- The text spells the name where the mention is. -/
def Mention.SpelledIn (m : Mention) (text : String) : Prop :=
  Text.slice? text.toList m.span.start m.span.stop = some m.name.toList

theorem Mention.spelledIn_ofToken {text : String} {token : Token} (h : token ∈ lex text) :
    (Mention.ofToken token).SpelledIn text := by
  have hslice := (Token.standsAt_of_mem_lex h).slice?
  rwa [Text.byteLength_toList] at hslice

namespace Tree

variable {text : String}

theorem spelledIn_names {children : List Tree} (h : ∀ token ∈ leavesAll children, token ∈ lex text) :
    ∀ token ∈ names children, (Mention.ofToken token).SpelledIn text := by
  intro token htoken
  obtain ⟨name, hname, hident⟩ := List.mem_filterMap.mp htoken
  exact Mention.spelledIn_ofToken (h token
    (mem_leavesAll_of_mem (List.mem_of_mem_filter hname) (mem_leaves_of_childToken? hident)))

theorem spelledIn_macroMention {children : List Tree}
    (h : ∀ token ∈ leavesAll children, token ∈ lex text) {m : Mention}
    (hm : macroMention? children = some m) : m.SpelledIn text := by
  obtain ⟨token, htoken, hline⟩ := Option.bind_eq_some_iff.mp hm
  obtain ⟨line, hparse, rfl⟩ := Option.map_eq_some_iff.mp hline
  obtain ⟨hname, hstop⟩ := MacroLine.standsAt hparse
  have hplace := Token.standsAt_of_mem_lex (h token (mem_leaves_of_findLeaf? htoken))
  have hslice := (hname.trans hplace).slice?
  rw [Mention.SpelledIn]
  simp only [Span.shift, hstop]
  rwa [Nat.add_right_comm] at hslice

/-- The field that an assignment assigns is a token of the target. -/
theorem mem_leaves_of_ownField? {tree : Tree} {field : Token} (h : tree.ownField? = some field) :
    field ∈ tree.leaves := by
  unfold ownField? at h
  split at h
  next base dot name =>
      split at h
      · cases h
        simp only [leaves, leavesAll, List.append_nil, List.mem_append, List.mem_singleton, or_true]
      · cases h
  · cases h

theorem mem_leaves_of_bare {tree : Tree} {token : Token} (h : token ∈ tree.bare.leaves) :
    token ∈ tree.leaves := by
  cases tree with
  | leaf found => exact h
  | node kind children =>
      rw [bare, leaves, leavesAll_bareAll] at h
      exact List.mem_of_mem_filter h

theorem spelledIn_mentionsAt {tree : Tree} (h : ∀ token ∈ tree.leaves, token ∈ lex text) :
    ∀ m ∈ tree.mentionsAt, m.SpelledIn text := by
  intro m hm
  have hnames : ∀ children, (∀ token ∈ leavesAll children, token ∈ lex text) →
      m ∈ (names children).map Mention.ofToken → m.SpelledIn text := by
    intro children hchildren hm
    obtain ⟨token, htoken, rfl⟩ := List.mem_map.mp hm
    exact spelledIn_names hchildren token htoken
  unfold mentionsAt at hm
  split at hm
  next children =>
      obtain ⟨token, htoken, rfl⟩ := Option.map_eq_some_iff.mp (Option.mem_toList.mp hm)
      exact Mention.spelledIn_ofToken (h token (mem_leaves_of_findLeaf? htoken))
  next children => exact hnames children h hm
  next children => exact hnames children h hm
  next children => exact hnames children h hm
  next children => exact hnames children h hm
  next children =>
      obtain ⟨token, htoken, rfl⟩ := Option.map_eq_some_iff.mp (Option.mem_toList.mp hm)
      obtain ⟨target, htarget, hfield⟩ := Option.bind_eq_some_iff.mp htoken
      exact Mention.spelledIn_ofToken (h token (mem_leavesAll_of_mem
        (List.mem_of_find?_eq_some htarget) (mem_leaves_of_bare (mem_leaves_of_ownField? hfield))))
  next children => exact spelledIn_macroMention h (Option.mem_toList.mp hm)
  · cases hm

end Tree

/-- Every mention in the tree of a text is where the text spells its name. -/
theorem mentions_spelledIn (text : String) :
    ∀ m ∈ (parse text).tree.mentions, m.SpelledIn text := by
  intro m hm
  obtain ⟨node, hnode, hat⟩ := List.mem_flatMap.mp hm
  refine Tree.spelledIn_mentionsAt (fun token htoken => ?_) m hat
  rw [← leaves_parse]
  exact Tree.leaves_of_mem_preorder hnode token htoken

/-- Each mention in a tree of a document leaves a use at its place. -/
theorem Names.sites_perm_mentions (view : DocumentView) (h : view.tree.Regular)
    (hpart : view.tree.isPart = false) :
    ((contribution view).uses.map SymbolUse.site).Perm
      (view.tree.mentions.map fun m => (m.name, view.location m.span)) := by
  have hplaces := (Tree.mentions_occurrences false false view.tree h hpart).map
    fun m => (m.name, view.location m.span)
  rw [List.map_map] at hplaces
  rw [contribution_sites]
  exact hplaces

namespace LintDocument

/-- The place of a stretch of the text. -/
def place (d : LintDocument) (span : Span) : Location :=
  ⟨d.uri, (LineIndex.ofText d.text).position span.start,
    (LineIndex.ofText d.text).position span.stop⟩

theorem location_view (d : LintDocument) : (d.view (.ofText d.text)).location = d.place := rfl

/-- What a text without errors contributes. Its uses are the mentions of names in it, each once
and where the text spells the name. It has at most one record for a scope and a name, at the
place of a use that declares the name. -/
theorem contribution_of_mentions (d : LintDocument) (h : (parse d.text).ok = true) :
    ∃ c, d.matchText.2.contribution? = some c ∧
      (c.uses.map fun use => (use.name, use.location)).Perm
        ((parse d.text).tree.mentions.map fun m => (m.name, d.place m.span)) ∧
      (∀ m ∈ (parse d.text).tree.mentions,
        Text.slice? d.text.toList m.span.start m.span.stop = some m.name.toList) ∧
      (c.declarations.map fun record => (record.scope, record.name)).Nodup ∧
      ∀ record ∈ c.declarations, ⟨record.name, .declaration, record.location⟩ ∈ c.uses := by
  have hpart : (parse d.text).tree.isPart = false := by
    rw [Tree.isPart, parse_hasKind _ .varDeclarator nofun, parse_hasKind _ .paramList nofun,
      Bool.false_or]
  have hsites := Names.sites_perm_mentions (d.view (.ofText d.text))
  rw [tree_view, location_view] at hsites
  refine ⟨d.reading, ?_, ?_, ?_, ?_, ?_⟩
  · exact contribution?_withParse h
  · exact hsites (parse_regular h) hpart
  · exact mentions_spelledIn d.text
  · exact Names.contribution_nodup _
  · exact Names.contribution_used _

/-- A macro, a parameter, a variable of the game and one of the instance in a text. -/
theorem contribution_of_small_script :
    let d : LintDocument :=
      { uri := "file:///scr.gml", kind := .script "scr"
        text := "#macro LIMIT 3\nfunction put(a) { global.best = a + LIMIT; self.last = a; }" }
    (parse d.text).ok = true ∧
      ∃ c, d.matchText.2.contribution? = some c ∧
        (c.uses.map fun use => (use.name, use.location)).Perm
          ((parse d.text).tree.mentions.map fun m => (m.name, d.place m.span)) ∧
        (c.declarations.map fun record => (record.scope, record.name)).Nodup := by
  intro d
  have hok : (parse d.text).ok = true := by decide +kernel
  obtain ⟨c, hc, hsites, -, hnodup, -⟩ := contribution_of_mentions d hok
  exact ⟨hok, c, hc, hsites, hnodup⟩

end LintDocument

end Gml
