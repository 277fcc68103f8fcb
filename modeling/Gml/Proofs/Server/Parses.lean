import Gml.Proofs.Parse.Lossless
import Gml.Proofs.Server.Waiting
import Gml.Server.Feature

/-!
# The parse that is kept

The parse of a document is kept from its last analysis, and for a clean document it stands for
the content. That is right as long as only the content is ever analysed in the place of a clean
document. The one event that may do otherwise is a save that brings another text: it leaves the
parse of this text and the mark that nothing has changed.
-/
namespace Gml

/-- A text can be read off its tree, so different texts have different parses. -/
theorem parse_text (text : String) : (parse text).tree.text = text := by
  obtain ⟨trees, htree, hmeaningful⟩ := parse_tree_eq_weaveRoot text
  rw [Tree.text, htree, Tree.leaves_weaveRoot _ _ _ hmeaningful.symm]
  exact join_lex text

namespace Document

variable {document : Document} {text : String}

/-- A clean document has the parse of its content. -/
def Current (document : Document) : Prop :=
  document.dirty = false → document.parsed = some (.ofText document.content)

/-- A text that may be analysed in the place of a document: only a document that is dirty waits
for another text than its content. -/
def Admits (document : Document) (text : String) : Prop :=
  document.dirty = true ∨ document.content = text

theorem current_read (h : document.Admits text) : (document.read text).Current := by
  intro hclean
  have hsame : document.content = text := by
    rcases h with hdirty | hsame
    · rw [read] at hclean
      dsimp only at hclean
      rw [hdirty, Bool.true_and, bne_eq_false_iff_eq] at hclean
      exact hclean
    · exact hsame
  rw [read]
  exact congrArg (fun text => some (ParsedText.ofText text)) hsame.symm

theorem currentTree_of_current (h : document.Current) :
    document.currentTree = (parse document.content).tree := by
  rw [currentTree]
  split
  next parsed hparsed hclean =>
      have hcurrent := h hclean
      rw [hparsed, Option.some.injEq] at hcurrent
      rw [hcurrent]
      rfl
  · rfl

end Document

namespace Server

variable {server next : Server}

/-- In the tree that questions are answered with, every known document is as it is now. -/
def ShowsContents (server : Server) : Prop :=
  ∀ uri document, server.documents.get? uri = some document →
    document.currentTree = (parse document.content).tree

/-- Every known document that is clean has the parse of its content. -/
def Current (server : Server) : Prop :=
  ∀ uri document, server.documents.get? uri = some document → document.Current

theorem Current.showsContents (h : server.Current) : server.ShowsContents :=
  fun uri document hdocument => Document.currentTree_of_current (h uri document hdocument)

theorem Current.putDocument (h : server.Current) {document : Document}
    (hdocument : document.Current) :
    (server.putDocument document).Current := by
  intro uri other hother
  rw [Server.putDocument, Table.get?_set] at hother
  split at hother
  · cases hother
    exact hdocument
  · exact h uri other hother

/-- The steps of a server keep the parses if only fitting texts are analysed. -/
theorem Evolves.current (h : Evolves Document.Admits server next) (hsteady : server.Steady)
    (hcurrent : server.Current) : next.Current := by
  induction h with
  | refl => exact hcurrent
  | change _ document hdirty ih =>
      refine ih.putDocument fun hclean => ?_
      rw [hdirty] at hclean
      cases hclean
  | close _ url ih =>
      rw [closeDocument]
      split
      next document hdocument =>
          have hclosed : ({ document with isOpen := false } : Document).Current :=
            ih url.render document hdocument
          exact ih.putDocument hclosed
      · exact ih
  | @register next _ url ih =>
      rw [Current, documents_register]
      exact ih
  | @analyse next h url text mode hfits ih =>
      cases hdocument : next.document? url with
      | none =>
          rw [analyse_of_none hdocument]
          exact ih
      | some document =>
          obtain ⟨nextSequence, accepted, hanalyse⟩ :=
            (h.steady hsteady).analyse_eq hdocument text mode
          rw [hanalyse]
          exact ih.putDocument (Document.current_read (hfits document hdocument))
  | other _ hdocuments _ _ ih =>
      rw [Current, hdocuments]
      exact ih

end Server

/-! ### Runs -/

namespace Session

variable {session : Session}

/-- What can happen to a session. -/
inductive Step where
  | event (event : Event)
  | index

def advance (session : Session) : Step → Session
  | .event event => session.receive event
  | .index => session.indexWorkspace.2

def run (session : Session) (steps : List Step) : Session := steps.foldl advance session

/-- A save brings to a clean document no other text than its content. -/
def Fits (session : Session) : Step → Prop
  | .event event => session.SavesFit Document.Admits event
  | .index => True

theorem run_concat (session : Session) (steps : List Step) (step : Step) :
    session.run (steps ++ [step]) = (session.run steps).advance step := by
  rw [run, List.foldl_append]
  rfl

theorem steady_advance (h : session.server.Steady) (step : Step) :
    (session.advance step).server.Steady := by
  cases step with
  | event event => exact steady_receive h event
  | index => exact steady_indexWorkspace h

theorem steady_run (h : session.server.Steady) (steps : List Step) :
    (session.run steps).server.Steady := by
  induction steps using List.reverseRecOn with
  | nil => exact h
  | append_singleton steps step ih =>
      rw [run_concat]
      exact steady_advance ih step

theorem current_advance (hsteady : session.server.Steady) (h : session.server.Current) {step : Step}
    (hfits : session.Fits step) : (session.advance step).server.Current := by
  have hcontent : ∀ document : Document, document.Admits document.content := fun _ => .inr rfl
  cases step with
  | event event => exact (evolves_receive hsteady.keyed hcontent event hfits).current hsteady h
  | index =>
      have hstart : session.firstRun.1.session.server.Current := by
        rw [Server.Current, session.firstRun_eq.1]
        exact h
      exact (evolves_indexWorkspace hcontent session).current (steady_firstRun hsteady) hstart

theorem current_run (hsteady : session.server.Steady) (h : session.server.Current)
    (steps : List Step)
    (hfits : ∀ before step, before ++ [step] <+: steps → (session.run before).Fits step) :
    (session.run steps).server.Current := by
  induction steps using List.reverseRecOn with
  | nil => exact h
  | append_singleton steps step ih =>
      have hbefore := ih fun before other hother =>
        hfits before other (hother.trans (List.prefix_append steps [step]))
      rw [run_concat]
      have hlast := hfits steps step (List.prefix_refl _)
      exact current_advance (steady_run hsteady steps) hbefore hlast

/-- Before the workspace is read every document is dirty; from then on nobody waits. -/
theorem waits_or_ready (hfresh : session.Fresh) (steps : List Step) :
    (∃ opened, (session.run steps).Waits opened) ∨ (session.run steps).server.waiting = none := by
  induction steps using List.reverseRecOn with
  | nil => exact .inl ⟨[], hfresh.waits⟩
  | append_singleton steps step ih =>
      have hsteady := steady_run hfresh.steady steps
      rw [run_concat]
      cases step with
      | index => exact .inr (indexWorkspace_ready _)
      | event event =>
          rcases ih with ⟨opened, hwaits⟩ | hready
          · exact .inl ⟨_, hwaits.receive hsteady event⟩
          · exact .inr ((evolves_receive hsteady.keyed (fun _ => trivial) event
              (savesFit_any _ event)).ready hready)

/-- A save of a clean document with another text than its content shows in the tree of the
document. -/
theorem not_showsContents_of_save (hsteady : session.server.Steady)
    (hready : session.server.waiting = none) {url : Url} {saved : Option String}
    {document : Document} (hdocument : session.server.document? url = some document)
    (hadmits : ¬ document.Admits (saved.getD document.content)) :
    ¬ (session.didSave url saved).server.ShowsContents := by
  obtain ⟨hclean, hother⟩ := not_or.mp hadmits
  rw [Bool.not_eq_true] at hclean
  intro hshows
  have hsave : session.didSave url saved =
      session.publish url (some document.version) (saved.getD document.content) := by
    rw [didSave, hdocument]
    dsimp only
    rw [if_neg, whenReady_of_ready hready]
    simp [hother]
  obtain ⟨sent, hpublish⟩ :=
    session.publish_eq url (some document.version) (saved.getD document.content)
  obtain ⟨nextSequence, accepted, hanalyse⟩ :=
    hsteady.analyse_eq hdocument (saved.getD document.content) .full
  have hkey := hsteady.key_eq hdocument
  have hread : (session.didSave url saved).server.document? url =
      some (document.read (saved.getD document.content)) := by
    rw [hsave, hpublish, hanalyse]
    exact Server.document?_putDocument _ hkey
  have htree := congrArg Tree.text (hshows _ _ hread)
  have hparsed : (document.read (saved.getD document.content)).currentTree =
      (parse (saved.getD document.content)).tree := by
    rw [Document.currentTree, Document.read, hclean]
    rfl
  rw [hparsed, parse_text, parse_text] at htree
  exact hother htree.symm

/-- Along every run from the start of a server, the clean documents have the parse of their
content, and questions are answered with the trees of the contents, if and only if no save brings
another text to a clean document. -/
theorem parses_current_iff (hfresh : session.Fresh) (steps : List Step) :
    ((∀ before, before <+: steps → (session.run before).server.Current) ↔
      ∀ before step, before ++ [step] <+: steps → (session.run before).Fits step) ∧
    ((∀ before, before <+: steps → (session.run before).server.ShowsContents) ↔
      ∀ before step, before ++ [step] <+: steps → (session.run before).Fits step) := by
  have hstart : session.server.Current := by
    intro uri document hdocument
    rw [hfresh.documents] at hdocument
    cases hdocument
  have hkept : (∀ before step, before ++ [step] <+: steps → (session.run before).Fits step) →
      ∀ before, before <+: steps → (session.run before).server.Current := by
    intro hfits before hbefore
    exact current_run hfresh.steady hstart before fun earlier step hearlier =>
      hfits earlier step (hearlier.trans hbefore)
  have hshown : (∀ before, before <+: steps → (session.run before).server.ShowsContents) →
      ∀ before step, before ++ [step] <+: steps → (session.run before).Fits step := by
    intro hshows before step hstep
    have hafter := hshows _ hstep
    rw [run_concat] at hafter
    cases step with
    | index => trivial
    | event event =>
        cases event with
        | didSave url saved =>
            intro document hdocument
            by_contra hadmits
            rcases waits_or_ready hfresh before with ⟨opened, hwaits⟩ | hready
            · exact hadmits (.inl (hwaits.dirty _ _ hdocument))
            · exact not_showsContents_of_save (steady_run hfresh.steady before) hready hdocument
                hadmits hafter
        | didOpen | didChange | didClose | configure | disk => trivial
  refine ⟨⟨fun hcurrent => hshown fun before hbefore => (hcurrent before hbefore).showsContents,
    hkept⟩, hshown, fun hfits before hbefore => (hkept hfits before hbefore).showsContents⟩

/-- The workspace is read, and a document is opened, changed and saved as it is. -/
def ordinarySteps : List Step :=
  [.index, .event (.didOpen editedUrl 1 "hp = 3;"),
    .event (.didChange editedUrl 2 [⟨none, "mana = 5;"⟩]), .event (.didSave editedUrl none)]

theorem parses_current_in_ordinary_run :
    ∃ document, (({} : Session).run ordinarySteps).server.document? editedUrl = some document ∧
      document.dirty = false ∧ document.parsed = some (.ofText "mana = 5;") := by
  have hfresh : ({} : Session).Fresh := ⟨rfl, rfl, rfl⟩
  have hfits : ∀ before step, before ++ [step] <+: ordinarySteps →
      (({} : Session).run before).Fits step := by
    intro before step hstep
    have hmem : step ∈ ordinarySteps := hstep.subset (List.mem_append_right _ List.mem_cons_self)
    simp only [ordinarySteps, List.mem_cons, List.not_mem_nil, or_false] at hmem
    rcases hmem with rfl | rfl | rfl | rfl
    · trivial
    · trivial
    · trivial
    · exact fun document _ => .inr rfl
  have hcurrent := (parses_current_iff hfresh ordinarySteps).1.mpr hfits _ (List.prefix_refl _)
  have hdocument : ((({} : Session).run ordinarySteps).server.document? editedUrl).map
      (fun document => (document.content, document.dirty)) = some ("mana = 5;", false) := by
    decide +kernel
  obtain ⟨document, hdocument, hstate⟩ := Option.map_eq_some_iff.mp hdocument
  obtain ⟨hcontent, hclean⟩ := Prod.mk.inj hstate
  refine ⟨document, hdocument, hclean, ?_⟩
  rw [← hcontent]
  exact hcurrent _ _ hdocument hclean

/-- The workspace is read, and a document is opened and saved with another text. -/
def foreignSave : List Step :=
  [.index, .event (.didOpen editedUrl 1 "hp = 3;"), .event (.didSave editedUrl (some "mana = 5;"))]

/-- The document is clean and has the text that it was opened with, but it is shown as the other
one. -/
theorem foreign_save_is_shown :
    ∃ document, (({} : Session).run foreignSave).server.document? editedUrl = some document ∧
      document.dirty = false ∧ document.content = "hp = 3;" ∧
      document.parsed ≠ some (.ofText document.content) ∧
      document.currentTree.text = "mana = 5;" := by
  have hdocument : ((({} : Session).run foreignSave).server.document? editedUrl).map
      (fun document => (document.dirty, document.content, document.currentTree.text)) =
        some (false, "hp = 3;", "mana = 5;") := by
    decide +kernel
  obtain ⟨document, hdocument, hstate⟩ := Option.map_eq_some_iff.mp hdocument
  obtain ⟨hclean, hrest⟩ := Prod.mk.inj hstate
  obtain ⟨hcontent, hshown⟩ := Prod.mk.inj hrest
  refine ⟨document, hdocument, hclean, hcontent, fun hparsed => ?_, hshown⟩
  have htree := Document.currentTree_of_current fun _ => hparsed
  rw [htree, parse_text, hcontent] at hshown
  exact absurd hshown (by decide)

end Session

end Gml
