import Gml.Proofs.Lint.Cycles
import Gml.Proofs.Lint.Declaring
import Gml.Proofs.SymbolIndex.Installing
import Gml.Proofs.SymbolTable.Rereading

/-!
# Analysing a text again

A round of analysis checks the calls before it installs what it found, and reports hidden
macros after that. So the calls of the first round are checked against what the index knew
of an earlier text. From the second round on the index knows this text, and every further
round finds the same.
-/
namespace Gml

/-! ### What the check of calls asks -/

namespace SymbolTable

variable {t t' : SymbolTable}

/-- Whether a macro or a variable for others bears a name. -/
def isOffered (t : SymbolTable) (name : String) : Bool :=
  (t.visibleMacro? name).isSome || (t.variableSites name).any (·.scope != .ofDocument)

theorem visibleMacro?_isSome (t : SymbolTable) (name : String) :
    (t.visibleMacro? name).isSome = !(listed t.macros name).isEmpty := by
  rw [visibleMacro?, listed]
  cases t.macros.get? name with
  | none => rfl
  | some definers => cases definers <;> rfl

theorem Consistent.isOffered_iff (h : t.Consistent) (name : String) :
    t.isOffered name = true ↔ ∃ uri c, t.contribution? uri = some c ∧ c.Offers name := by
  have hmacro : (t.visibleMacro? name).isSome = true ↔
      ∃ uri c, t.contribution? uri = some c ∧ ∃ record ∈ c.macros, record.name = name := by
    rw [visibleMacro?_isSome, (h.macros.perm name).isEmpty_eq, Bool.not_eq_true',
      List.isEmpty_eq_false_iff_exists_mem, scanMacros]
    simp only [Table.mem_collect_iff, List.mem_filter, beq_iff_eq]
    constructor
    · rintro ⟨record, uri, c, hc, hrecord, hname⟩
      exact ⟨uri, c, hc, record, hrecord, hname⟩
    · rintro ⟨uri, c, hc, record, hrecord, hname⟩
      exact ⟨record, uri, c, hc, hrecord, hname⟩
  have hvariable : (t.variableSites name).any (·.scope != .ofDocument) = true ↔
      ∃ uri c, t.contribution? uri = some c ∧
        ∃ record ∈ c.declarations, record.name = name ∧ record.scope ≠ .ofDocument := by
    have hperm : (t.variableSites name).Perm (t.scanDeclarations name) := h.declarations.perm name
    rw [hperm.any_eq, List.any_eq_true, scanDeclarations]
    simp only [Table.mem_collect_iff, List.mem_filter, beq_iff_eq, bne_iff_ne]
    constructor
    · rintro ⟨record, ⟨uri, c, hc, hrecord, hname⟩, hscope⟩
      exact ⟨uri, c, hc, record, hrecord, hname, hscope⟩
    · rintro ⟨uri, c, hc, record, hrecord, hname, hscope⟩
      exact ⟨record, ⟨uri, c, hc, hrecord, hname⟩, hscope⟩
  rw [isOffered, Bool.or_eq_true, hmacro, hvariable]
  simp only [Contribution.Offers, and_or_left, exists_or]

end SymbolTable

/-- Tables in which a name has the same signatures, and is offered alike unless the text
declares it, give the same finding about a call. -/
theorem Calls.check_eq {t t' : SymbolTable} {declared : List String} {call : Call}
    (hbuiltins : t'.builtinFunctions = t.builtinFunctions)
    (hscripts : (t'.scripts.get? call.callee.text).map (·.signature) =
      (t.scripts.get? call.callee.text).map (·.signature))
    (hoffered : call.callee.text ∉ declared →
      t'.isOffered call.callee.text = t.isOffered call.callee.text)
    (mode : LintMode) (settings : LintSettings) :
    check t' mode settings declared call = check t mode settings declared call := by
  have hfree : ∀ t : SymbolTable, t.builtinFunctions.get? call.callee.text = none →
      t.scripts.get? call.callee.text = none →
      target t call.callee.text =
        if t.isOffered call.callee.text then .known none else .unknown := by
    intro t hbuiltin hscript
    rw [target, hbuiltin, hscript]
    rfl
  cases hbuiltin : t.builtinFunctions.get? call.callee.text with
  | some function =>
      have htarget : target t' call.callee.text = target t call.callee.text := by
        rw [target, target, hbuiltins, hbuiltin]
      rw [check, check, htarget]
  | none =>
      cases hscript : t.scripts.get? call.callee.text with
      | some script =>
          rw [hscript] at hscripts
          obtain ⟨script', hscript', hsignature⟩ := Option.map_eq_some_iff.mp hscripts
          have htarget : target t' call.callee.text = target t call.callee.text := by
            rw [target, target, hbuiltins, hbuiltin, hscript, hscript']
            exact congrArg Target.known hsignature
          rw [check, check, htarget]
      | none =>
          rw [hscript, Option.map_none, Option.map_eq_none_iff] at hscripts
          rw [check, check, hfree t hbuiltin hscript, hfree t' (hbuiltins ▸ hbuiltin) hscripts]
          by_cases hdeclared : call.callee.text ∈ declared
          · have hcontains : declared.contains call.callee.text = true :=
              List.contains_iff_mem.mpr hdeclared
            simp only [hcontains]
            cases t.isOffered call.callee.text <;> cases t'.isOffered call.callee.text <;> rfl
          · rw [hoffered hdeclared]

/-! ### One round in full -/

namespace LintDocument

open SymbolIndex (install)

variable {d : LintDocument}

/-- The findings about the documentation in the text. -/
def docFindings (d : LintDocument) : List Diagnostic :=
  if d.kind.isScript then (Docs.read (parse d.text).tree).2 else []

/-- What a round finds in a text without errors if it starts with this table. -/
def findings (d : LintDocument) (t : SymbolTable) (passes : Passes) (mode : LintMode) :
    List Diagnostic :=
  (if passes.calls then Calls.diagnostics t mode d.settings (parse d.text).tree else [])
    ++ (if passes.docs then d.docFindings else [])
    ++ (install t d.uri (d.found passes)).1.map (d.conflictDiagnostic (.ofText d.text))

/-- The document in the middle of a round, with its text parsed and some findings. -/
def waiting (d : LintDocument) (pending : List Diagnostic) : LintDocument :=
  { d.withParse with pending }

theorem withParse_eq_waiting (hpending : d.pending = []) : d.withParse = d.waiting [] := by
  rw [waiting, ← hpending]
  rfl

section

variable (h : (parse d.text).ok = true) (pending : List Diagnostic)
include h

theorem cleanParse?_waiting : (d.waiting pending).cleanParse? = some (.ofText d.text) :=
  cleanParse?_withParse h

theorem contribution?_waiting : (d.waiting pending).contribution? = some d.reading :=
  contribution?_withParse h

theorem checkCalls_waiting (t : SymbolTable) (mode : LintMode) :
    (d.waiting pending).checkCalls t mode =
      d.waiting (pending ++ Calls.diagnostics t mode d.settings (parse d.text).tree) := by
  rw [checkCalls, cleanParse?_waiting h]
  rfl

theorem readDoc_waiting :
    (d.waiting pending).readDoc = (d.withParse.readDoc.1, d.waiting (pending ++ d.docFindings)) := by
  have hkind : (d.waiting pending).kind = d.kind := rfl
  refine Prod.ext (readDoc_pending d.withParse pending) ?_
  unfold readDoc
  rw [cleanParse?_waiting h, hkind, docFindings]
  cases d.kind.isScript with
  | true => rfl
  | false => rw [if_neg Bool.false_ne_true, List.append_nil]

theorem reportConflicts_waiting (conflicts : List MacroConflict) :
    (d.waiting pending).reportConflicts conflicts =
      d.waiting (pending ++ conflicts.map (d.conflictDiagnostic (.ofText d.text))) := by
  rw [reportConflicts, cleanParse?_waiting h]
  rfl

end

/-- The three analyses add their findings one after the other. -/
theorem runCycle_of_clean (h : (parse d.text).ok = true) (hpending : d.pending = [])
    (index : SymbolIndex) (ticket : Ticket) (passes : Passes) (mode : LintMode) :
    d.runCycle index ticket passes mode =
      (⟨Diagnostic.sortBySource
          ((if passes.calls
              then Calls.diagnostics index.table mode d.settings (parse d.text).tree else [])
            ++ (if passes.docs then d.docFindings else [])
            ++ ((index.commit ticket (d.found passes)).1.getD []).map
              (d.conflictDiagnostic (.ofText d.text))),
          true, (index.commit ticket (d.found passes)).1.isNone⟩,
        d.waiting [], (index.commit ticket (d.found passes)).2) := by
  have hmatch : d.matchText = (true, d.waiting []) := by
    rw [← h, ← withParse_eq_waiting hpending]
    rfl
  have hcalls : (if passes.calls then (d.waiting []).checkCalls index.table mode else d.waiting []) =
      d.waiting (if passes.calls
        then Calls.diagnostics index.table mode d.settings (parse d.text).tree else []) := by
    cases passes.calls with
    | true => rw [if_pos rfl, if_pos rfl, checkCalls_waiting h, List.nil_append]
    | false => rfl
  have hdocs : ∀ pending, (if passes.docs then (d.waiting pending).readDoc
      else (.unchanged, d.waiting pending)) =
      ((d.found passes).doc, d.waiting (pending ++ if passes.docs then d.docFindings else [])) := by
    intro pending
    rw [found_of_ok h]
    cases passes.docs with
    | true => exact readDoc_waiting h pending
    | false => simp
  have hfound : ∀ pending, (⟨if passes.names then some d.reading else none, (d.found passes).doc,
      (if passes.names then some d.reading else none).map fun _ =>
        ContentHash.ofText (d.waiting pending).text⟩ : Commit) = d.found passes := by
    intro pending
    rw [found_of_ok h]
    cases passes.names with
    | true => rfl
    | false => rfl
  rw [runCycle, hmatch]
  dsimp only
  rw [hcalls, hdocs, contribution?_waiting h]
  dsimp only
  rw [hfound, reportConflicts_waiting h]
  rfl

theorem runCycle_of_accepted (h : (parse d.text).ok = true) (hpending : d.pending = [])
    {index : SymbolIndex} {sequence : Nat} (haccept : (index.accept ⟨d.uri, sequence⟩).1 = true)
    (passes : Passes) (mode : LintMode) :
    d.runCycle index ⟨d.uri, sequence⟩ passes mode =
      (⟨Diagnostic.sortBySource (d.findings index.table passes mode), true, false⟩, d.waiting [],
        (index.commit ⟨d.uri, sequence⟩ (d.found passes)).2) := by
  rw [runCycle_of_clean h hpending, SymbolIndex.conflicts_commit haccept]
  rfl

/-! ### The same text again -/

/-- What the index knows of the document does not matter for the calls in its text: a name
that an earlier text offered to be called and that is called still is declared still, and
the script of the document, if it is called, has the signature that the text gives it. -/
structure Current (d : LintDocument) (t : SymbolTable) (passes : Passes) : Prop where
  names : passes.names = true → ∀ c, t.contribution? d.uri = some c →
    ∀ call ∈ Calls.calls (parse d.text).tree, c.Offers call.callee.text →
      call.callee.text ∈ Calls.declaredNames (parse d.text).tree
  docs : passes.docs = true → d.kind.isScript = true → ∀ script, t.scriptAt? d.uri = some script →
    (∃ call ∈ Calls.calls (parse d.text).tree, call.callee.text = script.name) →
      script.signature = (Docs.read (parse d.text).tree).1.map (·.signature script.name)

/-- The table after a round. -/
def installed (d : LintDocument) (t : SymbolTable) (passes : Passes) : SymbolTable :=
  (install t d.uri (d.found passes)).2

section

variable {t : SymbolTable} (hconsistent : t.Consistent) (hblocks : t.InBlocks)
  (hresources : t.Resourced) (h : (parse d.text).ok = true) (passes : Passes)

theorem declared_of_reading {name : String} (hoffers : d.reading.Offers name) :
    name ∈ Calls.declaredNames (parse d.text).tree := by
  rw [← d.tree_view]
  exact Names.declared_of_offers hoffers

theorem found_belongsTo (d : LintDocument) (passes : Passes) :
    ∀ c, (d.found passes).contribution = some c → c.BelongsTo d.uri := by
  intro c hc
  obtain ⟨-, hreading⟩ := Option.ite_none_right_eq_some.mp hc
  rw [← Option.some.inj hreading]
  exact Names.contribution_belongsTo _

theorem exists_edits_installed (d : LintDocument) (t : SymbolTable) (passes : Passes) :
    ∃ edits : List SymbolTable.Edit, d.installed t passes = edits.foldl SymbolTable.Edit.apply t :=
  SymbolIndex.exists_edits_install t d.uri (d.found_belongsTo passes)

include h in
theorem contribution?_installed (other : Uri) :
    (d.installed t passes).contribution? other =
      if other = d.uri ∧ passes.names = true then d.reading.stored else t.contribution? other := by
  rw [installed, SymbolIndex.contribution?_install, found_of_ok h]
  cases passes.names <;> simp

include h in
theorem readDoc_withParse : d.withParse.readDoc.1 =
    if d.kind.isScript then (Docs.read (parse d.text).tree).1.elim .clear .set else .unchanged := by
  have hparse : d.withParse.cleanParse? = some ⟨parse d.text, .ofText d.text⟩ :=
    cleanParse?_withParse h
  have hkind : d.withParse.kind = d.kind := rfl
  unfold readDoc
  rw [hparse, hkind]
  cases d.kind.isScript with
  | false => rfl
  | true =>
      rw [if_pos rfl]
      dsimp only
      cases (Docs.read (parse d.text).tree).1 with
      | none => rfl
      | some doc => rfl

include h in
/-- The signature that a round gives the script of the document. -/
theorem signature?_found (name : String) (old : Option Signature) :
    (d.found passes).doc.signature? name old =
      if passes.docs = true ∧ d.kind.isScript = true
        then (Docs.read (parse d.text).tree).1.map (·.signature name) else old := by
  rw [found_of_ok h, readDoc_withParse h]
  generalize (Docs.read (parse d.text).tree).1 = doc
  cases passes.docs with
  | false => simp [DocUpdate.signature?]
  | true =>
      cases d.kind.isScript with
      | false => simp [DocUpdate.signature?]
      | true => cases doc <;> rfl

include hconsistent hresources h in
/-- The check of the calls finds the same before and after. -/
theorem diagnostics_installed (hcurrent : d.Current t passes) (mode : LintMode) :
    Calls.diagnostics (d.installed t passes) mode d.settings (parse d.text).tree =
      Calls.diagnostics t mode d.settings (parse d.text).tree := by
  obtain ⟨edits, hedits⟩ := d.exists_edits_installed t passes
  have hconsistent' : (d.installed t passes).Consistent := hedits ▸ hconsistent.foldl_apply edits
  have hcontribution := contribution?_installed (t := t) h passes
  obtain ⟨scripts, hashes, hinstalled, -, hafter⟩ :=
    SymbolIndex.install_eq hresources.scripts d.uri (d.found passes)
  refine List.filterMap_congr fun call hcall => Calls.check_eq ?_ ?_ ?_ mode d.settings
  · rw [installed, hinstalled]
    cases (d.found passes).contribution with
    | none => rfl
    | some c => exact (SymbolTable.resources_replaceContribution t d.uri c).2.2.1
  · have hscripts : (d.installed t passes).scripts = scripts := by rw [installed, hinstalled]
    rw [hscripts, hafter]
    split
    next hlink =>
        rw [Option.map_map]
        refine Option.map_congr fun script hscript => ?_
        rw [Function.comp_apply, DocUpdate.signature_applyTo, signature?_found h]
        split
        next hreads =>
            have hname : script.name = call.callee.text := hresources.scripts _ script hscript
            have hat : t.scriptAt? d.uri = some script := by
              rw [SymbolTable.scriptAt?, hlink, Option.bind_some, hscript]
            rw [hcurrent.docs hreads.1 hreads.2 script hat ⟨call, hcall, hname.symm⟩]
        next => rfl
    next => rfl
  · intro hfree
    rw [Bool.eq_iff_iff, hconsistent'.isOffered_iff, hconsistent.isOffered_iff]
    constructor
    · rintro ⟨uri, c, hc, hoffers⟩
      rw [hcontribution] at hc
      split at hc
      next =>
          obtain ⟨rfl, -⟩ := Contribution.stored_eq_some_iff.mp hc
          exact absurd (declared_of_reading hoffers) hfree
      next => exact ⟨uri, c, hc, hoffers⟩
    · rintro ⟨uri, c, hc, hoffers⟩
      refine ⟨uri, c, ?_, hoffers⟩
      rw [hcontribution, if_neg, hc]
      rintro ⟨rfl, hnames⟩
      exact hfree (hcurrent.names hnames c hc call hcall hoffers)

include hconsistent hblocks hresources in
/-- The same macros stay hidden when the text is read again. -/
theorem conflicts_installed :
    (install (d.installed t passes) d.uri (d.found passes)).1 =
      (install t d.uri (d.found passes)).1 := by
  have hinstall : ∀ t : SymbolTable, (install t d.uri (d.found passes)).1 =
      (d.found passes).contribution.elim [] fun c => (t.replaceContribution d.uri c).1 := by
    intro t
    rw [install]
    cases (d.found passes).contribution <;> rfl
  obtain ⟨edits, hedits⟩ := d.exists_edits_installed t passes
  have hconsistent' : (d.installed t passes).Consistent := hedits ▸ hconsistent.foldl_apply edits
  have hblocks' : (d.installed t passes).InBlocks :=
    hedits ▸ SymbolTable.documentary_inBlocks.foldl_apply hblocks edits
  obtain ⟨scripts, hashes, hinstalled, -, hafter⟩ :=
    SymbolIndex.install_eq hresources.scripts d.uri (d.found passes)
  rw [hinstall, hinstall]
  cases hcontribution : (d.found passes).contribution with
  | none => rw [Option.elim_none, Option.elim_none]
  | some c =>
      rw [hcontribution, Option.elim_some] at hinstalled
      have hstored : (d.installed t passes).contributionOf d.uri = c := by
        rw [SymbolTable.contributionOf, installed, SymbolIndex.contribution?_install, if_pos rfl,
          hcontribution, Option.elim_some, Contribution.stored_getD]
      have hreread : ((d.installed t passes).replaceContribution d.uri c).2 =
          (d.installed t passes).reread d.uri := by
        rw [SymbolTable.reread, hstored]
      have hsame := hconsistent'.sameSources_reread d.uri
      have hblocks'' : ((d.installed t passes).reread d.uri).InBlocks :=
        hblocks'.replaceContribution (hconsistent'.contributionOf_belongsTo d.uri)
      have hresourcesOf := SymbolTable.resources_replaceContribution t d.uri c
      rw [Option.elim_some, Option.elim_some, SymbolTable.conflicts_replaceContribution,
        SymbolTable.conflicts_replaceContribution, hreread]
      refine SymbolTable.macroConflicts_eq (fun name => ?_) ?_ (fun name => ?_) c
      · rw [hsame.scripts, hresourcesOf.1, installed, hinstalled, Table.contains, Table.contains,
          hafter]
        split
        · rw [Option.isSome_map]
        · rfl
      · rw [hsame.objects, hresourcesOf.2.1, installed, hinstalled]
        exact hresourcesOf.2.1
      · refine (hsame.visibleMacro?_eq_of_owners hblocks' hblocks''
          (hconsistent'.owners_reread hblocks' d.uri name)).trans ?_
        have hmacros : (d.installed t passes).macros = (t.replaceContribution d.uri c).2.macros := by
          rw [installed, hinstalled]
        rw [SymbolTable.visibleMacro?, SymbolTable.visibleMacro?, hmacros]

include hresources h in
theorem current_installed : d.Current (d.installed t passes) passes := by
  obtain ⟨edits, hedits⟩ := d.exists_edits_installed t passes
  have hresources' : (d.installed t passes).Resourced :=
    hedits ▸ SymbolTable.documentary_resourced.foldl_apply hresources edits
  obtain ⟨scripts, hashes, hinstalled, hreplaced, hafter⟩ :=
    SymbolIndex.install_eq hresources.scripts d.uri (d.found passes)
  have hlinks : (d.installed t passes).scriptAt = t.scriptAt := by
    rw [installed, hinstalled]
    exact hreplaced
  have hscripts : (d.installed t passes).scripts = scripts := by rw [installed, hinstalled]
  refine ⟨fun hnames c hc call _ hoffers => ?_, fun hdocs hkind script hscript _ => ?_⟩
  · rw [contribution?_installed h, if_pos ⟨rfl, hnames⟩] at hc
    obtain ⟨rfl, -⟩ := Contribution.stored_eq_some_iff.mp hc
    exact declared_of_reading hoffers
  · obtain ⟨name, hlink, hget⟩ := Option.bind_eq_some_iff.mp hscript
    have hname : script.name = name := hresources'.scripts name script hget
    rw [hscripts, hafter, if_pos (hlinks ▸ hlink)] at hget
    obtain ⟨old, -, rfl⟩ := Option.map_eq_some_iff.mp hget
    rw [DocUpdate.signature_applyTo, signature?_found h, if_pos ⟨hdocs, hkind⟩,
      ((d.found passes).doc.applyTo_place old).1]

end

/-! ### Rounds in a row -/

/-- A round with a new ticket. -/
def round (d : LintDocument) (index : SymbolIndex) (passes : Passes) (mode : LintMode) :
    LintOutcome × LintDocument × SymbolIndex :=
  d.runCycle (index.issue d.uri).2 (index.issue d.uri).1 passes mode

/-- The document and the index after one more round. -/
def again (passes : Passes) (mode : LintMode) (state : LintDocument × SymbolIndex) :
    LintDocument × SymbolIndex :=
  (state.1.round state.2 passes mode).2

/-- What one more round shows. -/
def shown (passes : Passes) (mode : LintMode) (state : LintDocument × SymbolIndex) :
    List Diagnostic :=
  (state.1.round state.2 passes mode).1.diagnostics

theorem accept_issue {index : SymbolIndex} (hsound : index.Sound) (uri : Uri) :
    ((index.issue uri).2.accept ⟨uri, index.nextSequence⟩).1 = true := by
  rw [SymbolIndex.accept_eq, decide_eq_true_eq]
  exact hsound.last_lt uri

theorem reachable_round {index : SymbolIndex} (h : index.Reachable) (d : LintDocument)
    (passes : Passes) (mode : LintMode) : (d.round index passes mode).2.2.Reachable := by
  rw [round, (runCycle_eq d _ _ passes mode).1]
  exact (h.issue d.uri).commit (Nat.lt_succ_self _) (d.found_belongsTo passes)

/-- What a round with a new ticket does if the text has no errors. -/
theorem round_of_ok (h : (parse d.text).ok = true) (hpending : d.pending = [])
    {index : SymbolIndex} (hsound : index.Sound) (passes : Passes) (mode : LintMode) :
    ∃ index' : SymbolIndex, index'.Sound ∧ index'.table = d.installed index.table passes ∧
      d.round index passes mode =
        (⟨Diagnostic.sortBySource (d.findings index.table passes mode), true, false⟩,
          d.waiting [], index') := by
  have haccept := accept_issue hsound d.uri
  refine ⟨_, ?_, ?_, runCycle_of_accepted h hpending haccept passes mode⟩
  · exact (hsound.issue d.uri).commit (Nat.lt_succ_self _) (d.found_belongsTo passes)
  · rw [(SymbolIndex.commit_eq _ _ _).2, if_pos haccept]
    rfl

/-- A text with errors only makes older tickets stale. -/
theorem round_of_errors (h : (parse d.text).ok = false) (hpending : d.pending = [])
    {index : SymbolIndex} (hsound : index.Sound) (passes : Passes) (mode : LintMode) :
    ∃ index' : SymbolIndex, index'.Sound ∧ d.round index passes mode =
      (⟨(d.waiting []).parseDiagnostics, false, false⟩, d.waiting [], index') := by
  refine ⟨((index.issue d.uri).2.accept ⟨d.uri, index.nextSequence⟩).2,
    (hsound.issue d.uri).accept (Nat.lt_succ_self _), ?_⟩
  rw [round, runCycle_of_errors h, withParse_eq_waiting hpending]
  have haccept : ((index.issue d.uri).2.accept (index.issue d.uri).1).1 = true :=
    accept_issue hsound d.uri
  rw [haccept]
  rfl

/-- What the analysis of a document starts from: no findings wait, and the index is sound. -/
structure Idle (state : LintDocument × SymbolIndex) : Prop where
  pending : state.1.pending = []
  sound : state.2.Sound

/-- Where the index knows nothing that matters for the calls in the text. -/
def Known (passes : Passes) (state : LintDocument × SymbolIndex) : Prop :=
  (parse state.1.text).ok = true → passes.calls = true → state.1.Current state.2.table passes

section

variable {state : LintDocument × SymbolIndex} (hidle : Idle state) (passes : Passes)
  (mode : LintMode)
include hidle

theorem Idle.again : Idle (again passes mode state) ∧ Known passes (again passes mode state) := by
  obtain ⟨d, index⟩ := state
  obtain ⟨hpending, hsound⟩ := hidle
  cases h : (parse d.text).ok with
  | true =>
      obtain ⟨index', hsound', htable, hround⟩ := round_of_ok h hpending hsound passes mode
      rw [LintDocument.again, hround]
      refine ⟨⟨rfl, hsound'⟩, fun _ _ => ?_⟩
      rw [htable]
      obtain ⟨hnames, hdocs⟩ := current_installed hsound.resourced h passes
      exact ⟨hnames, hdocs⟩
  | false =>
      obtain ⟨index', hsound', hround⟩ := round_of_errors h hpending hsound passes mode
      rw [LintDocument.again, hround]
      refine ⟨⟨rfl, hsound'⟩, fun hok => ?_⟩
      rw [show (d.waiting []).text = d.text from rfl, h] at hok
      cases hok

theorem Idle.shown_again (hknown : Known passes state) :
    shown passes mode (LintDocument.again passes mode state) = shown passes mode state := by
  obtain ⟨d, index⟩ := state
  obtain ⟨hpending, hsound⟩ := hidle
  cases h : (parse d.text).ok with
  | true =>
      obtain ⟨index', hsound', htable, hround⟩ := round_of_ok h hpending hsound passes mode
      obtain ⟨_, -, -, hround'⟩ := round_of_ok (d := d.waiting []) h rfl hsound' passes mode
      rw [shown, shown, LintDocument.again, hround, hround']
      have hcalls : passes.calls = true →
          Calls.diagnostics index'.table mode d.settings (parse d.text).tree =
            Calls.diagnostics index.table mode d.settings (parse d.text).tree := by
        intro hcalls
        rw [htable]
        exact diagnostics_installed hsound.consistent hsound.resourced h passes (hknown h hcalls) mode
      have hconflicts : (install index'.table d.uri (d.found passes)).1 =
          (install index.table d.uri (d.found passes)).1 := by
        rw [htable]
        exact conflicts_installed hsound.consistent hsound.inBlocks hsound.resourced passes
      have hfindings : d.findings index'.table passes mode = d.findings index.table passes mode := by
        rw [findings, findings, hconflicts]
        cases hpass : passes.calls with
        | true => rw [hcalls hpass]
        | false => rw [if_neg Bool.false_ne_true, if_neg Bool.false_ne_true]
      rw [← hfindings]
      rfl
  | false =>
      obtain ⟨index', hsound', hround⟩ := round_of_errors h hpending hsound passes mode
      obtain ⟨_, -, hround'⟩ := round_of_errors (d := d.waiting []) h rfl hsound' passes mode
      rw [shown, shown, LintDocument.again, hround, hround']
      rfl

theorem Idle.iterate_again (n : Nat) :
    Idle ((LintDocument.again passes mode)^[n + 1] state) ∧
      Known passes ((LintDocument.again passes mode)^[n + 1] state) := by
  induction n with
  | zero => exact hidle.again passes mode
  | succ n ih =>
      rw [Function.iterate_succ_apply']
      exact ih.1.again passes mode

end

/-- However often a text is analysed in a row, from the second round on the findings are the
same. They are those of the first round too if the text has errors, or its calls are not
checked, or they do not ask for what the index holds of the document. -/
theorem rounds_settle {index : SymbolIndex} (hindex : index.Reachable) {d : LintDocument}
    (hpending : d.pending = []) (passes : Passes) (mode : LintMode) :
    (∀ n, shown passes mode ((again passes mode)^[n + 1] (d, index)) =
      shown passes mode (again passes mode (d, index))) ∧
    (Known passes (d, index) →
      shown passes mode (again passes mode (d, index)) = shown passes mode (d, index)) := by
  have hidle : Idle (d, index) := ⟨hpending, hindex.sound⟩
  refine ⟨fun n => ?_, hidle.shown_again passes mode⟩
  induction n with
  | zero => rfl
  | succ n ih =>
      obtain ⟨hidle', hknown⟩ := hidle.iterate_again passes mode n
      rw [Function.iterate_succ_apply', hidle'.shown_again passes mode hknown, ih]

/-- A call of `foo` by a script whose text defined `foo` before. -/
def caller : LintDocument := { uri := "scr", kind := .script "scr", text := "foo();" }

/-- The index after a round that read this earlier text. -/
def indexOfOwner : SymbolIndex :=
  (LintDocument.round { caller with text := "globalvar foo;" } {} {} .full).2.2

theorem rounds_settle_at_once :
    SymbolIndex.Reachable {} ∧ caller.pending = [] ∧ Known {} (caller, {}) ∧
      shown {} .full (again {} .full (caller, {})) = shown {} .full (caller, {}) := by
  have hknown : Known {} (caller, {}) := fun _ _ => ⟨fun _ => nofun, fun _ _ => nofun⟩
  exact ⟨.start, rfl, hknown, (rounds_settle .start rfl {} .full).2 hknown⟩

/-- The first round still takes `foo` from the earlier text; the second reports it. -/
theorem second_round_differs :
    indexOfOwner.Reachable ∧ caller.pending = [] ∧ shown {} .full (caller, indexOfOwner) = [] ∧
      shown {} .full (again {} .full (caller, indexOfOwner)) =
        [⟨.unresolvedFunction, .calls, ⟨0, 3⟩, "unresolved function or script 'foo'"⟩] :=
  ⟨reachable_round .start _ {} .full, rfl, by decide +kernel, by decide +kernel⟩

end LintDocument

end Gml
