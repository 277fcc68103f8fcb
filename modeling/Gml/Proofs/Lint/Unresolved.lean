import Gml.Proofs.Lint.Contributing
import Gml.Proofs.Lint.Declaring

/-!
# Unresolved calls

A call of a name that stands for nothing is reported unless the name is among those that the
tree declares. These are the names that some construct of the text declares, whatever the
document contributes of them, and the names of all fields that the text mentions.
-/
namespace Gml

namespace Tree

/-! ### Names that a text declares -/

/-- The names that a node declares: by `var`, `globalvar`, `enum` or `#macro`, as a parameter, a
function or a member, and as the target of an assignment to the name or to its field of `global`
or `self`. -/
def declarationsAt : Tree → List String
  | .node .varDeclarator children | .node .globalVarStmt children | .node .paramList children
  | .node .functionDecl children | .node .functionExpr children | .node .enumDecl children
  | .node .enumMember children => (names children).map Token.text
  | .node .macroDecl children => ((macroMention? children).map Mention.name).toList
  | .node .assignStmt children =>
      (((children.find? isNode).bind referenceIdent?).map Token.text).toList ++
        ((assignedField? children).map Token.text).toList
  | _ => []

def declarations (tree : Tree) : List String := tree.preorder.flatMap declarationsAt

/-- The name behind the dot of a field access. -/
def fieldsAt : Tree → List String
  | .node .fieldExpr children => (names children).map Token.text
  | _ => []

def fields (tree : Tree) : List String := tree.preorder.flatMap fieldsAt

variable {tree : Tree} {kind : NodeKind} {children : List Tree} {name : String}

theorem mem_names {token : Token} : token ∈ names children ↔
    ∃ below, .node .name below ∈ children ∧ findLeaf? .ident below = some token := by
  constructor
  · intro h
    obtain ⟨child, hchild, htoken⟩ := List.mem_filterMap.mp h
    obtain ⟨hmem, hkind⟩ := List.mem_filter.mp hchild
    cases child with
    | leaf found => cases hkind
    | node kind below =>
        obtain rfl : kind = .name := eq_of_beq hkind
        exact ⟨below, hmem, htoken⟩
  · rintro ⟨below, hmem, htoken⟩
    exact List.mem_filterMap.mpr ⟨_, List.mem_filter.mpr ⟨hmem, rfl⟩, htoken⟩

theorem declared_of_names (h : .node kind children ∈ tree.preorder)
    (hname : name ∈ (names children).map Token.text) : name ∈ Calls.declaredNames tree := by
  obtain ⟨token, htoken, rfl⟩ := List.mem_map.mp hname
  obtain ⟨below, hmem, hident⟩ := mem_names.mp htoken
  refine List.mem_flatMap.mpr ⟨_, preorder_trans h (mem_preorder_of_mem hmem), ?_⟩
  rw [Calls.declaredBy, hident]
  exact List.mem_singleton.mpr rfl

/-- The field that an assignment declares is the field of its target. -/
theorem Regular.mem_names_of_ownField? {target : Tree} {field : Token} (h : target.Regular)
    (hfield : target.bare.ownField? = some field) :
    ∃ below, target = .node .fieldExpr below ∧ field ∈ names below := by
  cases target with
  | leaf token => cases hfield
  | node kind below =>
      have hkind : kind = .fieldExpr := by
        rw [bare] at hfield
        unfold ownField? at hfield
        split at hfield
        next heq => exact (Tree.node.inj heq).1
        · cases hfield
      subst hkind
      refine ⟨below, rfl, ?_⟩
      obtain ⟨base, inside, name, dot, found, -, hnodes, hbare, hfound⟩ := h.nodes_fieldExpr
      have hmem : .node .name name ∈ below := by
        refine List.mem_of_mem_filter (p := isNode) ?_
        rw [hnodes]
        exact List.mem_cons_of_mem _ List.mem_cons_self
      have heq : found = field := by
        rw [bare, hbare] at hfield
        unfold ownField? at hfield
        split at hfield
        next heq =>
            simp only [Tree.node.injEq, List.cons.injEq, Tree.leaf.injEq, true_and, and_true] at heq
            exact heq.2.2.trans (Option.some.inj (Option.ite_none_right_eq_some.mp hfield).2)
        · cases hfield
      rw [← heq]
      exact mem_names.mpr ⟨name, hmem, hfound⟩

/-- A name stands below what declares it or below a field access. -/
theorem declared_or_field_of_name {below : List Tree} (h : tree.Regular)
    (hroot : tree.hasKind .name = false) (hnode : .node .name below ∈ tree.preorder)
    {token : Token} (htoken : findLeaf? .ident below = some token) :
    token.text ∈ tree.declarations ∨ token.text ∈ tree.fields := by
  rcases parent_of_mem_preorder hnode with heq | ⟨kind, children, hparent, hmem⟩
  · rw [← heq] at hroot
    cases hroot
  · have hadmits := (h kind children hparent).admits hmem
    have hname : token.text ∈ (names children).map Token.text :=
      List.mem_map_of_mem (mem_names.mpr ⟨below, hmem, htoken⟩)
    have hdeclares : declarationsAt (.node kind children) = (names children).map Token.text →
        token.text ∈ tree.declarations :=
      fun heq => List.mem_flatMap.mpr ⟨_, hparent, by rwa [heq]⟩
    have hfield : fieldsAt (.node kind children) = (names children).map Token.text →
        token.text ∈ tree.fields :=
      fun heq => List.mem_flatMap.mpr ⟨_, hparent, by rwa [heq]⟩
    cases kind <;> first | exact .inl (hdeclares rfl) | exact .inr (hfield rfl) | cases hadmits

theorem declaredBy_macroDecl (children : List Tree) :
    Calls.declaredBy (.node .macroDecl children) = declarationsAt (.node .macroDecl children) := by
  rw [Calls.declaredBy, declarationsAt, macroMention?, Option.map_bind, Option.map_bind]
  simp only [Function.comp_def, Option.map_map]

/-- Of what an assignment declares the field is not taken from the assignment itself. -/
theorem declarationsAt_assignStmt (children : List Tree) :
    declarationsAt (.node .assignStmt children) =
      Calls.declaredBy (.node .assignStmt children) ++
        ((assignedField? children).map Token.text).toList := by
  rw [declarationsAt, Calls.declaredBy, List.head?_filter]

/-- It is taken from its name, which stands below the target. -/
theorem declared_of_assignedField (h : tree.Regular) (hnode : .node .assignStmt children ∈ tree.preorder)
    {field : Token} (hfield : assignedField? children = some field) :
    field.text ∈ Calls.declaredNames tree := by
  obtain ⟨target, htarget, hown⟩ := Option.bind_eq_some_iff.mp hfield
  have hbelow := preorder_trans hnode (mem_preorder_of_mem (List.mem_of_find?_eq_some htarget))
  have hregular : target.Regular := h.below fun _ => preorder_trans hbelow
  obtain ⟨below, rfl, hmem⟩ := hregular.mem_names_of_ownField? hown
  exact declared_of_names hbelow (List.mem_map_of_mem hmem)

theorem declared_of_declarationsAt (h : tree.Regular) {node : Tree} (hnode : node ∈ tree.preorder)
    (hname : name ∈ declarationsAt node) : name ∈ Calls.declaredNames tree := by
  have hat : name ∈ Calls.declaredBy node → name ∈ Calls.declaredNames tree :=
    fun hname => List.mem_flatMap.mpr ⟨node, hnode, hname⟩
  cases node with
  | leaf token => cases hname
  | node kind children =>
      cases kind with
      | macroDecl =>
          rw [← declaredBy_macroDecl] at hname
          exact hat hname
      | assignStmt =>
          rw [declarationsAt_assignStmt] at hname
          rcases List.mem_append.mp hname with hname | hname
          · exact hat hname
          · obtain ⟨field, hfield, rfl⟩ := Option.map_eq_some_iff.mp (Option.mem_toList.mp hname)
            exact declared_of_assignedField h hnode hfield
      | varDeclarator | globalVarStmt | paramList | functionDecl | functionExpr | enumDecl
      | enumMember => exact declared_of_names hnode hname
      | _ => cases hname

theorem declared_of_fieldsAt {node : Tree} (hnode : node ∈ tree.preorder)
    (hname : name ∈ fieldsAt node) : name ∈ Calls.declaredNames tree := by
  unfold fieldsAt at hname
  split at hname
  · exact declared_of_names hnode hname
  · cases hname

/-- The names taken for declared are those that are and those of fields. -/
theorem mem_declaredNames_iff (h : tree.Regular) (hroot : tree.hasKind .name = false) :
    name ∈ Calls.declaredNames tree ↔ name ∈ tree.declarations ∨ name ∈ tree.fields := by
  constructor
  · intro hname
    obtain ⟨node, hnode, hat⟩ := List.mem_flatMap.mp hname
    unfold Calls.declaredBy at hat
    split at hat
    next below =>
        obtain ⟨token, htoken, rfl⟩ := Option.map_eq_some_iff.mp (Option.mem_toList.mp hat)
        exact declared_or_field_of_name h hroot hnode htoken
    next children =>
        refine .inl (List.mem_flatMap.mpr ⟨_, hnode, ?_⟩)
        rwa [← declaredBy_macroDecl]
    next children =>
        refine .inl (List.mem_flatMap.mpr ⟨_, hnode, ?_⟩)
        rw [declarationsAt_assignStmt]
        exact List.mem_append_left _ hat
    · cases hat
  · rintro (hname | hname)
    · obtain ⟨node, hnode, hat⟩ := List.mem_flatMap.mp hname
      exact declared_of_declarationsAt h hnode hat
    · obtain ⟨node, hnode, hat⟩ := List.mem_flatMap.mp hname
      exact declared_of_fieldsAt hnode hat

end Tree

/-! ### What is reported -/

/-- Nothing that can be called from another document bears the name. -/
structure SymbolTable.Lacks (t : SymbolTable) (name : String) : Prop where
  builtin : t.builtinFunctions.get? name = none
  script : t.scripts.get? name = none
  macroDef : t.visibleMacro? name = none
  shared : ∀ record ∈ t.variableSites name, record.scope = .ofDocument

namespace Calls

variable {t : SymbolTable} {mode : LintMode} {settings : LintSettings} {declared : List String}
  {call : Call} {tree : Tree}

theorem target_eq_unknown {name : String} (h : t.Lacks name) : target t name = .unknown := by
  have hsites : (t.variableSites name).any (·.scope != .ofDocument) = false := by
    rw [List.any_eq_false]
    intro record hrecord hscope
    rw [h.shared record hrecord] at hscope
    cases hscope
  rw [target, h.builtin, h.script, h.macroDef, hsites]
  rfl

def unresolved (call : Call) : Diagnostic :=
  report .unresolvedFunction call s!"unresolved function or script '{call.callee.text}'"

/-- A call is only reported as unresolved if its name is not declared. -/
theorem check_unresolved {finding : Diagnostic} (h : check t mode settings declared call = some finding)
    (hcode : finding.code = .unresolvedFunction) :
    finding = unresolved call ∧ call.callee.text ∉ declared := by
  unfold check at h
  dsimp only at h
  split at h
  · split at h
    · cases h
      cases hcode
    · cases h
  · cases h
  · split at h
    next hreports =>
        cases h
        rw [Bool.and_eq_true, Bool.and_eq_true, Bool.not_eq_true'] at hreports
        refine ⟨rfl, fun hmem => ?_⟩
        rw [List.contains_iff_mem.mpr hmem] at hreports
        cases hreports.1.1
    · cases h

theorem check_of_lacks (h : t.Lacks call.callee.text) (hdeclared : call.callee.text ∉ declared)
    (hwarn : settings.warnUnresolved = true) :
    check t .full settings declared call = some (unresolved call) := by
  have hcontains : declared.contains call.callee.text = false := by
    rwa [Bool.eq_false_iff, ne_eq, List.contains_iff_mem]
  unfold check
  dsimp only
  rw [target_eq_unknown h]
  simp only [hcontains, hwarn]
  rfl

/-- A finding about an unresolved call comes from a call in the tree. -/
theorem mem_diagnostics_unresolved {finding : Diagnostic}
    (h : finding ∈ diagnostics t mode settings tree) (hcode : finding.code = .unresolvedFunction) :
    ∃ call ∈ calls tree, finding = unresolved call ∧ call.callee.text ∉ declaredNames tree := by
  obtain ⟨call, hcall, hcheck⟩ := List.mem_filterMap.mp h
  exact ⟨call, hcall, check_unresolved hcheck hcode⟩

/-- The identifier in front of a call, if a plain one is called. -/
def callee? (children : List Tree) : Option Token :=
  (children.find? Tree.isNode).bind Tree.referenceIdent?

theorem callOf?_callExpr (children : List Tree) :
    (callOf? (.node .callExpr children)).map Call.callee = callee? children := by
  have hfirst : (Tree.nodes (.node .callExpr children)).head? = children.find? Tree.isNode :=
    List.head?_filter
  have hkind : Tree.hasKind .callExpr (.node .callExpr children) = true := rfl
  unfold callOf? callee?
  simp only [hkind, if_true, hfirst]
  cases children.find? Tree.isNode with
  | none => rfl
  | some callee => cases hident : callee.referenceIdent? <;> simp [hident]

theorem callOf?_eq_none (h : tree.hasKind .callExpr = false) : callOf? tree = none := by
  unfold callOf?
  rw [h]
  rfl

/-- The calls in a tree are those of its call expressions that call a plain identifier. -/
theorem exists_mem_calls_iff {token : Token} : (∃ call ∈ calls tree, call.callee = token) ↔
    ∃ children, .node .callExpr children ∈ tree.preorder ∧ callee? children = some token := by
  constructor
  · rintro ⟨call, hcall, rfl⟩
    obtain ⟨node, hnode, hcall⟩ := List.mem_filterMap.mp hcall
    by_cases hkind : node.hasKind .callExpr = true
    · cases node with
      | leaf found => cases hkind
      | node kind children =>
          obtain rfl : kind = .callExpr := eq_of_beq hkind
          refine ⟨children, hnode, ?_⟩
          rw [← callOf?_callExpr, hcall]
          rfl
    · rw [callOf?_eq_none (Bool.eq_false_iff.mpr hkind)] at hcall
      cases hcall
  · rintro ⟨children, hnode, hcallee⟩
    rw [← callOf?_callExpr] at hcallee
    obtain ⟨call, hcall, htoken⟩ := Option.map_eq_some_iff.mp hcallee
    exact ⟨call, List.mem_filterMap.mpr ⟨_, hnode, hcall⟩, htoken⟩

theorem mem_leaves_of_callee? {children : List Tree} {token : Token}
    (h : callee? children = some token) : token ∈ Tree.leavesAll children := by
  obtain ⟨callee, hcallee, htoken⟩ := Option.bind_eq_some_iff.mp h
  obtain ⟨-, hident⟩ := Option.ite_none_right_eq_some.mp htoken
  exact Tree.mem_leavesAll_of_mem (List.mem_of_find?_eq_some hcallee)
    (Tree.mem_leaves_of_childToken? hident)

end Calls

/-- The text spells the callee where it stands. -/
theorem Calls.spelledIn_callee {text : String} {call : Call}
    (h : call ∈ calls (parse text).tree) :
    (Mention.ofToken call.callee).SpelledIn text := by
  obtain ⟨children, hnode, hcallee⟩ := exists_mem_calls_iff.mp ⟨call, h, rfl⟩
  refine Mention.spelledIn_ofToken ?_
  rw [← leaves_parse]
  exact Tree.leaves_of_mem_preorder hnode _ (mem_leaves_of_callee? hcallee)

/-- A call of a name that the document itself records, as a variable of any scope or as a
macro, is not reported as unresolved: the name of every call that is reported is another. -/
theorem own_names_resolve (d : LintDocument) (h : (parse d.text).ok = true) {c : Contribution}
    (hc : d.matchText.2.contribution? = some c) {name : String}
    (hname : (∃ record ∈ c.declarations, record.name = name) ∨
      ∃ record ∈ c.macros, record.name = name)
    (t : SymbolTable) (mode : LintMode) (settings : LintSettings) :
    ∀ finding ∈ Calls.diagnostics t mode settings (parse d.text).tree,
      finding.code = .unresolvedFunction → ∃ callee : String, callee ≠ name ∧
        Text.slice? d.text.toList finding.span.start finding.span.stop = some callee.toList := by
  have hreading : c = d.reading := by
    have hparsed : d.matchText.2.contribution? = some d.reading :=
      LintDocument.contribution?_withParse h
    exact Option.some.inj (hc.symm.trans hparsed)
  subst hreading
  have hdeclared : name ∈ Calls.declaredNames (parse d.text).tree := by
    rw [← d.tree_view]
    exact Names.declared_of_defines hname.symm
  intro finding hfinding hcode
  obtain ⟨call, hcall, rfl, hother⟩ := Calls.mem_diagnostics_unresolved hfinding hcode
  refine ⟨call.callee.text, ?_, Calls.spelledIn_callee hcall⟩
  rintro rfl
  exact hother hdeclared

theorem macro_call_resolves :
    let d : LintDocument := { uri := "file:///run.gml", kind := .other, text := "#macro run 1\nrun();" }
    (parse d.text).ok = true ∧ ∃ c, d.matchText.2.contribution? = some c ∧
      (∃ record ∈ c.macros, record.name = "run") ∧
      ∀ finding ∈ Calls.diagnostics {} .full {} (parse d.text).tree,
        finding.code = .unresolvedFunction → ∃ callee : String, callee ≠ "run" ∧
          Text.slice? d.text.toList finding.span.start finding.span.stop = some callee.toList := by
  intro d
  have hok : (parse d.text).ok = true := by decide +kernel
  have hmacro : ∃ record ∈ d.reading.macros, record.name = "run" := by decide +kernel
  have hc : d.matchText.2.contribution? = some d.reading := LintDocument.contribution?_withParse hok
  exact ⟨hok, d.reading, hc, hmacro, own_names_resolve d hok hc (.inr hmacro) {} .full {}⟩

/-- In a full analysis that warns of unresolved calls, a call of a plain identifier that stands
for nothing elsewhere is reported if and only if the text neither declares the name nor has a
field of that name. -/
theorem unresolved_call_reported_iff (text : String) (h : (parse text).ok = true)
    (t : SymbolTable) (settings : LintSettings) (hwarn : settings.warnUnresolved = true)
    {children : List Tree} (hcall : .node .callExpr children ∈ (parse text).tree.preorder)
    {callee : Token} (hcallee : Calls.callee? children = some callee) (hlacks : t.Lacks callee.text) :
    ⟨.unresolvedFunction, .calls, callee.span, s!"unresolved function or script '{callee.text}'"⟩ ∈
        Calls.diagnostics t .full settings (parse text).tree ↔
      callee.text ∉ (parse text).tree.declarations ∧ callee.text ∉ (parse text).tree.fields := by
  rw [← not_or, ← Tree.mem_declaredNames_iff (parse_regular h) (parse_hasKind text .name nofun)]
  obtain ⟨call, hmem, rfl⟩ := Calls.exists_mem_calls_iff.mpr ⟨children, hcall, hcallee⟩
  constructor
  · intro hfinding
    obtain ⟨other, hother, heq, hdeclared⟩ := Calls.mem_diagnostics_unresolved hfinding rfl
    have hspan : call.callee.span = other.callee.span := congrArg Diagnostic.span heq
    have htext : call.callee.text = other.callee.text := by
      have hfirst : Text.slice? _ _ _ = _ := Calls.spelledIn_callee hmem
      have hsecond : Text.slice? _ _ _ = _ := Calls.spelledIn_callee hother
      simp only [Mention.ofToken] at hfirst hsecond
      rw [hspan, hsecond] at hfirst
      exact String.toList_inj.mp (Option.some.inj hfirst).symm
    rwa [htext]
  · intro hdeclared
    exact List.mem_filterMap.mpr ⟨call, hmem, Calls.check_of_lacks hlacks hdeclared hwarn⟩

theorem unknown_call_reported : ∃ children callee,
    .node .callExpr children ∈ (parse "jump();").tree.preorder ∧
      Calls.callee? children = some callee ∧ callee.text = "jump" ∧
      (⟨.unresolvedFunction, .calls, callee.span,
          s!"unresolved function or script '{callee.text}'"⟩ ∈
            Calls.diagnostics {} .full {} (parse "jump();").tree ↔
        callee.text ∉ (parse "jump();").tree.declarations ∧
          callee.text ∉ (parse "jump();").tree.fields) := by
  have hok : (parse "jump();").ok = true := by decide +kernel
  have hcalls : ∃ call ∈ Calls.calls (parse "jump();").tree, call.callee = ⟨.ident, 0, "jump"⟩ := by
    decide +kernel
  obtain ⟨children, hnode, hcallee⟩ := Calls.exists_mem_calls_iff.mp hcalls
  have hlacks : SymbolTable.Lacks {} "jump" := ⟨rfl, rfl, rfl, nofun⟩
  exact ⟨children, _, hnode, hcallee, rfl,
    unresolved_call_reported_iff _ hok {} {} rfl hnode hcallee hlacks⟩

/-- A field of the same name hides an unresolved call, though no construct of the text declares
the name. -/
theorem call_named_like_field_unreported :
    (parse "x = obj.foo;\nfoo();").ok = true ∧ SymbolTable.Lacks {} "foo" ∧
      (∃ children callee, .node .callExpr children ∈ (parse "x = obj.foo;\nfoo();").tree.preorder ∧
        Calls.callee? children = some callee ∧ callee.text = "foo") ∧
      "foo" ∉ (parse "x = obj.foo;\nfoo();").tree.declarations ∧
      Calls.diagnostics {} .full {} (parse "x = obj.foo;\nfoo();").tree = [] := by
  have hcalls : ∃ call ∈ Calls.calls (parse "x = obj.foo;\nfoo();").tree,
      call.callee = ⟨.ident, 13, "foo"⟩ := by
    decide +kernel
  obtain ⟨children, hnode, hcallee⟩ := Calls.exists_mem_calls_iff.mp hcalls
  refine ⟨by decide +kernel, ⟨rfl, rfl, rfl, nofun⟩, ⟨children, _, hnode, hcallee, rfl⟩, ?_, ?_⟩
  · decide +kernel
  · decide +kernel

end Gml
