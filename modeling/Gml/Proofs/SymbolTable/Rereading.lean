import Gml.Proofs.SymbolTable.Completions
import Gml.Proofs.SymbolTable.Visibility

/-!
# Reading a document again

A document whose text has not changed says the same when it is read again. Its macros keep
their places, but its declarations go behind those of the other documents. So all answers
stay but one: where several documents declare a variable for all, another one of them can
become the visible one.
-/
namespace Gml.SymbolTable

variable {t : SymbolTable}

/-- What is stored of a document, or nothing. -/
def contributionOf (t : SymbolTable) (uri : Uri) : Contribution := (t.contribution? uri).getD {}

/-- The table after a document was read again that still says the same. -/
def reread (t : SymbolTable) (uri : Uri) : SymbolTable :=
  (t.replaceContribution uri (t.contributionOf uri)).2

theorem Consistent.contributionOf_belongsTo (h : t.Consistent) (uri : Uri) :
    (t.contributionOf uri).BelongsTo uri :=
  h.fileOf_belongsTo uri

theorem Consistent.sameSources_reread (h : t.Consistent) (uri : Uri) :
    SameSources t (t.reread uri) := by
  obtain ⟨hscripts, hobjects, hfunctions, hvariables⟩ :=
    resources_replaceContribution t uri (t.contributionOf uri)
  refine ⟨hscripts, hobjects, fun other => ?_, fun other => ?_, hfunctions, hvariables⟩
  · rw [reread, contribution?_replaceContribution]
    split
    next heq => rw [heq, contributionOf, h.stored_contribution]
    next => rfl
  · rw [reread, hashes_replaceContribution]

theorem Consistent.owners_reread (h : t.Consistent) (hblocks : t.InBlocks) (uri : Uri)
    (name : String) : (t.reread uri).owners name = t.owners name := by
  refine (hblocks.owners_replaceContribution (h.contributionOf_belongsTo uri) name).trans ?_
  have hblock : (t.contributionOf uri).macros.filter (·.name == name) = t.macrosIn name uri := rfl
  rw [hblock]
  by_cases hnone : t.macrosIn name uri = []
  · rw [if_pos (List.isEmpty_iff.mpr hnone)]
    exact List.filter_bne_eq_self_of_not_mem fun huri =>
      ((hblocks.macros name).mem_iff uri).mp huri hnone
  · rw [if_neg (mt List.isEmpty_iff.mp hnone), if_pos (((hblocks.macros name).mem_iff uri).mpr hnone)]

/-- The declarations of the document go behind those of the others. -/
theorem InBlocks.variableSites_reread (h : t.InBlocks) (uri : Uri) (name : String) :
    (t.reread uri).variableSites name =
      (t.variableSites name).filter (·.location.uri != uri) ++
        (t.variableSites name).filter (·.location.uri == uri) := by
  have hlisted := h.listed_declarations_replaceContribution uri (t.contributionOf uri) name
  have hblock : (t.contributionOf uri).declarations.filter (·.name == name) =
      t.declarationsIn name uri := rfl
  rw [hblock, ← (h.declarations name).filter_eq uri] at hlisted
  exact hlisted

/-- Putting some members behind the others keeps the first find unless it is one of them and
one of the others would do as well. -/
theorem find?_behind_eq_iff {β : Type} (p q : β → Bool) (records : List β) :
    (records.filter (!q ·) ++ records.filter q).find? p = records.find? p ↔
      ∀ found, records.find? p = some found → q found = true →
        ∀ other ∈ records, q other = false → p other = false := by
  induction records with
  | nil => simp
  | cons first rest ih =>
      cases hp : p first with
      | false => cases hq : q first <;> simp_all [List.find?_append]
      | true =>
          rw [List.find?_cons_of_pos hp]
          cases hq : q first with
          | false => simp [hp, hq]
          | true =>
              rw [List.filter_cons_of_neg (by simp [hq]), List.filter_cons_of_pos hq,
                List.find?_append, List.find?_cons_of_pos hp]
              constructor
              -- One that stays in front and would do is found before the one that has gone back.
              · rintro hfind found - - other hother hqother
                by_contra hpother
                rw [Bool.not_eq_false] at hpother
                have hrest : other ∈ rest.filter (!q ·) := by
                  rcases List.mem_cons.mp hother with rfl | hrest
                  · simp [hq] at hqother
                  · exact List.mem_filter.mpr ⟨hrest, by simp [hqother]⟩
                obtain ⟨front, hfront⟩ := Option.isSome_iff_exists.mp
                  (List.find?_isSome.mpr ⟨other, hrest, hpother⟩)
                rw [hfront, Option.some_or] at hfind
                cases hfind
                have hqfirst := (List.mem_filter.mp (List.mem_of_find?_eq_some hfront)).2
                simp [hq] at hqfirst
              · intro hnone
                have hfront : (rest.filter (!q ·)).find? p = none := by
                  rw [List.find?_eq_none]
                  intro other hother
                  obtain ⟨hrest, hqother⟩ := List.mem_filter.mp hother
                  simp [hnone first rfl hq other (List.mem_cons_of_mem _ hrest)
                    (by simpa using hqother)]
                rw [hfront, Option.none_or]

/-! ### What a name stands for -/

/-- What a name stands for if it is more than a variable. -/
def entity? (t : SymbolTable) (name : String) : Option SymbolRecord :=
  (t.scripts.get? name).map .script
    <|> (t.objects.get? name).map .object
    <|> (t.visibleMacro? name).map .macroDef
    <|> (t.builtinFunctions.get? name).map .builtinFunction
    <|> (t.builtinVariables.get? name).map .builtinVariable

theorem lookup_eq_or (t : SymbolTable) (name : String) :
    t.lookup name = (t.entity? name).or ((t.sharedVariable? name).map .variable) := by
  simp only [lookup, entity?, Option.orElse_eq_orElse, Option.orElse_eq_or, Option.or_assoc]

theorem entity?_ne_variable (t : SymbolTable) (name : String) (site : VariableRecord) :
    t.entity? name ≠ some (.variable site) := by
  simp [entity?, Option.orElse_eq_or, Option.or_eq_some_iff]

theorem SameSources.entity?_eq {t' : SymbolTable} (h : SameSources t t') {name : String}
    (hvisible : t'.visibleMacro? name = t.visibleMacro? name) :
    t'.entity? name = t.entity? name := by
  rw [entity?, entity?, h.scripts, h.objects, h.builtinFunctions, h.builtinVariables, hvisible]

theorem lookup_eq_variable_iff (t : SymbolTable) (name : String) (site : VariableRecord) :
    t.lookup name = some (.variable site) ↔
      t.entity? name = none ∧ t.sharedVariable? name = some site := by
  simp [lookup_eq_or, Option.or_eq_some_iff, entity?_ne_variable]

/-- The name does not stand for a variable of the document that others declare for all too. -/
def Steady (t : SymbolTable) (uri : Uri) (name : String) : Prop :=
  ∀ site, t.lookup name = some (.variable site) → site.location.uri = uri →
    ∀ other ∈ t.variableSites name, other.location.uri ≠ uri → other.scope = .ofDocument

section

variable (h : t.Consistent) (hblocks : t.InBlocks) (uri : Uri) (name : String)
include h hblocks

theorem entity?_reread : (t.reread uri).entity? name = t.entity? name := by
  have hblocks' : (t.reread uri).InBlocks :=
    hblocks.replaceContribution (h.contributionOf_belongsTo uri)
  have hsame := h.sameSources_reread uri
  exact hsame.entity?_eq
    (hsame.visibleMacro?_eq_of_owners hblocks hblocks' (h.owners_reread hblocks uri name))

theorem lookup_reread_of_steady (hsteady : t.Steady uri name) :
    (t.reread uri).lookup name = t.lookup name := by
  rw [lookup_eq_or, lookup_eq_or, entity?_reread h hblocks]
  cases hentity : t.entity? name with
  | some record => rfl
  | none =>
      have hfind : (t.reread uri).sharedVariable? name = t.sharedVariable? name := by
        rw [sharedVariable?, hblocks.variableSites_reread]
        refine (find?_behind_eq_iff (β := VariableRecord) _ (·.location.uri == uri) _).mpr ?_
        intro found hfound huri other hother hforeign
        have hlookup := (lookup_eq_variable_iff t name found).mpr ⟨hentity, hfound⟩
        have hscope := hsteady found hlookup (eq_of_beq huri) other hother
          (ne_of_beq_false hforeign)
        rw [hscope]
        rfl
      rw [hfind]

/-- Of a name that is not steady, another document's variable becomes visible. -/
theorem lookup_reread_of_not_steady (hsteady : ¬ t.Steady uri name) :
    ∃ site other, t.lookup name = some (.variable site) ∧ site.location.uri = uri ∧
      (t.reread uri).lookup name = some (.variable other) ∧ other.location.uri ≠ uri := by
  simp only [Steady, not_forall] at hsteady
  obtain ⟨site, hlookup, huri, other, hother, hforeign, hscope⟩ := hsteady
  have hamong : other ∈ (t.variableSites name).filter (·.location.uri != uri) :=
    List.mem_filter.mpr ⟨hother, bne_iff_ne.mpr hforeign⟩
  obtain ⟨front, hfront⟩ := Option.isSome_iff_exists.mp
    (List.find?_isSome (p := (·.scope != .ofDocument)) |>.mpr ⟨other, hamong, bne_iff_ne.mpr hscope⟩)
  refine ⟨site, front, hlookup, huri, ?_, ?_⟩
  · rw [lookup_eq_variable_iff, entity?_reread h hblocks, sharedVariable?,
      hblocks.variableSites_reread, List.find?_append, hfront]
    exact ⟨((lookup_eq_variable_iff t name site).mp hlookup).1, rfl⟩
  · exact bne_iff_ne.mp (List.mem_filter.mp (List.mem_of_find?_eq_some hfront)).2

end

/-- When a document is read again that still says the same, a name keeps its meaning, and so
keep its hover text and what is offered for completion, unless it stands for a variable of
the document that others declare for all too. Then it stands for one of theirs. The other
answers stay in any case. -/
theorem rereading_keeps_answers (edits : List Edit) (uri : Uri) :
    let t := ofEdits edits
    SameAnswers t (t.reread uri) ∧
      (∀ name, t.Steady uri name → (t.reread uri).lookup name = t.lookup name ∧
        ∀ sentences, (t.reread uri).hoverText name sentences = t.hoverText name sentences) ∧
      (∀ name, ¬ t.Steady uri name → ∃ site other,
        t.lookup name = some (.variable site) ∧ site.location.uri = uri ∧
          (t.reread uri).lookup name = some (.variable other) ∧ other.location.uri ≠ uri) ∧
      ∀ start, (∀ name, startsWith name start = true → t.Steady uri name) →
        (t.reread uri).completions start = t.completions start := by
  intro t
  have hconsistent : t.Consistent := consistent_ofEdits edits
  have hblocks : t.InBlocks := inBlocks_ofEdits edits
  have belongs := hconsistent.contributionOf_belongsTo uri
  have hblocks' : (t.reread uri).InBlocks := hblocks.replaceContribution belongs
  have hresources' : (t.reread uri).Resourced := (resourced_ofEdits edits).replaceContribution ..
  have hsame := hconsistent.sameSources_reread uri
  refine ⟨hsame.answers hconsistent (hconsistent.replaceContribution belongs) hblocks hblocks',
    fun name hsteady => ?_, fun name => lookup_reread_of_not_steady hconsistent hblocks uri name,
    fun start hsteady => ?_⟩
  · have hlookup := lookup_reread_of_steady hconsistent hblocks uri name hsteady
    exact ⟨hlookup, fun sentences => by rw [hoverText, hoverText, hlookup]⟩
  · exact completions_eq (resourced_ofEdits edits) hresources' hblocks hblocks' fun name hname =>
      lookup_reread_of_steady hconsistent hblocks uri name (hsteady name hname)

/-- What a document says whose text is one declaration of a variable. -/
def soleVariable (uri : Uri) (name : String) (scope : Scope) : Contribution where
  declarations := [⟨name, scope, .fileStart uri⟩]

theorem soleVariable_belongsTo (uri : Uri) (name : String) (scope : Scope) :
    (soleVariable uri name scope).BelongsTo uri :=
  ⟨fun _ hsite => by rw [List.mem_singleton.mp hsite]; rfl, nofun, nofun⟩

/-- The edits after which `a` declares a variable of the game and `b` one of an instance. -/
def namesakes : List Edit :=
  [.replaceContribution "a" (soleVariable "a" "score" .ofGame) (soleVariable_belongsTo ..),
   .replaceContribution "b" (soleVariable "b" "score" .ofInstance) (soleVariable_belongsTo ..)]

theorem rereading_changes_variable :
    let t := ofEdits namesakes
    t.contribution? "a" = some (soleVariable "a" "score" .ofGame) ∧
      t.lookup "score" = some (.variable ⟨"score", .ofGame, .fileStart "a"⟩) ∧
      (t.replaceContribution "a" (soleVariable "a" "score" .ofGame)).2.lookup "score" =
        some (.variable ⟨"score", .ofInstance, .fileStart "b"⟩) := by
  decide +kernel

end Gml.SymbolTable
