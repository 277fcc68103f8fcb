import Gml.Proofs.SymbolTable.Ownership
import Gml.Proofs.SymbolTable.References

/-!
# What answers depend on

The order in which documents came is not part of what they say. Tables with the same
resources, contributions and hashes give the same answers, except that the visible one
of several definers of a macro is the one that came first.
-/
namespace Gml.SymbolTable

variable {t t' : SymbolTable}

/-- Two tables have the same resources, documents and built-ins. -/
structure SameSources (t t' : SymbolTable) : Prop where
  scripts : t'.scripts = t.scripts
  objects : t'.objects = t.objects
  contributions : ∀ uri, t'.contribution? uri = t.contribution? uri
  hashes : ∀ uri, t'.hashes.get? uri = t.hashes.get? uri
  builtinFunctions : t'.builtinFunctions = t.builtinFunctions
  builtinVariables : t'.builtinVariables = t.builtinVariables

/-- Whether a document defines a macro. -/
def Defines (t : SymbolTable) (name : String) (uri : Uri) : Prop :=
  ∃ c, t.contribution? uri = some c ∧ ∃ record ∈ c.macros, record.name = name

structure SameAnswers (t t' : SymbolTable) : Prop where
  exists? : ∀ name, t'.exists? name = t.exists? name
  references : ∀ name, t'.references name = t.references name
  localDefinitions : ∀ uri name, t'.localDefinitions uri name = t.localDefinitions uri name
  signature? : ∀ name, t'.signature? name = t.signature? name
  objects : ∀ name, t'.objects.get? name = t.objects.get? name
  hashes : ∀ uri, t'.hashes.get? uri = t.hashes.get? uri
  definitions : ∀ name, (∀ uri other, t.Defines name uri → t.Defines name other → uri = other) →
    t'.definitions name = t.definitions name

section

variable {β : Type} {table table' : Table (List β)} {scan scan' : String → List β}

theorem Groups.listed_perm (h : Groups table scan) (h' : Groups table' scan')
    (hscan : ∀ name, (scan' name).Perm (scan name)) (name : String) :
    (listed table' name).Perm (listed table name) :=
  ((h'.perm name).trans (hscan name)).trans (h.perm name).symm

theorem Groups.contains_eq (h : Groups table scan) (name : String) :
    table.contains name = !(listed table name).isEmpty := by
  have hne := h.ne_nil name
  rw [Table.contains, listed]
  cases hget : table.get? name with
  | none => rfl
  | some records =>
      cases records with
      | nil => exact absurd hget hne
      | cons record rest => rfl

end

namespace SameSources

theorem declarations_perm (h : SameSources t t') (ht : t.Consistent) (ht' : t'.Consistent)
    (name : String) : (t'.variableSites name).Perm (t.variableSites name) :=
  ht.declarations.listed_perm ht'.declarations
    (fun _ => Table.collect_perm h.contributions _) name

theorem exists?_eq (h : SameSources t t') (ht : t.Consistent) (ht' : t'.Consistent)
    (name : String) : t'.exists? name = t.exists? name := by
  have hmacros : (listed t'.macros name).Perm (listed t.macros name) :=
    ht.macros.listed_perm ht'.macros (fun _ => Table.collect_perm h.contributions _) name
  have hshared := (h.declarations_perm ht ht' name).any_eq (f := (·.scope == .ofGame))
  rw [exists?, exists?, h.scripts, h.objects, h.builtinFunctions, h.builtinVariables, hshared,
    ht.macros.contains_eq, ht'.macros.contains_eq, hmacros.isEmpty_eq]

theorem references_eq (h : SameSources t t') (ht : t.Consistent) (ht' : t'.Consistent)
    (name : String) : t'.references name = t.references name := by
  have huses : (t'.scanUses name).Perm (t.scanUses name) :=
    Table.collect_perm h.contributions _
  refine eq_of_perm_of_sorted (pairwise_references t' name) (pairwise_references t name) ?_
  calc
    (t'.references name).Perm _ := ht'.references_perm name
    List.Perm _ _ := huses.map _
    List.Perm _ _ := (ht.references_perm name).symm

theorem macrosIn_eq (h : SameSources t t') : t'.macrosIn = t.macrosIn := by
  funext name uri
  rw [macrosIn, macrosIn, h.contributions]

theorem declarationsIn_eq (h : SameSources t t') : t'.declarationsIn = t.declarationsIn := by
  funext name uri
  rw [declarationsIn, declarationsIn, h.contributions]

theorem localDefinitions_eq (h : SameSources t t') (ht : t.InBlocks) (ht' : t'.InBlocks)
    (uri : Uri) (name : String) : t'.localDefinitions uri name = t.localDefinitions uri name := by
  have hblock : ∀ {t : SymbolTable}, t.InBlocks → t.localDefinitions uri name =
      ((t.declarationsIn name uri).filter (·.scope == .ofDocument)).map (·.location) := by
    intro t ht
    rw [localDefinitions, ← (ht.declarations name).filter_eq uri, List.filter_filter]
    rfl
  rw [hblock ht, hblock ht', h.declarationsIn_eq]

theorem signature?_eq (h : SameSources t t') (name : String) :
    t'.signature? name = t.signature? name := by
  rw [signature?, signature?, h.scripts, h.builtinFunctions]

/-- The owners of a macro are the same documents, if maybe in another order. -/
theorem owners_perm (h : SameSources t t') (ht : t.InBlocks) (ht' : t'.InBlocks)
    (name : String) : (t'.owners name).Perm (t.owners name) := by
  rw [List.perm_ext_iff_of_nodup (ht'.macros name).nodup (ht.macros name).nodup]
  intro uri
  rw [(ht'.macros name).mem_iff, (ht.macros name).mem_iff, h.macrosIn_eq]

theorem visibleMacro?_eq_of_owners (h : SameSources t t') (ht : t.InBlocks) (ht' : t'.InBlocks)
    {name : String} (howners : t'.owners name = t.owners name) :
    t'.visibleMacro? name = t.visibleMacro? name := by
  rw [ht'.visibleMacro?_eq, ht.visibleMacro?_eq, howners, h.macrosIn_eq]

theorem lookup_eq (h : SameSources t t') {name : String}
    (hvisible : t'.visibleMacro? name = t.visibleMacro? name)
    (hvariable : t'.sharedVariable? name = t.sharedVariable? name) :
    t'.lookup name = t.lookup name := by
  rw [lookup, lookup, h.scripts, h.objects, h.builtinFunctions, h.builtinVariables, hvisible,
    hvariable]

theorem definitions_eq (h : SameSources t t') (hconsistent : t.Consistent)
    (hconsistent' : t'.Consistent) (ht : t.InBlocks) (ht' : t'.InBlocks) {name : String}
    (hsole : ∀ uri other, t.Defines name uri → t.Defines name other → uri = other) :
    t'.definitions name = t.definitions name := by
  have hdefines : ∀ uri ∈ t.owners name, t.Defines name uri := fun uri huri =>
    (macrosIn_ne_nil_iff t name uri).mp (((ht.macros name).mem_iff uri).mp huri)
  have hperm := h.owners_perm ht ht' name
  have hall : ∀ uris : List Uri, uris.Pairwise fun _ _ => True := fun _ =>
    List.pairwise_of_forall fun _ _ => trivial
  have howners : t'.owners name = t.owners name := by
    refine hperm.eq_of_pairwise ?_ (hall _) (hall _)
    intro uri other huri hother _ _
    exact hsole uri other (hdefines uri (hperm.mem_iff.mp huri)) (hdefines other hother)
  have hsites := ((h.declarations_perm hconsistent hconsistent' name).filter
    (·.scope != .ofDocument)).map (·.location)
  rw [definitions, definitions, h.scripts, h.objects, h.visibleMacro?_eq_of_owners ht ht' howners,
    sortLocations_eq_of_perm hsites]

theorem answers (h : SameSources t t') (hconsistent : t.Consistent) (hconsistent' : t'.Consistent)
    (ht : t.InBlocks) (ht' : t'.InBlocks) : SameAnswers t t' where
  exists? := h.exists?_eq hconsistent hconsistent'
  references := h.references_eq hconsistent hconsistent'
  localDefinitions := h.localDefinitions_eq ht ht'
  signature? := h.signature?_eq
  objects name := by rw [h.objects]
  hashes := h.hashes
  definitions _ := h.definitions_eq hconsistent hconsistent' ht ht'

end SameSources

end Gml.SymbolTable
