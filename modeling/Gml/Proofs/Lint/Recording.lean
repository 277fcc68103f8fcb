import Gml.Lint.Names
import Mathlib.Data.List.Basic
import Mathlib.Data.List.Nodup

/-!
# What an occurrence records

Each occurrence of a name adds one use of the name, and one that is more than a use may add
a record before. The records of variables are the names declared so far, each once, and a
record of a variable comes with a use that declares it.
-/
namespace Gml

/-- Whether an occurrence with this role only uses its name. -/
def Role.isUse : Role → Bool
  | .read | .called => true
  | _ => false

/-- The scope and the name that a record is kept under. -/
def VariableRecord.key (record : VariableRecord) : Scope × String := (record.scope, record.name)

/-- The name of a use and where it stands. -/
def SymbolUse.site (use : SymbolUse) : String × Location := (use.name, use.location)

namespace Names

namespace State

/-- What an occurrence at a place can do, apart from the names that become the document's
own. -/
inductive Records (s : State) (o : Occurrence) (place : Location) : State → Prop
  | use (own : List String) (kind : UseKind) :
      Records s o place ({ s with own }.addUse o.name kind place)
  | declaration (own : List String) (scope : Scope) : o.role.isUse = false →
      (scope, o.name) ∉ s.declared →
      Records s o place
        (({ s with own }.addVariable o.name scope place).addUse o.name .declaration place)
  | macroDef (value : String) : o.role.isUse = false →
      Records s o place ((s.addMacro o.name value place).addUse o.name .declaration place)

variable {s : State} {o : Occurrence}

theorem records_declare (own : List String) (scope : Scope) (h : o.role.isUse = false)
    (place : Location) : Records s o place ({ s with own }.declare o.name scope place) := by
  rw [declare]
  split
  · exact .use own .write
  next hfresh => exact .declaration own scope h (by simpa using hfresh)

theorem records_add (s : State) (o : Occurrence) (inEvent : Bool) (location : Span → Location) :
    Records s o (location o.span) (s.add inEvent location o) := by
  unfold add
  cases hrole : o.role with
  | ownVariable => exact records_declare _ _ (by rw [hrole]; rfl) _
  | globalVariable => exact records_declare _ _ (by rw [hrole]; rfl) _
  | functionName => exact records_declare _ _ (by rw [hrole]; rfl) _
  | macroName value => exact .macroDef value (by rw [hrole]; rfl)
  | assigned plain =>
      dsimp only
      split
      · exact records_declare _ _ (by rw [hrole]; rfl) _
      · exact .use s.own .write
  | assignedGlobal plain =>
      dsimp only
      split
      · exact records_declare _ _ (by rw [hrole]; rfl) _
      · exact .use s.own .write
  | assignedSelf plain =>
      dsimp only
      split
      · exact records_declare _ _ (by rw [hrole]; rfl) _
      · exact .use s.own .write
  | read => exact .use s.own .read
  | called => exact .use s.own .call

variable {inEvent : Bool} {location : Span → Location} {s' : State} {place : Location}

theorem Records.sites (h : Records s o place s') :
    s'.contribution.uses.map SymbolUse.site =
      s.contribution.uses.map SymbolUse.site ++ [(o.name, place)] := by
  cases h with
  | use | declaration | macroDef => exact List.map_append

/-- Every occurrence leaves one use at its place. -/
theorem sites_foldl_add (occurrences : List Occurrence) (s : State) :
    (occurrences.foldl (add inEvent location) s).contribution.uses.map SymbolUse.site =
      s.contribution.uses.map SymbolUse.site ++
        occurrences.map fun o => (o.name, location o.span) := by
  induction occurrences generalizing s with
  | nil => rw [List.foldl_nil, List.map_nil, List.append_nil]
  | cons o rest ih =>
      rw [List.foldl_cons, ih, (records_add s o inEvent location).sites, List.append_assoc]
      rfl

/-! ### Records of variables -/

/-- Each name that was declared in a scope has one record, which lies where a use declares
the name. -/
structure Consistent (s : State) : Prop where
  declared : s.declared = (s.contribution.declarations.map VariableRecord.key).reverse
  nodup : (s.contribution.declarations.map VariableRecord.key).Nodup
  used : ∀ record ∈ s.contribution.declarations,
    ⟨record.name, .declaration, record.location⟩ ∈ s.contribution.uses

theorem consistent_empty : Consistent {} := ⟨rfl, List.nodup_nil, nofun⟩

theorem Consistent.records (h : s.Consistent) (hrecords : Records s o place s') : s'.Consistent := by
  cases hrecords with
  | use own kind =>
      exact { h with used := fun record hrecord => List.mem_append_left _ (h.used record hrecord) }
  | declaration own scope hrole hfresh =>
      refine ⟨?_, ?_, ?_⟩
      · simp only [addUse, addVariable, h.declared, List.map_append, List.map_cons, List.map_nil,
          List.reverse_append, List.reverse_singleton, List.singleton_append, VariableRecord.key]
      · rw [h.declared, List.mem_reverse] at hfresh
        simp only [addUse, addVariable, List.map_append, List.map_cons, List.map_nil]
        exact List.nodup_append.mpr ⟨h.nodup, List.nodup_singleton _, fun key hkey other hother heq =>
          hfresh (by rwa [heq, List.mem_singleton.mp hother] at hkey)⟩
      · intro record hrecord
        rcases List.mem_append.mp hrecord with hold | hnew
        · exact List.mem_append_left _ (h.used record hold)
        · cases List.mem_singleton.mp hnew
          exact List.mem_append_right _ List.mem_cons_self
  | macroDef value hrole =>
      exact { h with used := fun record hrecord => List.mem_append_left _ (h.used record hrecord) }

theorem consistent_foldl_add (h : s.Consistent) (occurrences : List Occurrence) :
    (occurrences.foldl (add inEvent location) s).Consistent := by
  induction occurrences generalizing s with
  | nil => exact h
  | cons o rest ih => exact ih (h.records (records_add s o inEvent location))

/-! ### Records of macros -/

/-- Where a macro is recorded, a use declares it. -/
def MacrosUsed (s : State) : Prop :=
  ∀ record ∈ s.contribution.macros,
    ⟨record.name, .declaration, record.location⟩ ∈ s.contribution.uses

theorem macrosUsed_empty : MacrosUsed {} := fun _ hrecord => (List.not_mem_nil hrecord).elim

theorem MacrosUsed.records (h : s.MacrosUsed) (hrecords : Records s o place s') :
    s'.MacrosUsed := by
  cases hrecords with
  | use | declaration => exact fun record hrecord => List.mem_append_left _ (h record hrecord)
  | macroDef value hrole =>
      intro record hrecord
      rcases List.mem_append.mp hrecord with hold | hnew
      · exact List.mem_append_left _ (h record hold)
      · cases List.mem_singleton.mp hnew
        exact List.mem_append_right _ List.mem_cons_self

theorem macrosUsed_foldl_add (h : s.MacrosUsed) (occurrences : List Occurrence) :
    (occurrences.foldl (add inEvent location) s).MacrosUsed := by
  induction occurrences generalizing s with
  | nil => exact h
  | cons o rest ih => exact ih (h.records (records_add s o inEvent location))

end State

/-- The uses of a document are the occurrences of names in its tree. -/
theorem contribution_sites (view : DocumentView) :
    (contribution view).uses.map SymbolUse.site =
      (view.tree.occurrences false false).map fun o => (o.name, view.location o.span) :=
  State.sites_foldl_add _ {}

theorem contribution_nodup (view : DocumentView) :
    ((contribution view).declarations.map VariableRecord.key).Nodup :=
  (State.consistent_foldl_add State.consistent_empty _).nodup

/-- A record of a variable comes with a use that declares it. -/
theorem contribution_used (view : DocumentView) : ∀ record ∈ (contribution view).declarations,
    ⟨record.name, .declaration, record.location⟩ ∈ (contribution view).uses :=
  (State.consistent_foldl_add State.consistent_empty _).used

theorem contribution_macros_used (view : DocumentView) : ∀ record ∈ (contribution view).macros,
    ⟨record.name, .declaration, record.location⟩ ∈ (contribution view).uses :=
  State.macrosUsed_foldl_add State.macrosUsed_empty _

end Names

/-! ### Names that are defined -/

/-- Whether a contribution has a record of a name, as a variable of any scope or as a macro. -/
def Contribution.Defines (c : Contribution) (name : String) : Prop :=
  (∃ record ∈ c.macros, record.name = name) ∨ ∃ record ∈ c.declarations, record.name = name

namespace Names.State

variable {s s' : State} {o : Occurrence} {place : Location} {name : String} {inEvent : Bool}
  {location : Span → Location}

theorem Records.defines (h : Records s o place s') (hname : s'.contribution.Defines name) :
    s.contribution.Defines name ∨ o.role.isUse = false ∧ o.name = name := by
  cases h with
  | use own kind => exact .inl hname
  | declaration own scope hrole hfresh =>
      rcases hname with hmacro | ⟨record, hrecord, hname⟩
      · exact .inl (.inl hmacro)
      · rcases List.mem_append.mp hrecord with hold | hnew
        · exact .inl (.inr ⟨record, hold, hname⟩)
        · cases List.mem_singleton.mp hnew
          exact .inr ⟨hrole, hname⟩
  | macroDef value hrole =>
      rcases hname with ⟨record, hrecord, hname⟩ | hdeclared
      · rcases List.mem_append.mp hrecord with hold | hnew
        · exact .inl (.inl ⟨record, hold, hname⟩)
        · cases List.mem_singleton.mp hnew
          exact .inr ⟨hrole, hname⟩
      · exact .inl (.inr hdeclared)

/-- A record of a name comes from an occurrence that is more than a use. -/
theorem defines_foldl_add {occurrences : List Occurrence}
    (h : (occurrences.foldl (add inEvent location) s).contribution.Defines name) :
    s.contribution.Defines name ∨
      ∃ o ∈ occurrences, o.role.isUse = false ∧ o.name = name := by
  induction occurrences generalizing s with
  | nil => exact .inl h
  | cons o rest ih =>
      rcases ih h with hfirst | ⟨other, hother, hdefines⟩
      · exact ((records_add s o inEvent location).defines hfirst).imp_right
          fun hdefines => ⟨o, List.mem_cons_self, hdefines⟩
      · exact .inr ⟨other, List.mem_cons_of_mem _ hother, hdefines⟩

end Names.State

end Gml
