import Gml.Proofs.SymbolTable.Edits

/-!
# Scripts, objects and built-ins

What a symbol table holds besides the documents: each script and each object under its
own name, and the built-ins of one manual. Contributions leave all of this alone.
-/
namespace Gml.SymbolTable

variable {t : SymbolTable}

theorem resources_detach (t : SymbolTable) (uri : Uri) :
    (t.detach uri).scripts = t.scripts ∧ (t.detach uri).objects = t.objects ∧
      (t.detach uri).builtinFunctions = t.builtinFunctions ∧
      (t.detach uri).builtinVariables = t.builtinVariables := by
  rw [detach]
  split
  · exact ⟨rfl, rfl, rfl, rfl⟩
  · exact ⟨rfl, rfl, rfl, rfl⟩

theorem resources_replaceContribution (t : SymbolTable) (uri : Uri) (c : Contribution) :
    (t.replaceContribution uri c).2.scripts = t.scripts ∧
      (t.replaceContribution uri c).2.objects = t.objects ∧
      (t.replaceContribution uri c).2.builtinFunctions = t.builtinFunctions ∧
      (t.replaceContribution uri c).2.builtinVariables = t.builtinVariables := by
  have hdetached := resources_detach t uri
  rw [replaceContribution]
  dsimp only
  split
  · exact hdetached
  · exact hdetached

structure Resourced (t : SymbolTable) : Prop where
  scripts : t.scripts.Keyed ScriptRecord.name
  objects : t.objects.Keyed ObjectRecord.name
  builtins : ∃ manual : Manual,
    t.builtinFunctions = .ofList (manual.functions.map fun f => (f.name, f)) ∧
      t.builtinVariables = .ofList (manual.vars.map fun v => (v.name, v))

namespace Resourced

theorem empty : ({} : SymbolTable).Resourced where
  scripts := .empty
  objects := .empty
  builtins := ⟨⟨[], []⟩, rfl, rfl⟩

theorem exists_seedBuiltins (h : t.Resourced) : ∃ manual, t.seedBuiltins manual = t := by
  obtain ⟨manual, hfunctions, hvariables⟩ := h.builtins
  refine ⟨manual, ?_⟩
  rw [seedBuiltins, ← hfunctions, ← hvariables]

theorem replaceContribution (h : t.Resourced) (uri : Uri) (c : Contribution) :
    (t.replaceContribution uri c).2.Resourced := by
  obtain ⟨hscripts, hobjects, hfunctions, hvariables⟩ := resources_replaceContribution t uri c
  refine ⟨?_, ?_, ?_⟩
  · rw [hscripts]
    exact h.scripts
  · rw [hobjects]
    exact h.objects
  · rw [hfunctions, hvariables]
    exact h.builtins

end Resourced

end Gml.SymbolTable
