import Gml.Proofs.SymbolTable.Resources

/-!
# Edits as replacements

Whatever an edit does besides, to the documents it only replaces contributions: to take
one away is to replace it by the empty one. A property of documents or of resources in
order holds after any edits if replacements keep it.
-/
namespace Gml.SymbolTable

/-- The documents stay as they are, and the resources in order. -/
structure SameDocuments (t t' : SymbolTable) : Prop where
  contributions : t'.contributions = t.contributions
  macros : t'.macros = t.macros
  declarations : t'.declarations = t.declarations
  users : t'.users = t.users
  resourced : t.Resourced → t'.Resourced

theorem replaceContribution_empty (t : SymbolTable) (uri : Uri) :
    (t.replaceContribution uri {}).2 = t.detach uri := rfl

namespace SameDocuments

variable {t t' : SymbolTable} {name : String} {uri : Uri}

theorem of_createScript (h : t.createScript name uri = .ok t') : SameDocuments t t' := by
  obtain ⟨-, rfl⟩ := eq_of_createScript h
  exact ⟨rfl, rfl, rfl, rfl, fun ht => { ht with scripts := ht.scripts.set rfl }⟩

theorem of_createObject (h : t.createObject name = .ok t') : SameDocuments t t' := by
  obtain ⟨-, rfl⟩ := eq_of_createObject h
  exact ⟨rfl, rfl, rfl, rfl, fun ht => { ht with objects := ht.objects.set rfl }⟩

theorem of_addEvent (h : t.addEvent name uri = .ok t') : SameDocuments t t' := by
  obtain ⟨object, hobject, rfl⟩ := exists_of_addEvent h
  refine ⟨rfl, rfl, rfl, rfl, fun ht => ?_⟩
  exact { ht with objects := ht.objects.set (ht.objects name object hobject) }

theorem of_setScriptDoc {doc : ScriptDoc} (h : t.setScriptDoc name doc = .ok t') :
    SameDocuments t t' := by
  obtain ⟨script, hscript, rfl⟩ := exists_of_setScriptDoc h
  refine ⟨rfl, rfl, rfl, rfl, fun ht => ?_⟩
  exact { ht with scripts := ht.scripts.set (ht.scripts name script hscript) }

theorem of_clearScriptDoc (t : SymbolTable) (name : String) :
    SameDocuments t (t.clearScriptDoc name) :=
  ⟨rfl, rfl, rfl, rfl, fun ht => { ht with scripts := ht.scripts.modify name fun _ => rfl }⟩

end SameDocuments

/-- A property that replacements keep and that nothing else but documents and the order of
resources matters for. -/
structure Documentary (P : SymbolTable → Prop) : Prop where
  same : ∀ {t t' : SymbolTable}, P t → SameDocuments t t' → P t'
  replaced : ∀ {t : SymbolTable} {uri : Uri} {c : Contribution},
    P t → c.BelongsTo uri → P (t.replaceContribution uri c).2

namespace Documentary

variable {P : SymbolTable → Prop} {t t' : SymbolTable} {name : String} {uri : Uri}

theorem detach (hP : Documentary P) (ht : P t) (uri : Uri) : P (t.detach uri) := by
  have hempty := hP.replaced ht (Contribution.belongsTo_empty uri)
  rwa [replaceContribution_empty] at hempty

theorem clearContribution (hP : Documentary P) (ht : P t) (uri : Uri) :
    P (t.clearContribution uri) := by
  have hdetached := hP.detach ht uri
  unfold SymbolTable.clearContribution
  dsimp only
  split
  next name _ => exact hP.same hdetached (.of_clearScriptDoc _ name)
  · exact hdetached

theorem removeDocument (hP : Documentary P) (ht : P t) (uri : Uri) : P (t.removeDocument uri) :=
  hP.same (hP.clearContribution ht uri) ⟨rfl, rfl, rfl, rfl, fun h => { h with }⟩

theorem deleteScript (hP : Documentary P) (ht : P t) :
    P (((t.deleteScript name).map Prod.snd).toOption.getD t) := by
  refine deleteScript_induction ht fun script _ => hP.removeDocument ?_ script.uri
  exact hP.same ht ⟨rfl, rfl, rfl, rfl, fun h => { h with scripts := h.scripts.erase name }⟩

theorem deleteObject (hP : Documentary P) (ht : P t) :
    P (((t.deleteObject name).map Prod.snd).toOption.getD t) := by
  refine deleteObject_induction ht ?_ fun _ _ uri _ t' ht' => hP.removeDocument ?_ uri
  · exact hP.same ht ⟨rfl, rfl, rfl, rfl, fun h => { h with objects := h.objects.erase name }⟩
  · exact hP.same ht' ⟨rfl, rfl, rfl, rfl, fun h => { h with }⟩

theorem deleteRecordAt (hP : Documentary P) (ht : P t) (uri : Uri) : P (t.deleteRecordAt uri) := by
  rw [SymbolTable.deleteRecordAt]
  split
  · exact hP.removeDocument ht uri
  next object _ =>
      refine hP.removeDocument ?_ uri
      refine hP.same ht ⟨rfl, rfl, rfl, rfl, fun h => ?_⟩
      exact { h with objects := h.objects.modify object fun _ => rfl }

theorem apply (hP : Documentary P) (ht : P t) (edit : Edit) : P (edit.apply t) := by
  cases edit with
  | seedBuiltins manual =>
      exact hP.same ht ⟨rfl, rfl, rfl, rfl, fun h => { h with builtins := ⟨manual, rfl, rfl⟩ }⟩
  | createScript name uri => exact attempt ht fun _ ht' => hP.same ht (.of_createScript ht')
  | deleteScript name => exact hP.deleteScript ht
  | createObject name => exact attempt ht fun _ ht' => hP.same ht (.of_createObject ht')
  | addEvent name uri => exact attempt ht fun _ ht' => hP.same ht (.of_addEvent ht')
  | deleteObject name => exact hP.deleteObject ht
  | deleteRecordAt uri => exact hP.deleteRecordAt ht uri
  | clearContribution uri => exact hP.clearContribution ht uri
  | replaceContribution uri c belongs => exact hP.replaced ht belongs
  | setScriptDoc name doc => exact attempt ht fun _ ht' => hP.same ht (.of_setScriptDoc ht')
  | clearScriptDoc name => exact hP.same ht (.of_clearScriptDoc t name)
  | setHash uri hash => exact hP.same ht ⟨rfl, rfl, rfl, rfl, fun h => { h with }⟩

theorem foldl_apply (hP : Documentary P) (ht : P t) (edits : List Edit) :
    P (edits.foldl Edit.apply t) := by
  induction edits generalizing t with
  | nil => exact ht
  | cons edit rest ih => exact ih (hP.apply ht edit)

end Documentary

theorem ofEdits_append (edits more : List Edit) :
    ofEdits (edits ++ more) = more.foldl Edit.apply (ofEdits edits) :=
  List.foldl_append

theorem documentary_resourced : Documentary Resourced where
  same ht hsame := hsame.resourced ht
  replaced {_ uri c} ht _ := ht.replaceContribution uri c

theorem consistent_ofEdits (edits : List Edit) : (ofEdits edits).Consistent :=
  consistent_empty.foldl_apply edits

theorem resourced_ofEdits (edits : List Edit) : (ofEdits edits).Resourced :=
  documentary_resourced.foldl_apply .empty edits

end Gml.SymbolTable
