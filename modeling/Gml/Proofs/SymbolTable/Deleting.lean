import Gml.Proofs.SymbolTable.Linking
import Gml.Proofs.SymbolTable.Scripts

/-!
# Deleting resources and documents

Every deletion forgets some documents and takes nothing from the others. A table is cut down to a
project in three rounds of deletions: the first leaves the scripts that are at some addresses, the
second the objects of some names, and the third the events and documents at the addresses.
-/
namespace Gml

namespace SymbolTable

variable {t t' t'' : SymbolTable} {uri other : Uri} {name : String} {gone : Uri → Prop}

/-! ### What deletions leave -/

/-- A table without some documents. There are no new links, and scripts lose at most their
documentation. What is known of the other documents, and of scripts with such documents only, is
as before. -/
structure Loses (gone : Uri → Prop) (t t' : SymbolTable) : Prop where
  agrees : ∀ uri, ¬gone uri → t.Agrees t' uri
  link : ∀ uri, ¬gone uri → t'.scriptAt.get? uri = t.scriptAt.get? uri
  leads : ∀ uri name, t'.scriptAt.get? uri = some name → t.scriptAt.get? uri = some name
  events : ∀ name uri, uri ∈ t'.eventLinks.documents name → uri ∈ t.eventLinks.documents name
  scripts : ∀ name left, t'.scripts.get? name = some left → ∃ script,
    t.scripts.get? name = some script ∧ (left = script ∨ left = DocUpdate.clear.applyTo script)
  script : ∀ name, (∀ uri, uri ∈ t.scriptLinks.documents name ∨ t.scriptAt.get? uri = some name →
    ¬gone uri) → t'.scripts.get? name = t.scripts.get? name

namespace Loses

theorem refl (gone : Uri → Prop) (t : SymbolTable) : Loses gone t t :=
  ⟨fun _ _ => ⟨rfl, rfl⟩, fun _ _ => rfl, fun _ _ => id, fun _ _ => id,
    fun _ script hscript => ⟨script, hscript, .inl rfl⟩, fun _ _ => rfl⟩

theorem documents (h : Loses gone t t') (huri : uri ∈ t'.scriptLinks.documents name) :
    uri ∈ t.scriptLinks.documents name := by
  obtain ⟨left, hleft, rfl⟩ := mem_scriptLinks.mp huri
  obtain ⟨script, hscript, rfl | rfl⟩ := h.scripts name left hleft
  · exact mem_scriptLinks.mpr ⟨left, hscript, rfl⟩
  · exact mem_scriptLinks.mpr ⟨script, hscript, rfl⟩

theorem trans (h : Loses gone t t') (h' : Loses gone t' t'') : Loses gone t t'' where
  agrees uri huri :=
    ⟨(h'.agrees uri huri).1.trans (h.agrees uri huri).1,
      (h'.agrees uri huri).2.trans (h.agrees uri huri).2⟩
  link uri huri := (h'.link uri huri).trans (h.link uri huri)
  leads uri name hname := h.leads uri name (h'.leads uri name hname)
  events name uri huri := h.events name uri (h'.events name uri huri)
  scripts name left hleft := by
    obtain ⟨between, hbetween, hlate⟩ := h'.scripts name left hleft
    obtain ⟨script, hscript, hearly⟩ := h.scripts name between hbetween
    refine ⟨script, hscript, ?_⟩
    rcases hlate with rfl | rfl
    · exact hearly
    · refine .inr ?_
      rcases hearly with rfl | rfl
      · rfl
      · rw [← DocUpdate.applyTo_andThen, DocUpdate.andThen_self]
  script name hkept := by
    refine (h'.script name fun uri huri => hkept uri ?_).trans (h.script name hkept)
    exact huri.imp h.documents (h.leads uri name)

theorem foldl {α : Type} {step : SymbolTable → α → SymbolTable} {items : List α}
    (h : ∀ item ∈ items, ∀ t', Loses gone t t' → Loses gone t' (step t' item)) :
    Loses gone t (items.foldl step t) :=
  List.foldlRecOn items step (refl gone t) fun t' ht' item hitem =>
    ht'.trans (h item hitem t' ht')

/-- Links may go from the documents that are forgotten. -/
theorem of_links (hcontributions : t'.contributions = t.contributions)
    (hhashes : t'.hashes = t.hashes)
    (hlink : ∀ uri, ¬gone uri → t'.scriptAt.get? uri = t.scriptAt.get? uri)
    (hleads : ∀ uri name, t'.scriptAt.get? uri = some name → t.scriptAt.get? uri = some name)
    (hscripts : ∀ name, t'.scripts.get? name = t.scripts.get? name ∨
      t'.scripts.get? name = none ∧ ∃ uri ∈ t.scriptLinks.documents name, gone uri)
    (hevents : ∀ name uri, uri ∈ t'.eventLinks.documents name → uri ∈ t.eventLinks.documents name) :
    Loses gone t t' where
  agrees uri _ := ⟨congrArg (·.get? uri) hcontributions, congrArg (·.get? uri) hhashes⟩
  link := hlink
  leads := hleads
  events := hevents
  scripts name left hleft := by
    rcases hscripts name with hsame | ⟨hnone, -⟩
    · exact ⟨left, hsame ▸ hleft, .inl rfl⟩
    · cases hnone.symm.trans hleft
  script name hkept := by
    rcases hscripts name with hsame | ⟨-, uri, huri, hgone⟩
    · exact hsame
    · exact absurd hgone (hkept uri (.inl huri))

/-! ### Single deletions -/

theorem scripts_removeDocument (t : SymbolTable) (uri : Uri) (name : String) :
    (t.removeDocument uri).scripts.get? name =
      if t.scriptAt.get? uri = some name then
        (t.scripts.get? name).map DocUpdate.clear.applyTo
      else t.scripts.get? name := by
  rw [SymbolTable.removeDocument, clearContribution, scriptAt_detach]
  cases hlink : t.scriptAt.get? uri with
  | none =>
      dsimp only
      rw [if_neg (Option.some_ne_none name).symm, (resources_detach t uri).1]
  | some other =>
      dsimp only [clearScriptDoc]
      rw [Table.get?_modify, (resources_detach t uri).1]
      by_cases heq : name = other
      · rw [if_pos heq, if_pos (congrArg some heq.symm), heq]
        rfl
      · rw [if_neg heq, if_neg fun hsome => heq (Option.some.inj hsome).symm]

theorem removeDocument (h : gone uri) (t : SymbolTable) :
    Loses gone t (t.removeDocument uri) where
  agrees other hother := agrees_removeDocument t fun heq => hother (heq ▸ h)
  link other _ := congrArg (·.owner? other) (scriptLinks_removeDocument t uri)
  leads other name hname := by
    rw [← hname]
    exact (congrArg (·.owner? other) (scriptLinks_removeDocument t uri)).symm
  events name other hother := by rwa [eventLinks_removeDocument] at hother
  scripts name left hleft := by
    rw [scripts_removeDocument] at hleft
    split at hleft
    · obtain ⟨script, hscript, rfl⟩ := Option.map_eq_some_iff.mp hleft
      exact ⟨script, hscript, .inr rfl⟩
    · exact ⟨left, hleft, .inl rfl⟩
  script name hkept := by
    rw [scripts_removeDocument, if_neg]
    exact fun hlink => hkept uri (.inr hlink) h

theorem deleteScript (h : ∀ uri ∈ t.scriptLinks.documents name, gone uri) :
    Loses gone t (((t.deleteScript name).map Prod.snd).toOption.getD t) := by
  refine deleteScript_induction (refl gone t) fun script hscript => ?_
  have hmem : script.uri ∈ t.scriptLinks.documents name :=
    mem_scriptLinks.mpr ⟨script, hscript, rfl⟩
  have hlinks : Loses gone t { t with
      scripts := t.scripts.erase name
      scriptAt := t.scriptAt.erase script.uri } := by
    refine of_links rfl rfl ?_ ?_ ?_ fun _ _ => id
    · intro uri huri
      rw [Table.get?_erase, if_neg]
      rintro rfl
      exact huri (h _ hmem)
    · intro uri linked hlink
      exact Table.get?_of_get?_erase hlink
    · intro other
      rw [Table.get?_erase]
      split
      next heq => exact .inr ⟨rfl, script.uri, heq ▸ hmem, h _ hmem⟩
      next => exact .inl rfl
  exact hlinks.trans (removeDocument (h _ hmem) _)

theorem deleteObject (h : ∀ uri ∈ t.eventLinks.documents name, gone uri) :
    Loses gone t (((t.deleteObject name).map Prod.snd).toOption.getD t) := by
  refine deleteObject_induction (refl gone t) ?_ fun object hobject uri huri t' ht' => ?_
  · refine of_links rfl rfl (fun _ _ => rfl) (fun _ _ => id) (fun _ => .inl rfl) ?_
    intro other uri huri
    obtain ⟨found, hfound, hevent⟩ := mem_eventLinks.mp huri
    exact mem_eventLinks.mpr ⟨found, Table.get?_of_get?_erase hfound, hevent⟩
  · have hlink : Loses gone t' { t' with objectAt := t'.objectAt.erase uri } :=
      of_links rfl rfl (fun _ _ => rfl) (fun _ _ => id) (fun _ => .inl rfl) fun _ _ => id
    have hgone : gone uri := h uri (mem_eventLinks.mpr ⟨object, hobject, huri⟩)
    exact ht'.trans (hlink.trans (removeDocument hgone _))

theorem deleteRecordAt (h : gone uri) (t : SymbolTable) :
    Loses gone t (t.deleteRecordAt uri) := by
  rw [SymbolTable.deleteRecordAt]
  cases hobject : t.objectAt.get? uri with
  | none => exact removeDocument h t
  | some object =>
      have hlinks : Loses gone t { t with
          objectAt := t.objectAt.erase uri
          objects := t.objects.modify object fun o =>
            { o with eventUris := o.eventUris.filter (· != uri) } } := by
        refine of_links rfl rfl (fun _ _ => rfl) (fun _ _ => id) (fun _ => .inl rfl) ?_
        intro other event hevent
        obtain ⟨found, hfound, hmem⟩ := mem_eventLinks.mp hevent
        dsimp only at hfound
        rw [Table.get?_modify] at hfound
        split at hfound
        next heq =>
            obtain ⟨before, hbefore, rfl⟩ := Option.map_eq_some_iff.mp hfound
            exact mem_eventLinks.mpr ⟨before, heq ▸ hbefore, (List.mem_filter.mp hmem).1⟩
        next => exact mem_eventLinks.mpr ⟨found, hfound, hmem⟩
      exact hlinks.trans (removeDocument h _)

end Loses

/-! ### Rounds of deletions -/

section

variable {uris : List Uri} {objects : List String}

theorem objects_removeDocument (t : SymbolTable) (uri : Uri) :
    (t.removeDocument uri).objects = t.objects := by
  rw [removeDocument, clearContribution]
  dsimp only
  split
  · exact (resources_detach t uri).2.1
  · exact (resources_detach t uri).2.1

theorem objects_deleteScript (t : SymbolTable) (name : String) :
    (((t.deleteScript name).map Prod.snd).toOption.getD t).objects = t.objects := by
  rw [deleteScript]
  split
  · rfl
  · exact objects_removeDocument _ _

theorem objects_deleteObject (t : SymbolTable) (name other : String) :
    (((t.deleteObject name).map Prod.snd).toOption.getD t).objects.get? other =
      if other = name then none else t.objects.get? other := by
  rw [deleteObject]
  cases hobject : t.objects.get? name with
  | none =>
      dsimp only [Except.map, Except.toOption, Option.getD_none]
      split
      next heq => rw [heq, hobject]
      next => rfl
  | some object =>
      dsimp only [Except.map, Except.toOption, Option.getD_some]
      rw [← Table.get?_erase]
      refine List.foldlRecOn object.eventUris _ (motive := fun (t' : SymbolTable) =>
        t'.objects.get? other = (t.objects.erase name).get? other) rfl fun t' ht' uri _ => ?_
      rw [objects_removeDocument]
      exact ht'

theorem mem_foldl_deleteScript (scripts : List ScriptRecord) (t : SymbolTable) :
    uri ∈ (scripts.foldl (fun t script =>
      ((t.deleteScript script.name).map Prod.snd).toOption.getD t) t).scriptLinks.documents name ↔
    uri ∈ t.scriptLinks.documents name ∧ ∀ script ∈ scripts, script.name ≠ name := by
  induction scripts generalizing t with
  | nil => simp
  | cons script scripts ih =>
      rw [List.foldl_cons, ih, scriptLinks_deleteScript, Links.mem_drop, List.forall_mem_cons,
        and_assoc, and_left_comm, ne_comm]

/-- The round of the scripts leaves those that have one of the documents. -/
theorem mem_pruneScripts (h : t.scripts.Keyed ScriptRecord.name) :
    uri ∈ (t.pruneScripts uris).scriptLinks.documents name ↔
      uri ∈ t.scriptLinks.documents name ∧ uri ∈ uris := by
  rw [pruneScripts, mem_foldl_deleteScript]
  refine and_congr_right fun hmem => ?_
  obtain ⟨script, hscript, rfl⟩ := mem_scriptLinks.mp hmem
  have hname := h name script hscript
  constructor
  · intro hkept
    by_contra huri
    refine hkept script (List.mem_filter.mpr ⟨?_, by simpa using huri⟩) hname
    rwa [h.mem_values_iff, hname]
  · rintro huri other hother rfl
    obtain ⟨hvalue, hstale⟩ := List.mem_filter.mp hother
    rw [h.mem_values_iff, hscript, Option.some.injEq] at hvalue
    rw [← hvalue] at hstale
    simp [huri] at hstale

theorem objects_foldl_deleteObject (names : List String) (t : SymbolTable) :
    (names.foldl (fun t name => ((t.deleteObject name).map Prod.snd).toOption.getD t)
      t).objects.get? name = if name ∈ names then none else t.objects.get? name := by
  induction names generalizing t with
  | nil => simp
  | cons first names ih =>
      rw [List.foldl_cons, ih, objects_deleteObject]
      by_cases hfirst : name = first
      · simp [hfirst]
      · simp [hfirst]

/-- The round of the objects leaves those that are listed, as they are. -/
theorem objects_pruneObjects (t : SymbolTable) (objects : List String) (name : String) :
    (t.pruneObjects objects).objects.get? name =
      if name ∈ objects then t.objects.get? name else none := by
  rw [pruneObjects, objects_foldl_deleteObject]
  by_cases hlisted : name ∈ objects
  · simp [hlisted]
  · cases hobject : t.objects.get? name with
    | none => simp
    | some object =>
        have hkey : name ∈ t.objects.keys := by
          rw [Table.mem_keys_iff, hobject]
          exact Option.some_ne_none object
        simp [hlisted, hkey]

theorem mem_foldl_deleteRecordAt (h : t.eventLinks.Complete) (events : List Uri) :
    uri ∈ (events.foldl deleteRecordAt t).eventLinks.documents name ↔
      uri ∈ t.eventLinks.documents name ∧ uri ∉ events := by
  induction events generalizing t with
  | nil => simp
  | cons event events ih =>
      have hunlink : (t.deleteRecordAt event).eventLinks.Complete := by
        rw [eventLinks_deleteRecordAt]
        exact h.unlink event
      rw [List.foldl_cons, ih hunlink, eventLinks_deleteRecordAt, h.mem_unlink_iff,
        List.mem_cons, not_or, and_assoc]

/-- The round of the documents leaves the events that are among them, as long as each event
belongs to one object. -/
theorem mem_pruneDocuments (h : t.eventLinks.Complete) :
    uri ∈ (t.pruneDocuments uris).eventLinks.documents name ↔
      uri ∈ t.eventLinks.documents name ∧ uri ∈ uris := by
  rw [pruneDocuments, mem_foldl_deleteRecordAt h]
  refine and_congr_right fun hmem => ?_
  obtain ⟨object, hobject, hevent⟩ := mem_eventLinks.mp hmem
  have hknown : uri ∈ t.objects.values.flatMap (·.eventUris) ++ t.knownDocuments := by
    refine List.mem_append_left _ (List.mem_flatMap.mpr ⟨object, ?_, hevent⟩)
    exact List.mem_map.mpr ⟨_, (Table.get?_eq_some_iff _ _ _).mp hobject, rfl⟩
  rw [List.mem_filter, and_iff_right hknown]
  simp

/-- What every step leaves alone is as before at the end. -/
theorem foldl_unchanged {α β : Type} {step : SymbolTable → α → SymbolTable} (f : SymbolTable → β)
    (h : ∀ t item, f (step t item) = f t) (items : List α) (t : SymbolTable) :
    f (items.foldl step t) = f t := by
  induction items generalizing t with
  | nil => rfl
  | cons item items ih => rw [List.foldl_cons, ih, h]

theorem scriptLinks_pruneObjects (t : SymbolTable) (objects : List String) :
    (t.pruneObjects objects).scriptLinks = t.scriptLinks := by
  rw [pruneObjects]
  exact foldl_unchanged scriptLinks (fun t name => scriptLinks_apply t (.deleteObject name)) _ t

theorem scriptLinks_pruneDocuments (t : SymbolTable) (uris : List Uri) :
    (t.pruneDocuments uris).scriptLinks = t.scriptLinks := by
  rw [pruneDocuments]
  exact foldl_unchanged scriptLinks (fun t uri => scriptLinks_apply t (.deleteRecordAt uri)) _ t

theorem objects_pruneScripts (t : SymbolTable) (uris : List Uri) :
    (t.pruneScripts uris).objects = t.objects := by
  rw [pruneScripts]
  exact foldl_unchanged SymbolTable.objects (fun t (script : ScriptRecord) =>
    objects_deleteScript t script.name) _ t

theorem eventLinks_pruneScripts (t : SymbolTable) (uris : List Uri) :
    (t.pruneScripts uris).eventLinks = t.eventLinks := by
  rw [pruneScripts]
  exact foldl_unchanged eventLinks (fun t (script : ScriptRecord) =>
    eventLinks_deleteScript t script.name) _ t

theorem complete_pruneObjects (h : t.eventLinks.Complete) (objects : List String) :
    (t.pruneObjects objects).eventLinks.Complete := by
  rw [pruneObjects]
  refine List.foldlRecOn _ _ (motive := fun (t' : SymbolTable) => t'.eventLinks.Complete) h
    fun t' ht' name _ => ?_
  rw [eventLinks_deleteObject]
  exact ht'.drop name

theorem contains_deleteRecordAt (t : SymbolTable) (uri : Uri) (name : String) :
    (t.deleteRecordAt uri).objects.contains name = t.objects.contains name := by
  rw [deleteRecordAt]
  split
  · rw [objects_removeDocument]
  · rw [objects_removeDocument]
    exact Table.contains_modify _ _ _ _

/-- The round of the documents leaves every object, though maybe without events. -/
theorem contains_pruneDocuments (t : SymbolTable) (uris : List Uri) (name : String) :
    (t.pruneDocuments uris).objects.contains name = t.objects.contains name := by
  rw [pruneDocuments]
  exact foldl_unchanged (·.objects.contains name)
    (fun t uri => contains_deleteRecordAt t uri name) _ t

theorem loses_pruneScripts (h : t.scripts.Keyed ScriptRecord.name)
    (hgone : ∀ uri ∉ uris, gone uri) : Loses gone t (t.pruneScripts uris) := by
  rw [pruneScripts]
  refine Loses.foldl fun script hscript t' ht' => Loses.deleteScript fun uri huri => hgone uri ?_
  obtain ⟨hvalue, hstale⟩ := List.mem_filter.mp hscript
  obtain ⟨found, hfound, rfl⟩ := mem_scriptLinks.mp (ht'.documents huri)
  rw [(h.mem_values_iff script).mp hvalue, Option.some.injEq] at hfound
  simpa [hfound] using hstale

theorem loses_pruneObjects
    (hgone : ∀ name ∉ objects, ∀ uri ∈ t.eventLinks.documents name, gone uri) :
    Loses gone t (t.pruneObjects objects) := by
  rw [pruneObjects]
  refine Loses.foldl fun name hname t' ht' => Loses.deleteObject fun uri huri => ?_
  have hunlisted := (List.mem_filter.mp hname).2
  exact hgone name (by simpa using hunlisted) uri (ht'.events name uri huri)

theorem loses_pruneDocuments (hgone : ∀ uri ∉ uris, gone uri) (t : SymbolTable) :
    Loses gone t (t.pruneDocuments uris) := by
  refine Loses.foldl fun uri huri t' _ => Loses.deleteRecordAt (hgone uri ?_) t'
  simpa using (List.mem_filter.mp huri).2

end

end SymbolTable

end Gml
