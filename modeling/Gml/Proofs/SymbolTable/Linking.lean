import Gml.Proofs.SymbolTable.Documents

/-!
# Documents and their resources

A script has a document and an object has one for each of its events. The table also keeps the
way back, from a document to the script or the object it belongs to. This always leads to a
resource that has the document. It leads back from every document, so that each one belongs to a
single script and a single object, exactly as long as no resource is given a document that
another one has.
-/
namespace Gml

/-- The documents of some resources, and the way back. -/
@[ext]
structure Links where
  documents : String → List Uri
  owner? : Uri → Option String

namespace Links

variable {links : Links} {name owner : String} {uri other : Uri}

/-- A resource gets a document. -/
def link (links : Links) (name : String) (uri : Uri) : Links where
  documents owner :=
    if owner = name then
      if uri ∈ links.documents name then links.documents name else links.documents name ++ [uri]
    else links.documents owner
  owner? other := if other = uri then some name else links.owner? other

/-- A resource goes with all its documents. -/
def drop (links : Links) (name : String) : Links where
  documents owner := if owner = name then [] else links.documents owner
  owner? uri := if uri ∈ links.documents name then none else links.owner? uri

/-- A document is taken from the resource to which it leads. -/
def unlink (links : Links) (uri : Uri) : Links where
  documents owner :=
    if links.owner? uri = some owner then (links.documents owner).filter (· != uri)
    else links.documents owner
  owner? other := if other = uri then none else links.owner? other

theorem mem_link : other ∈ (links.link name uri).documents owner ↔
    other ∈ links.documents owner ∨ owner = name ∧ other = uri := by
  unfold link
  dsimp only
  split
  next h =>
      subst h
      split
      next hmem =>
          constructor
          · exact .inl
          · rintro (h | ⟨-, rfl⟩)
            · exact h
            · exact hmem
      next => simp
  next h => simp [h]

theorem mem_drop : uri ∈ (links.drop name).documents owner ↔
    owner ≠ name ∧ uri ∈ links.documents owner := by
  unfold drop
  dsimp only
  split
  next h => simp [h]
  next h => simp [h]

theorem mem_unlink : other ∈ (links.unlink uri).documents owner ↔
    other ∈ links.documents owner ∧ ¬ (other = uri ∧ links.owner? uri = some owner) := by
  unfold unlink
  dsimp only
  split
  next h => simp [h]
  next h => simp [h]

theorem drop_of_nil (h : links.documents name = []) : links.drop name = links := by
  unfold drop
  rw [h]
  refine Links.ext (funext fun owner => ?_) (funext fun uri => ?_)
  · dsimp only
    split
    next heq => rw [heq, h]
    next => rfl
  · dsimp only
    rw [if_neg List.not_mem_nil]

/-- The way back leads to a resource that has the document. -/
def Sound (links : Links) : Prop :=
  ∀ uri name, links.owner? uri = some name → uri ∈ links.documents name

/-- The way back leads from every document to the resource that has it. -/
def Complete (links : Links) : Prop :=
  ∀ uri name, uri ∈ links.documents name → links.owner? uri = some name

/-- The way back leads to a resource exactly from its documents. -/
def Mutual (links : Links) : Prop :=
  ∀ uri name, links.owner? uri = some name ↔ uri ∈ links.documents name

/-- No other resource has the document. -/
def Free (links : Links) (name : String) (uri : Uri) : Prop :=
  ∀ owner, uri ∈ links.documents owner → owner = name

namespace Sound

theorem link (h : links.Sound) (name : String) (uri : Uri) : (links.link name uri).Sound := by
  intro other owner howner
  rw [mem_link]
  unfold Links.link at howner
  dsimp only at howner
  split at howner
  next heq =>
      cases howner
      exact .inr ⟨rfl, heq⟩
  next => exact .inl (h other owner howner)

theorem drop (h : links.Sound) (name : String) : (links.drop name).Sound := by
  intro uri owner howner
  rw [mem_drop]
  unfold Links.drop at howner
  dsimp only at howner
  split at howner
  · cases howner
  next hkept =>
      have hmem := h uri owner howner
      refine ⟨?_, hmem⟩
      rintro rfl
      exact hkept hmem

theorem unlink (h : links.Sound) (uri : Uri) : (links.unlink uri).Sound := by
  intro other owner howner
  rw [mem_unlink]
  unfold Links.unlink at howner
  dsimp only at howner
  split at howner
  · cases howner
  next hother => exact ⟨h other owner howner, fun hand => hother hand.1⟩

end Sound

namespace Complete

theorem owner_unique (h : links.Complete) {name' : String} (hmem : uri ∈ links.documents name)
    (hmem' : uri ∈ links.documents name') : name = name' := by
  have howner := h uri name hmem
  rw [h uri name' hmem', Option.some.injEq] at howner
  exact howner.symm

theorem drop (h : links.Complete) (name : String) : (links.drop name).Complete := by
  intro uri owner hmem
  obtain ⟨hother, hold⟩ := mem_drop.mp hmem
  unfold Links.drop
  dsimp only
  rw [if_neg fun hname => hother (h.owner_unique hold hname)]
  exact h uri owner hold

theorem unlink (h : links.Complete) (uri : Uri) : (links.unlink uri).Complete := by
  intro other owner hmem
  obtain ⟨hold, hkept⟩ := mem_unlink.mp hmem
  have howner := h other owner hold
  unfold Links.unlink
  dsimp only
  rw [if_neg]
  · exact howner
  · rintro rfl
    exact hkept ⟨rfl, howner⟩

/-- A document that is taken away goes from every resource. -/
theorem mem_unlink_iff (h : links.Complete) :
    other ∈ (links.unlink uri).documents name ↔ other ∈ links.documents name ∧ other ≠ uri := by
  rw [mem_unlink]
  refine and_congr_right fun hold => not_congr (and_iff_left_of_imp ?_)
  rintro rfl
  exact h other name hold

end Complete

namespace Mutual

theorem sound (h : links.Mutual) : links.Sound := fun uri name => (h uri name).mp

theorem complete (h : links.Mutual) : links.Complete := fun uri name => (h uri name).mpr

theorem of_sound (hsound : links.Sound) (hcomplete : links.Complete) : links.Mutual :=
  fun uri name => ⟨hsound uri name, hcomplete uri name⟩

/-- A document can be given to a resource if no other one has it, and only then. -/
theorem link_iff (h : links.Mutual) : (links.link name uri).Mutual ↔ links.Free name uri := by
  constructor
  · intro hlinked owner hmem
    have howner := (hlinked uri owner).mpr (mem_link.mpr (.inl hmem))
    unfold Links.link at howner
    dsimp only at howner
    rw [if_pos rfl, Option.some.injEq] at howner
    exact howner.symm
  · intro hfree other owner
    refine ⟨h.sound.link name uri other owner, fun hmem => ?_⟩
    unfold Links.link
    dsimp only
    split
    next heq =>
        subst heq
        rcases mem_link.mp hmem with hold | ⟨hname, -⟩
        · rw [hfree owner hold]
        · rw [hname]
    next hother =>
        rcases mem_link.mp hmem with hold | ⟨-, hsame⟩
        · exact (h other owner).mpr hold
        · exact absurd hsame hother

theorem drop (h : links.Mutual) (name : String) : (links.drop name).Mutual :=
  of_sound (h.sound.drop name) (h.complete.drop name)

theorem unlink (h : links.Mutual) (uri : Uri) : (links.unlink uri).Mutual :=
  of_sound (h.sound.unlink uri) (h.complete.unlink uri)

end Mutual

end Links

namespace SymbolTable

variable {t t' : SymbolTable} {name : String} {uri : Uri}

/-! ### The links of a table -/

/-- The documents of the scripts. -/
def scriptLinks (t : SymbolTable) : Links where
  documents name := ((t.scripts.get? name).map ScriptRecord.uri).toList
  owner? := t.scriptAt.get?

/-- The documents of the objects' events. -/
def eventLinks (t : SymbolTable) : Links where
  documents name := ((t.objects.get? name).map ObjectRecord.eventUris).getD []
  owner? := t.objectAt.get?

theorem mem_scriptLinks :
    uri ∈ t.scriptLinks.documents name ↔ ∃ script, t.scripts.get? name = some script ∧
      script.uri = uri := by
  simp [scriptLinks]

theorem mem_eventLinks :
    uri ∈ t.eventLinks.documents name ↔ ∃ object, t.objects.get? name = some object ∧
      uri ∈ object.eventUris := by
  cases hobject : t.objects.get? name <;> simp [eventLinks, hobject]

theorem scriptLinks_detach (t : SymbolTable) (uri : Uri) :
    (t.detach uri).scriptLinks = t.scriptLinks := by
  rw [detach]
  split <;> rfl

theorem eventLinks_detach (t : SymbolTable) (uri : Uri) :
    (t.detach uri).eventLinks = t.eventLinks := by
  rw [detach]
  split <;> rfl

/-- A script that changes in all but its place has the document that it had. -/
theorem scriptLinks_set {script changed : ScriptRecord} (hscript : t.scripts.get? name = some script)
    (huri : changed.uri = script.uri) :
    { t with scripts := t.scripts.set name changed }.scriptLinks = t.scriptLinks := by
  refine Links.ext (funext fun other => ?_) rfl
  dsimp only [scriptLinks]
  rw [Table.get?_set]
  split
  next h => rw [h, hscript, Option.map_some, Option.map_some, huri]
  next => rfl

theorem scriptLinks_clearScriptDoc (t : SymbolTable) (name : String) :
    (t.clearScriptDoc name).scriptLinks = t.scriptLinks := by
  rw [clearScriptDoc, Table.modify]
  split
  next script hscript => exact scriptLinks_set hscript rfl
  next => rfl

theorem scriptLinks_clearContribution (t : SymbolTable) (uri : Uri) :
    (t.clearContribution uri).scriptLinks = t.scriptLinks := by
  unfold clearContribution
  dsimp only
  split
  · rw [scriptLinks_clearScriptDoc, scriptLinks_detach]
  · exact scriptLinks_detach t uri

theorem eventLinks_clearContribution (t : SymbolTable) (uri : Uri) :
    (t.clearContribution uri).eventLinks = t.eventLinks := by
  unfold clearContribution
  dsimp only
  split
  · exact eventLinks_detach t uri
  · exact eventLinks_detach t uri

theorem scriptLinks_removeDocument (t : SymbolTable) (uri : Uri) :
    (t.removeDocument uri).scriptLinks = t.scriptLinks := scriptLinks_clearContribution t uri

theorem eventLinks_removeDocument (t : SymbolTable) (uri : Uri) :
    (t.removeDocument uri).eventLinks = t.eventLinks := eventLinks_clearContribution t uri

theorem scriptLinks_replaceContribution (t : SymbolTable) (uri : Uri) (c : Contribution) :
    (t.replaceContribution uri c).2.scriptLinks = t.scriptLinks := by
  rw [replaceContribution]
  dsimp only
  split
  · exact scriptLinks_detach t uri
  · exact scriptLinks_detach t uri

theorem eventLinks_replaceContribution (t : SymbolTable) (uri : Uri) (c : Contribution) :
    (t.replaceContribution uri c).2.eventLinks = t.eventLinks := by
  rw [replaceContribution]
  dsimp only
  split
  · exact eventLinks_detach t uri
  · exact eventLinks_detach t uri

/-! ### What edits do to the links -/

/-- The links of the scripts after an edit. -/
def Edit.onScripts (t : SymbolTable) : Edit → Links
  | .createScript name uri =>
      match t.checkNewName name with
      | .ok _ => t.scriptLinks.link name uri
      | .error _ => t.scriptLinks
  | .deleteScript name => t.scriptLinks.drop name
  | _ => t.scriptLinks

/-- The links of the objects after an edit. -/
def Edit.onEvents (t : SymbolTable) : Edit → Links
  | .addEvent name uri =>
      if t.objects.contains name then t.eventLinks.link name uri else t.eventLinks
  | .deleteObject name => t.eventLinks.drop name
  | .deleteRecordAt uri => t.eventLinks.unlink uri
  | _ => t.eventLinks

theorem scriptLinks_createScript (t : SymbolTable) (name : String) (uri : Uri) :
    ((t.createScript name uri).toOption.getD t).scriptLinks =
      (Edit.createScript name uri).onScripts t := by
  rw [createScript, Edit.onScripts]
  cases hcheck : t.checkNewName name with
  | error e => rfl
  | ok =>
      have hnone : t.scriptLinks.documents name = [] := by
        dsimp only [scriptLinks]
        rw [(get?_of_checkNewName hcheck).1]
        rfl
      dsimp only [Except.map, Except.toOption, Option.getD_some]
      unfold Links.link
      rw [hnone, if_neg List.not_mem_nil]
      refine Links.ext (funext fun owner => ?_) (funext fun other => ?_)
      · dsimp only [scriptLinks]
        rw [Table.get?_set]
        split <;> rfl
      · exact Table.get?_set _ _ _ _

theorem scriptLinks_deleteScript (t : SymbolTable) (name : String) :
    (((t.deleteScript name).map Prod.snd).toOption.getD t).scriptLinks =
      t.scriptLinks.drop name := by
  rw [deleteScript]
  cases hscript : t.scripts.get? name with
  | none =>
      have hnone : t.scriptLinks.documents name = [] := by
        dsimp only [scriptLinks]
        rw [hscript]
        rfl
      exact (Links.drop_of_nil hnone).symm
  | some script =>
      have hsome : t.scriptLinks.documents name = [script.uri] := by
        dsimp only [scriptLinks]
        rw [hscript]
        rfl
      dsimp only [Except.map, Except.toOption, Option.getD_some]
      rw [scriptLinks_removeDocument]
      refine Links.ext (funext fun owner => ?_) (funext fun other => ?_)
      · dsimp only [scriptLinks, Links.drop]
        rw [Table.get?_erase]
        split <;> rfl
      · unfold Links.drop
        dsimp only
        rw [hsome]
        simp only [scriptLinks, Table.get?_erase, List.mem_singleton]

theorem scriptLinks_removeEvents (uris : List Uri) (t : SymbolTable) :
    (uris.foldl (fun t uri => { t with objectAt := t.objectAt.erase uri }.removeDocument uri)
      t).scriptLinks = t.scriptLinks := by
  induction uris generalizing t with
  | nil => rfl
  | cons uri rest ih =>
      rw [List.foldl_cons, ih, scriptLinks_removeDocument]
      rfl

/-- Documents that go from their objects lead nowhere. -/
theorem eventLinks_removeEvents (uris : List Uri) (t : SymbolTable) :
    (uris.foldl (fun t uri => { t with objectAt := t.objectAt.erase uri }.removeDocument uri)
      t).eventLinks =
        ⟨t.eventLinks.documents, fun uri => if uri ∈ uris then none else t.eventLinks.owner? uri⟩ := by
  induction uris generalizing t with
  | nil => rfl
  | cons uri rest ih =>
      rw [List.foldl_cons, ih, eventLinks_removeDocument]
      refine Links.ext rfl (funext fun other => ?_)
      dsimp only [eventLinks]
      rw [Table.get?_erase]
      by_cases hother : other = uri
      · simp [hother]
      · simp [hother]

theorem eventLinks_deleteScript (t : SymbolTable) (name : String) :
    (((t.deleteScript name).map Prod.snd).toOption.getD t).eventLinks = t.eventLinks := by
  rw [deleteScript]
  split
  · rfl
  · exact eventLinks_removeDocument _ _

theorem eventLinks_addEvent (h : t.objects.Keyed ObjectRecord.name) (name : String) (uri : Uri) :
    ((t.addEvent name uri).toOption.getD t).eventLinks = (Edit.addEvent name uri).onEvents t := by
  rw [addEvent, Edit.onEvents, Table.contains]
  cases hobject : t.objects.get? name with
  | none => rfl
  | some object =>
      have hname : object.name = name := h name object hobject
      have hdocuments : t.eventLinks.documents name = object.eventUris := by
        dsimp only [eventLinks]
        rw [hobject]
        rfl
      rw [Option.isSome_some, if_pos rfl]
      unfold Links.link
      rw [hdocuments]
      refine Links.ext (funext fun owner => ?_) (funext fun other => ?_)
      · dsimp only [eventLinks, Except.toOption, Option.getD_some]
        rw [Table.get?_set]
        split
        · simp
        · rfl
      · dsimp only [eventLinks, Except.toOption, Option.getD_some]
        rw [Table.get?_set, hname]

theorem eventLinks_deleteObject (t : SymbolTable) (name : String) :
    (((t.deleteObject name).map Prod.snd).toOption.getD t).eventLinks =
      t.eventLinks.drop name := by
  rw [deleteObject]
  cases hobject : t.objects.get? name with
  | none =>
      have hnone : t.eventLinks.documents name = [] := by
        dsimp only [eventLinks]
        rw [hobject]
        rfl
      exact (Links.drop_of_nil hnone).symm
  | some object =>
      have hsome : t.eventLinks.documents name = object.eventUris := by
        dsimp only [eventLinks]
        rw [hobject]
        rfl
      dsimp only [Except.map, Except.toOption, Option.getD_some]
      rw [eventLinks_removeEvents]
      unfold Links.drop
      rw [hsome]
      refine Links.ext (funext fun owner => ?_) rfl
      dsimp only [eventLinks]
      rw [Table.get?_erase]
      split <;> rfl

theorem eventLinks_deleteRecordAt (t : SymbolTable) (uri : Uri) :
    (t.deleteRecordAt uri).eventLinks = t.eventLinks.unlink uri := by
  rw [deleteRecordAt]
  cases hobject : t.objectAt.get? uri with
  | none =>
      have howner : t.eventLinks.owner? uri = none := hobject
      dsimp only
      rw [eventLinks_removeDocument]
      unfold Links.unlink
      rw [howner]
      refine Links.ext (funext fun owner => ?_) (funext fun other => ?_)
      · dsimp only
        rw [if_neg (Option.some_ne_none owner).symm]
      · dsimp only
        split
        next h => rw [h, howner]
        next => rfl
  | some object =>
      have howner : t.eventLinks.owner? uri = some object := hobject
      dsimp only
      rw [eventLinks_removeDocument]
      unfold Links.unlink
      rw [howner]
      refine Links.ext (funext fun owner => ?_) (funext fun other => ?_)
      · dsimp only [eventLinks]
        rw [Table.get?_modify]
        by_cases h : owner = object
        · rw [if_pos h, if_pos (congrArg some h.symm), h]
          cases t.objects.get? object <;> rfl
        · rw [if_neg h, if_neg fun hsome => h (Option.some.inj hsome).symm]
      · exact Table.get?_erase _ _ _

theorem scriptLinks_apply (t : SymbolTable) (edit : Edit) :
    (edit.apply t).scriptLinks = edit.onScripts t := by
  cases edit with
  | createScript name uri => exact scriptLinks_createScript t name uri
  | deleteScript name => exact scriptLinks_deleteScript t name
  | createObject name =>
      rw [Edit.apply, createObject]
      dsimp only [Edit.onScripts]
      cases t.checkNewName name <;> rfl
  | addEvent name uri =>
      rw [Edit.apply, addEvent]
      dsimp only [Edit.onScripts]
      split <;> rfl
  | deleteObject name =>
      rw [Edit.apply, deleteObject]
      dsimp only [Edit.onScripts]
      split
      · rfl
      · exact scriptLinks_removeEvents _ _
  | deleteRecordAt uri =>
      rw [Edit.apply, deleteRecordAt]
      dsimp only [Edit.onScripts]
      split
      · exact scriptLinks_removeDocument t uri
      · exact scriptLinks_removeDocument _ uri
  | clearContribution uri => exact scriptLinks_clearContribution t uri
  | replaceContribution uri c belongs => exact scriptLinks_replaceContribution t uri c
  | setScriptDoc name doc =>
      rw [Edit.apply, setScriptDoc]
      dsimp only [Edit.onScripts]
      split
      · rfl
      next script hscript => exact scriptLinks_set hscript rfl
  | clearScriptDoc name => exact scriptLinks_clearScriptDoc t name
  | seedBuiltins | setHash => rfl

theorem eventLinks_apply (h : t.objects.Keyed ObjectRecord.name) (edit : Edit) :
    (edit.apply t).eventLinks = edit.onEvents t := by
  cases edit with
  | createScript name uri =>
      rw [Edit.apply, createScript]
      dsimp only [Edit.onEvents]
      cases t.checkNewName name <;> rfl
  | deleteScript name => exact eventLinks_deleteScript t name
  | createObject name =>
      rw [Edit.apply, createObject]
      dsimp only [Edit.onEvents]
      cases hcheck : t.checkNewName name with
      | error e => rfl
      | ok =>
          refine Links.ext (funext fun owner => ?_) rfl
          dsimp only [Except.map, Except.toOption, Option.getD_some, eventLinks]
          rw [Table.get?_set]
          split
          next heq => rw [heq, (get?_of_checkNewName hcheck).2]; rfl
          next => rfl
  | addEvent name uri => exact eventLinks_addEvent h name uri
  | deleteObject name => exact eventLinks_deleteObject t name
  | deleteRecordAt uri => exact eventLinks_deleteRecordAt t uri
  | clearContribution uri => exact eventLinks_clearContribution t uri
  | replaceContribution uri c belongs => exact eventLinks_replaceContribution t uri c
  | setScriptDoc name doc =>
      rw [Edit.apply, setScriptDoc]
      dsimp only [Edit.onEvents]
      split <;> rfl
  | seedBuiltins | clearScriptDoc | setHash => rfl

/-! ### Runs -/

/-- An edit gives no resource a document that another one has. -/
def Edit.LinksFree (t : SymbolTable) : Edit → Prop
  | .createScript name uri => t.checkNewName name = .ok () → t.scriptLinks.Free name uri
  | .addEvent name uri => t.objects.contains name = true → t.eventLinks.Free name uri
  | _ => True

theorem scriptLinks_sound_apply (h : t.scriptLinks.Sound) (edit : Edit) :
    (edit.apply t).scriptLinks.Sound := by
  rw [scriptLinks_apply]
  unfold Edit.onScripts
  split
  · split
    · exact h.link _ _
    · exact h
  · exact h.drop _
  · exact h

theorem sound_apply (h : t.objects.Keyed ObjectRecord.name)
    (hsound : t.scriptLinks.Sound ∧ t.eventLinks.Sound) (edit : Edit) :
    (edit.apply t).scriptLinks.Sound ∧ (edit.apply t).eventLinks.Sound := by
  obtain ⟨hscripts, hevents⟩ := hsound
  refine ⟨scriptLinks_sound_apply hscripts edit, ?_⟩
  rw [eventLinks_apply h]
  unfold Edit.onEvents
  split
  · split
    · exact hevents.link _ _
    · exact hevents
  · exact hevents.drop _
  · exact hevents.unlink _
  · exact hevents

/-- The links stay mutual if an edit gives away a document that is free, and only then. -/
theorem mutual_apply_iff (h : t.objects.Keyed ObjectRecord.name)
    (hmutual : t.scriptLinks.Mutual ∧ t.eventLinks.Mutual) (edit : Edit) :
    ((edit.apply t).scriptLinks.Mutual ∧ (edit.apply t).eventLinks.Mutual) ↔ edit.LinksFree t := by
  obtain ⟨hscripts, hevents⟩ := hmutual
  rw [scriptLinks_apply, eventLinks_apply h]
  cases edit with
  | createScript name uri =>
      rw [Edit.onScripts, Edit.LinksFree]
      cases t.checkNewName name with
      | error e => exact iff_of_true ⟨hscripts, hevents⟩ nofun
      | ok => exact ⟨fun hafter _ => hscripts.link_iff.mp hafter.1,
          fun hfree => ⟨hscripts.link_iff.mpr (hfree rfl), hevents⟩⟩
  | addEvent name uri =>
      rw [Edit.onEvents, Edit.LinksFree]
      cases t.objects.contains name with
      | false => exact iff_of_true ⟨hscripts, hevents⟩ nofun
      | true => exact ⟨fun hafter _ => hevents.link_iff.mp hafter.2,
          fun hfree => ⟨hscripts, hevents.link_iff.mpr (hfree rfl)⟩⟩
  | deleteScript name => exact iff_of_true ⟨hscripts.drop name, hevents⟩ trivial
  | deleteObject name => exact iff_of_true ⟨hscripts, hevents.drop name⟩ trivial
  | deleteRecordAt uri => exact iff_of_true ⟨hscripts, hevents.unlink uri⟩ trivial
  | seedBuiltins | createObject | clearContribution | replaceContribution | setScriptDoc
  | clearScriptDoc | setHash => exact iff_of_true ⟨hscripts, hevents⟩ trivial

/-- Documents and resources lead to each other. Every script is found at its document, the events
of objects are exactly the documents that lead to an object, each of them belongs to one object
only, and to none once the document is forgotten. -/
structure LinkedBothWays (t : SymbolTable) : Prop where
  scripts : ∀ name script, t.scripts.get? name = some script →
    t.scriptAt? script.uri = some script
  events : ∀ uri name, t.objectAt.get? uri = some name ↔
    ∃ object, t.objects.get? name = some object ∧ uri ∈ object.eventUris
  once : ∀ name object name' object', t.objects.get? name = some object →
    t.objects.get? name' = some object' → ∀ uri ∈ object.eventUris, uri ∈ object'.eventUris →
      name = name'
  forgotten : ∀ uri name object, (t.deleteRecordAt uri).objects.get? name = some object →
    uri ∉ object.eventUris

theorem linkedBothWays_iff (h : t.Resourced) (hsound : t.scriptLinks.Sound) :
    t.LinkedBothWays ↔ t.scriptLinks.Mutual ∧ t.eventLinks.Mutual := by
  constructor
  · intro hlinked
    refine ⟨fun uri name => ⟨hsound uri name, fun hmem => ?_⟩, fun uri name => ?_⟩
    · obtain ⟨script, hscript, rfl⟩ := mem_scriptLinks.mp hmem
      obtain ⟨found, hlink, hfound⟩ :=
        Option.bind_eq_some_iff.mp (hlinked.scripts name script hscript)
      have hname : found = name := by
        rw [← h.scripts found script hfound, h.scripts name script hscript]
      exact hname ▸ hlink
    · rw [mem_eventLinks]
      exact hlinked.events uri name
  · rintro ⟨hscripts, hevents⟩
    refine ⟨fun name script hscript => ?_, fun uri name => ?_, ?_, ?_⟩
    · have hlink := (hscripts script.uri name).mpr (mem_scriptLinks.mpr ⟨script, hscript, rfl⟩)
      exact Option.bind_eq_some_iff.mpr ⟨name, hlink, hscript⟩
    · rw [← mem_eventLinks]
      exact hevents uri name
    · intro name object name' object' hobject hobject' uri hmem hmem'
      exact hevents.complete.owner_unique (mem_eventLinks.mpr ⟨object, hobject, hmem⟩)
        (mem_eventLinks.mpr ⟨object', hobject', hmem'⟩)
    · intro uri name object hobject hmem
      have hleft := mem_eventLinks.mpr ⟨object, hobject, hmem⟩
      rw [eventLinks_deleteRecordAt, hevents.complete.mem_unlink_iff] at hleft
      exact hleft.2 rfl

theorem sound_ofEdits (edits : List Edit) :
    (ofEdits edits).scriptLinks.Sound ∧ (ofEdits edits).eventLinks.Sound := by
  induction edits using List.reverseRecOn with
  | nil => exact ⟨nofun, nofun⟩
  | append_singleton edits edit ih =>
      rw [ofEdits_append]
      exact sound_apply (resourced_ofEdits edits).objects ih edit

/-- The links of a run are mutual at all times if every edit gives away documents that are free,
and only then. -/
theorem mutual_ofEdits_iff (edits : List Edit) :
    (∀ before, before <+: edits →
      (ofEdits before).scriptLinks.Mutual ∧ (ofEdits before).eventLinks.Mutual) ↔
    ∀ before edit, before ++ [edit] <+: edits → edit.LinksFree (ofEdits before) := by
  have happly : ∀ before edit, (ofEdits before).scriptLinks.Mutual ∧
      (ofEdits before).eventLinks.Mutual →
      ((ofEdits (before ++ [edit])).scriptLinks.Mutual ∧
        (ofEdits (before ++ [edit])).eventLinks.Mutual ↔ edit.LinksFree (ofEdits before)) := by
    intro before edit hbefore
    rw [ofEdits_append]
    exact mutual_apply_iff (resourced_ofEdits before).objects hbefore edit
  constructor
  · intro hmutual before edit hprefix
    have hbefore := hmutual before ((List.prefix_append before [edit]).trans hprefix)
    exact (happly before edit hbefore).mp (hmutual _ hprefix)
  · intro hfree before
    induction before using List.reverseRecOn with
    | nil => exact fun _ => ⟨fun _ _ => ⟨nofun, nofun⟩, fun _ _ => ⟨nofun, nofun⟩⟩
    | append_singleton before edit ih =>
        intro hprefix
        have hbefore := ih ((List.prefix_append before [edit]).trans hprefix)
        exact (happly before edit hbefore).mpr (hfree before edit hprefix)

/-- Whatever the edits are, the way back from a document leads to a script or an object that has
the document, and when a document is forgotten it goes from the object to which it leads and from
no other one. Documents and resources lead to each other all the time if no edit gives a resource
a document that another one has, and only then. -/
theorem linked_both_ways_iff (edits : List Edit) :
    ((∀ uri name, (ofEdits edits).scriptAt.get? uri = some name →
        ∃ script, (ofEdits edits).scripts.get? name = some script ∧ script.uri = uri) ∧
      (∀ uri name, (ofEdits edits).objectAt.get? uri = some name →
        ∃ object, (ofEdits edits).objects.get? name = some object ∧ uri ∈ object.eventUris) ∧
      ∀ uri name, (∃ object, ((ofEdits edits).deleteRecordAt uri).objects.get? name = some object ∧
          uri ∈ object.eventUris) ↔
        (∃ object, (ofEdits edits).objects.get? name = some object ∧ uri ∈ object.eventUris) ∧
          (ofEdits edits).objectAt.get? uri ≠ some name) ∧
    ((∀ before, before <+: edits → (ofEdits before).LinkedBothWays) ↔
      ∀ before edit, before ++ [edit] <+: edits → edit.LinksFree (ofEdits before)) := by
  obtain ⟨hscripts, hevents⟩ := sound_ofEdits edits
  refine ⟨⟨fun uri name hlink => mem_scriptLinks.mp (hscripts uri name hlink),
    fun uri name hlink => mem_eventLinks.mp (hevents uri name hlink), fun uri name => ?_⟩, ?_⟩
  · rw [← mem_eventLinks, ← mem_eventLinks, eventLinks_deleteRecordAt, Links.mem_unlink]
    exact and_congr_right fun _ => not_congr (and_iff_right rfl)
  · rw [← mutual_ofEdits_iff]
    refine forall_congr' fun before => forall_congr' fun _ => ?_
    exact linkedBothWays_iff (resourced_ofEdits before) (sound_ofEdits before).1

/-- Two objects that share an event, and two scripts that share a document. Only the later ones
are found there, and the first object keeps the event when it is forgotten. -/
theorem shared_documents_stay :
    let shared := [Edit.createObject "a", .createObject "b", .addEvent "a" "e", .addEvent "b" "e",
      .createScript "f" "s", .createScript "g" "s"]
    (ofEdits shared).objectAt.get? "e" = some "b" ∧
      (ofEdits (shared ++ [.deleteRecordAt "e"])).objects.get? "a" =
        some { name := "a", eventUris := ["e"] } ∧
      (ofEdits shared).scripts.get? "f" = some { name := "f", uri := "s" } ∧
      (ofEdits shared).scriptAt? "s" = some { name := "g", uri := "s" } := by
  decide

end SymbolTable

end Gml
