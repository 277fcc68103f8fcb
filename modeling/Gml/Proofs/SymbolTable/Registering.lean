import Gml.Proofs.Project.Listing
import Gml.Proofs.SymbolTable.Linking
import Gml.Proofs.SymbolTable.Scripts

/-!
# Registering files

A file is registered under one name, and what bears a name in the end depends on the files of
this name alone, in their order. So files of different names can be registered in any order. If no
two files have one address, every script can be found from its document.
-/
namespace Gml

namespace SymbolTable

/-- What bears a name: a script, an object or, as long as nothing is registered, neither. -/
@[ext]
structure Bearers where
  script : Option ScriptRecord := none
  object : Option ObjectRecord := none

namespace Bearers

/-- The script of a file comes under a name that is free. -/
def withScript (bearers : Bearers) (free : Bool) (name : String) (uri : Uri) : Bearers :=
  if free && bearers.script.isNone && bearers.object.isNone then
    { script := some { name, uri } }
  else bearers

/-- The event of a file comes to the object, which is made under a name that is free. -/
def withEvent (bearers : Bearers) (free : Bool) (name : String) (uri : Uri) : Bearers :=
  match bearers.object with
  | some object => { bearers with object := some (object.withEvent uri) }
  | none =>
      if free && bearers.script.isNone then
        { object := some (ObjectRecord.withEvent { name } uri) }
      else bearers

/-- What bears a name when a file of this name has been registered. -/
def register (bearers : Bearers) (free : Bool) (name : String) (uri : Uri) :
    DocumentKind → Bearers
  | .script _ => bearers.withScript free name uri
  | .objectEvent _ _ => bearers.withEvent free name uri
  | .other => bearers

end Bearers

variable {t : SymbolTable} {name : String} {uri : Uri}

def bearers (t : SymbolTable) (name : String) : Bearers := ⟨t.scripts.get? name, t.objects.get? name⟩

/-- Whether a name may be given to a resource, as far as it depends on other things than scripts
and objects. -/
def isFree (t : SymbolTable) (name : String) : Bool :=
  Name.isIdentifier name && !Name.isReserved name && !(t.macros.contains name
    || t.builtinFunctions.contains name || t.builtinVariables.contains name
    || (t.variableSites name).any (·.scope == .ofGame))

theorem checkNewName_ok_iff (t : SymbolTable) (name : String) :
    t.checkNewName name = .ok () ↔
      (t.isFree name && (t.scripts.get? name).isNone && (t.objects.get? name).isNone) = true := by
  rw [checkNewName, exists?, isFree]
  unfold Table.contains
  cases Name.isIdentifier name <;> cases Name.isReserved name <;>
    cases t.scripts.get? name <;> cases t.objects.get? name <;> simp

/-! ### One file -/

theorem bearers_setScript (t : SymbolTable) (new : String) (script : ScriptRecord)
    (scriptAt : Table String) (name : String) :
    { t with scripts := t.scripts.set new script, scriptAt }.bearers name =
      if new = name then { t.bearers name with script := some script } else t.bearers name := by
  rw [bearers, Table.get?_set]
  split
  next heq => rw [if_pos heq.symm]; rfl
  next hne => rw [if_neg (Ne.symm hne)]; rfl

theorem bearers_setObject (t : SymbolTable) (new : String) (object : ObjectRecord)
    (objectAt : Table String) (name : String) :
    { t with objects := t.objects.set new object, objectAt }.bearers name =
      if new = name then { t.bearers name with object := some object } else t.bearers name := by
  rw [bearers, Table.get?_set]
  split
  next heq => rw [if_pos heq.symm]; rfl
  next hne => rw [if_neg (Ne.symm hne)]; rfl

theorem bearers_registerScript (t : SymbolTable) (uri : Uri) (new name : String) :
    (t.registerIfPossible uri (.script new)).bearers name =
      if new = name then (t.bearers name).withScript (t.isFree name) name uri
      else t.bearers name := by
  have hok := t.checkNewName_ok_iff new
  rw [registerIfPossible_script]
  cases hcheck : t.checkNewName new with
  | ok =>
      dsimp only
      rw [bearers_setScript]
      split
      next heq =>
          subst heq
          rw [Bearers.withScript, bearers, if_pos (hok.mp hcheck), (get?_of_checkNewName hcheck).2]
      next => rfl
  | error e =>
      rw [hcheck] at hok
      dsimp only
      split
      next heq =>
          subst heq
          rw [Bearers.withScript, bearers, if_neg fun hfree => by cases hok.mpr hfree]
      next => rfl

theorem bearers_registerEvent (t : SymbolTable) (uri : Uri) (object event name : String) :
    (t.registerIfPossible uri (.objectEvent object event)).bearers name =
      if object = name then (t.bearers name).withEvent (t.isFree name) name uri
      else t.bearers name := by
  have hok := t.checkNewName_ok_iff object
  rw [registerIfPossible_event]
  cases hobject : t.objects.get? object with
  | some record =>
      dsimp only
      rw [bearers_setObject]
      split
      next heq => subst heq; rw [Bearers.withEvent, bearers, hobject]
      next => rfl
  | none =>
      rw [hobject, Option.isNone_none, Bool.and_true] at hok
      cases hcheck : t.checkNewName object with
      | ok =>
          let made : SymbolTable := { t with objects := t.objects.set object { name := object } }
          have hput := made.bearers_setObject object (ObjectRecord.withEvent { name := object } uri)
            (t.objectAt.set uri object) name
          dsimp only
          rw [hput, bearers_setObject t object _ t.objectAt]
          split
          next heq =>
              subst heq
              rw [Bearers.withEvent, bearers, hobject]
              dsimp only
              rw [if_pos (hok.mp hcheck), (get?_of_checkNewName hcheck).1]
          next => rfl
      | error e =>
          rw [hcheck] at hok
          dsimp only
          split
          next heq =>
              subst heq
              rw [Bearers.withEvent, bearers, hobject]
              dsimp only
              rw [if_neg fun hfree => by cases hok.mpr hfree]
          next => rfl

/-- A registration changes what bears the name of its file, and nothing else. -/
theorem bearers_registerIfPossible (t : SymbolTable) (uri : Uri) (kind : DocumentKind)
    (name : String) :
    (t.registerIfPossible uri kind).bearers name =
      if kind.resource? = some name then (t.bearers name).register (t.isFree name) name uri kind
      else t.bearers name := by
  cases kind with
  | script new =>
      simp only [DocumentKind.resource?, Option.some.injEq]
      exact t.bearers_registerScript uri new name
  | objectEvent object event =>
      simp only [DocumentKind.resource?, Option.some.injEq]
      exact t.bearers_registerEvent uri object event name
  | other => rfl

/-! ### All files -/

theorem isFree_registerIfPossible (t : SymbolTable) (uri : Uri) (kind : DocumentKind)
    (name : String) : (t.registerIfPossible uri kind).isFree name = t.isFree name := by
  obtain ⟨scripts, scriptAt, objects, objectAt, hregister, -, -⟩ :=
    t.registerIfPossible_eq uri kind
  rw [hregister]
  rfl

/-- What bears a name in the end follows from the files of this name. -/
theorem bearers_registerAll (t : SymbolTable) (files : List SourceFile) (name : String) :
    (t.registerAll files).bearers name =
      (files.filter (·.kind.resource? == some name)).foldl
        (fun bearers file => bearers.register (t.isFree name) name file.uri file.kind)
        (t.bearers name) := by
  induction files generalizing t with
  | nil => rfl
  | cons file rest ih =>
      have hall : t.registerAll (file :: rest) =
          (t.registerIfPossible file.uri file.kind).registerAll rest := rfl
      rw [hall, ih, isFree_registerIfPossible, bearers_registerIfPossible, List.filter_cons]
      by_cases hname : file.kind.resource? = some name
      · rw [if_pos hname, if_pos (beq_iff_eq.mpr hname), List.foldl_cons]
      · rw [if_neg hname, if_neg (mt beq_iff_eq.mp hname)]

/-- A script that was registered is that of a file. -/
theorem exists_file_of_script (hempty : t.scripts = .empty) {files : List SourceFile}
    {script : ScriptRecord} (h : (t.registerAll files).scripts.get? name = some script) :
    ∃ file ∈ files, file.kind = .script name ∧ file.uri = script.uri := by
  induction files using List.reverseRecOn with
  | nil =>
      have hnone : (t.registerAll []).scripts = .empty := hempty
      rw [hnone] at h
      cases h
  | append_singleton files last ih =>
      have hall : t.registerAll (files ++ [last]) =
          (t.registerAll files).registerIfPossible last.uri last.kind := List.foldl_concat ..
      have hbefore : (t.registerAll files).scripts.get? name = some script →
          ∃ file ∈ files ++ [last], file.kind = .script name ∧ file.uri = script.uri := by
        intro hscript
        obtain ⟨file, hfile, hkind, huri⟩ := ih hscript
        exact ⟨file, List.mem_append_left _ hfile, hkind, huri⟩
      obtain ⟨scripts, scriptAt, objects, objectAt, hregister, -, ⟨rfl, -⟩ |
        ⟨new, hkind, -, rfl, -⟩⟩ := (t.registerAll files).registerIfPossible_eq last.uri last.kind
      · rw [hall, hregister] at h
        exact hbefore h
      · rw [hall, hregister] at h
        dsimp only at h
        rw [Table.get?_set] at h
        split at h
        next heq =>
            cases h
            exact ⟨last, List.mem_concat_self, heq ▸ hkind, rfl⟩
        next => exact hbefore h

theorem scriptLinks_registerIfPossible (t : SymbolTable) (uri : Uri) (kind : DocumentKind) :
    (t.registerIfPossible uri kind).scriptLinks = t.scriptLinks ∨ ∃ name, kind = .script name ∧
      (t.registerIfPossible uri kind).scriptLinks = t.scriptLinks.link name uri := by
  obtain ⟨scripts, scriptAt, objects, objectAt, hregister, -, ⟨rfl, rfl⟩ |
    ⟨name, rfl, -, rfl, rfl⟩⟩ := t.registerIfPossible_eq uri kind
  · rw [hregister]
    exact .inl rfl
  · have hcreated : t.registerIfPossible uri (.script name) =
        (t.createScript name uri).toOption.getD t := by
      rw [registerIfPossible_script, createScript]
      cases t.checkNewName name <;> rfl
    rw [hcreated, scriptLinks_createScript, Edit.onScripts]
    split
    · exact .inr ⟨name, rfl, rfl⟩
    · exact .inl rfl

/-- If no two files have one address, documents and scripts lead to each other. -/
theorem mutual_registerAll (hscripts : t.scripts = .empty) (hlinks : t.scriptAt = .empty)
    {files : List SourceFile}
    (hone : ∀ file ∈ files, ∀ other ∈ files, other.uri = file.uri → other = file) :
    (t.registerAll files).scriptLinks.Mutual := by
  induction files using List.reverseRecOn with
  | nil =>
      intro uri name
      have hempty : (t.registerAll []).scriptLinks = ({} : SymbolTable).scriptLinks := by
        have hnone : t.registerAll [] = t := rfl
        rw [hnone, scriptLinks, hscripts, hlinks]
        rfl
      rw [hempty]
      exact ⟨fun howner => (by cases howner), fun hmem => (by cases hmem)⟩
  | append_singleton files last ih =>
      have hbefore := ih fun file hfile other hother =>
        hone file (List.mem_append_left _ hfile) other (List.mem_append_left _ hother)
      have hall : t.registerAll (files ++ [last]) =
          (t.registerAll files).registerIfPossible last.uri last.kind := List.foldl_concat ..
      rw [hall]
      rcases (t.registerAll files).scriptLinks_registerIfPossible last.uri last.kind with
        hsame | ⟨name, hkind, hlinked⟩
      · rw [hsame]
        exact hbefore
      · rw [hlinked, hbefore.link_iff]
        intro owner howner
        obtain ⟨script, hscript, huri⟩ := mem_scriptLinks.mp howner
        obtain ⟨file, hfile, hfileKind, hfileUri⟩ := exists_file_of_script hscripts hscript
        obtain rfl := hone last List.mem_concat_self file (List.mem_append_left _ hfile)
          (hfileUri.trans huri)
        rw [hkind, DocumentKind.script.injEq] at hfileKind
        exact hfileKind.symm

theorem scriptAt_eq_of_mutual {t' : SymbolTable} (h : t.scriptLinks.Mutual)
    (h' : t'.scriptLinks.Mutual) (hscripts : ∀ name, t'.scripts.get? name = t.scripts.get? name)
    (uri : Uri) : t'.scriptAt.get? uri = t.scriptAt.get? uri := by
  refine Option.ext fun name => ?_
  refine (h' uri name).trans (Iff.trans ?_ (h uri name).symm)
  rw [mem_scriptLinks, mem_scriptLinks, hscripts]

end SymbolTable

end Gml
