import Gml.Proofs.Lint.Sourcing
import Gml.Proofs.SymbolTable.References
import Gml.Server.Feature

/-!
# References without definitions

A search for the uses of a name that leaves definitions out leaves out the places that the name
stands for in all documents. These are places where a use declares the name, so every use that
declares nothing is found; but not every use that declares the name is at such a place. What a
document declares for itself, what a script or an object bears the name of, and what is hidden
by a macro is found all the same.
-/
namespace Gml

namespace SymbolTable

variable {t : SymbolTable} {name : String} {location : Location}

/-- The place of the visible macro of a name or, without a macro, of a variable that is visible
from everywhere; a name of a script or an object has no such place. -/
inductive DefinedAt (t : SymbolTable) (name : String) : Location → Prop
  | macroDef {record : MacroRecord} (hscript : t.scripts.get? name = none)
      (hobject : t.objects.get? name = none) (hvisible : t.visibleMacro? name = some record) :
      DefinedAt t name record.location
  | site {record : VariableRecord} (hscript : t.scripts.get? name = none)
      (hobject : t.objects.get? name = none) (hvisible : t.visibleMacro? name = none)
      (hrecord : record ∈ t.variableSites name) (hscope : record.scope ≠ .ofDocument) :
      DefinedAt t name record.location

theorem mem_sortLocations {locations : List Location} :
    location ∈ sortLocations locations ↔ location ∈ locations :=
  (List.mergeSort_perm _ _).mem_iff

theorem DefinedAt.mem_definitions (h : t.DefinedAt name location) :
    location ∈ t.definitions name := by
  cases h with
  | macroDef hscript hobject hvisible => simp [definitions, hscript, hobject, hvisible]
  | site hscript hobject hvisible hrecord hscope =>
      simp only [definitions, hscript, hobject, hvisible, mem_sortLocations]
      exact List.mem_map_of_mem (List.mem_filter.mpr ⟨hrecord, by simpa using hscope⟩)

/-- Scripts and objects are defined at the starts of documents. -/
theorem mem_definitions_iff (hplace : ∀ uri, location ≠ .fileStart uri) :
    location ∈ t.definitions name ↔ t.DefinedAt name location := by
  refine ⟨fun h => ?_, DefinedAt.mem_definitions⟩
  unfold definitions at h
  split at h
  next script _ => exact absurd (List.mem_singleton.mp h) (hplace _)
  next object _ _ =>
      obtain ⟨uri, -, heq⟩ := List.mem_map.mp h
      exact absurd heq.symm (hplace uri)
  next record hscript hobject hvisible =>
      rw [List.mem_singleton.mp h]
      exact .macroDef hscript hobject hvisible
  next hscript hobject hvisible =>
      obtain ⟨record, hrecord, rfl⟩ := List.mem_map.mp (mem_sortLocations.mp h)
      obtain ⟨hsite, hscope⟩ := List.mem_filter.mp hrecord
      exact .site hscript hobject hvisible hsite (by simpa using hscope)

/-- A name that documents only declare for themselves has no place for all of them. -/
theorem not_definedAt (hvisible : t.visibleMacro? name = none)
    (hsites : ∀ record ∈ t.variableSites name, record.scope = .ofDocument) :
    ¬t.DefinedAt name location := by
  intro h
  cases h with
  | macroDef hscript hobject hfound =>
      rw [hvisible] at hfound
      cases hfound
  | site hscript hobject hnone hrecord hscope => exact hscope (hsites _ hrecord)

theorem FromTexts.declared_of_definedAt (h : t.FromTexts) (hdefined : t.DefinedAt name location) :
    ⟨name, .declaration, location⟩ ∈ t.scanUses name := by
  cases hdefined with
  | macroDef hscript hobject hvisible =>
      refine h.declared_of_macro ?_
      obtain ⟨definers, hdefiners, hhead⟩ := Option.bind_eq_some_iff.mp hvisible
      rw [listed, hdefiners]
      exact List.mem_of_mem_head? hhead
  | site hscript hobject hvisible hrecord hscope => exact h.declared_of_variable hrecord

/-- A use at the place of a definition is the one that declares the name there. -/
theorem FromTexts.mem_definitions_iff (h : t.FromTexts) {use : SymbolUse}
    (huse : use ∈ t.scanUses name) :
    use.location ∈ t.definitions name ↔
      use.kind = .declaration ∧ t.DefinedAt name use.location := by
  rw [SymbolTable.mem_definitions_iff (h.location_ne_fileStart huse)]
  refine ⟨fun hdefined => ⟨?_, hdefined⟩, And.right⟩
  have hdeclared := h.declared_of_definedAt hdefined
  have hsame := List.inj_on_of_nodup_map (h.locations_nodup name) huse hdeclared rfl
  rw [hsame]

/-- The uses of a name that are no definitions, sorted by document and place. -/
theorem Consistent.filter_references (h : t.Consistent) (keep : Location → Bool) :
    (t.references name).filter keep =
      sortLocations (((t.scanUses name).filter fun use => keep use.location).map (·.location)) := by
  refine eq_of_perm_of_sorted ((pairwise_references t name).filter keep)
    (pairwise_sortLocations _) ?_
  have hperm := (h.references_perm name).filter keep
  rw [List.filter_map] at hperm
  exact hperm.trans (List.mergeSort_perm _ _).symm

end SymbolTable

open SymbolTable (sortLocations)

namespace Server

variable {server : Server} {url : Url} {position : Position} {document : Document} {name : String}
  {span : Span}

theorem references?_false (hready : server.index.isReady = true)
    (hdocument : server.document? url = some document)
    (hname : document.nameAt? position = some (name, span)) :
    server.references? url position false = some (((server.index.table.references name).filter
      fun location => !(server.index.table.definitions name).contains location).filterMap
        Location.normal?) := by
  simp [references?, hdocument, hname, SymbolIndex.query, hready]

/-- What is found when the table is made from texts. -/
theorem exists_references (h : server.index.table.FromTexts)
    (hready : server.index.isReady = true) (hdocument : server.document? url = some document)
    (hname : document.nameAt? position = some (name, span)) :
    ∃ kept : List SymbolUse,
      (∀ use, use ∈ kept ↔ use ∈ server.index.table.scanUses name ∧
        ¬(use.kind = .declaration ∧ server.index.table.DefinedAt name use.location)) ∧
      (kept.map (·.location)).Nodup ∧
      server.references? url position false =
        some ((sortLocations (kept.map (·.location))).filterMap Location.normal?) := by
  rw [references?_false hready hdocument hname, h.consistent.filter_references]
  refine ⟨_, fun use => ?_, ?_, rfl⟩
  · rw [List.mem_filter]
    refine and_congr_right fun huse => ?_
    rw [← h.mem_definitions_iff huse]
    simp
  · exact (h.locations_nodup name).sublist (List.filter_sublist.map _)

/-- However contributions came from rounds of analysis, the references of a name without
definitions are all its uses but those that declare it where its visible macro or, without a
macro, a variable visible from everywhere is recorded. No two of the uses stand at the same
place. -/
theorem references_without_definitions {acts : List SymbolIndex.Act}
    (hacts : ∀ act ∈ acts, act.Sourced) (hindex : server.index = SymbolIndex.ofActs acts)
    (hready : server.index.isReady = true) (hdocument : server.document? url = some document)
    (hname : document.nameAt? position = some (name, span)) :
    ∃ kept : List SymbolUse,
      (∀ use, use ∈ kept ↔
        (use.name = name ∧
          ∃ uri c, server.index.table.contribution? uri = some c ∧ use ∈ c.uses) ∧
        ¬(use.kind = .declaration ∧ server.index.table.DefinedAt name use.location)) ∧
      (kept.map (·.location)).Nodup ∧
      server.references? url position false =
        some ((sortLocations (kept.map (·.location))).filterMap Location.normal?) := by
  have h : server.index.table.FromTexts := hindex ▸ SymbolIndex.fromTexts_ofActs hacts
  obtain ⟨kept, hmem, hkept⟩ := exists_references h hready hdocument hname
  refine ⟨kept, fun use => ?_, hkept⟩
  rw [hmem, SymbolTable.mem_scanUses_iff]

/-! ### One document -/

/-- A round of analysis of a text, after which the index is ready. -/
def singleRound (text : String) : List SymbolIndex.Act :=
  [.lint ⟨⟨"file:///a.gml", 1⟩, { uri := "file:///a.gml", kind := .other, text }, {}, .full⟩,
    .advance .ready]

theorem sourced_singleRound (text : String) : ∀ act ∈ singleRound text, act.Sourced := by
  intro act hact
  simp only [singleRound, List.mem_cons, List.not_mem_nil, or_false] at hact
  rcases hact with rfl | rfl
  · rfl
  · trivial

def onlyUrl : Url := { scheme := "file", authority := some {}, path := "/a.gml" }

def onlyDocument (text : String) : Document :=
  { url := onlyUrl, version := 1, content := text, kind := .other, isOpen := true }

/-- The server with one document, which was analysed. -/
def withText (text : String) : Server where
  documents := Table.empty.set onlyUrl.render (onlyDocument text)
  index := SymbolIndex.ofActs (singleRound text)
  waiting := none

theorem index_withText (text : String) :
    (withText text).index = SymbolIndex.ofActs (singleRound text) := by
  rw [withText]

theorem document?_withText (text : String) :
    (withText text).document? onlyUrl = some (onlyDocument text) := by
  rw [document?, withText, Table.get?_set, if_pos rfl]

theorem fromTexts_withText (text : String) : (withText text).index.table.FromTexts := by
  rw [index_withText]
  exact SymbolIndex.fromTexts_ofActs (sourced_singleRound text)

def threeLimits : String := "#macro LIMIT 3\na = LIMIT;\nb = LIMIT;\n"

/-- The definition of the macro is left out, and a use of it is found. -/
theorem macro_left_out :
    let server := withText threeLimits
    (∀ act ∈ singleRound threeLimits, act.Sourced) ∧ server.index.isReady = true ∧
      ∃ kept : List SymbolUse,
        server.references? onlyUrl ⟨1, 4⟩ false =
          some ((sortLocations (kept.map (·.location))).filterMap Location.normal?) ∧
        ⟨"LIMIT", .read, ⟨"file:///a.gml", ⟨1, 4⟩, ⟨1, 9⟩⟩⟩ ∈ kept ∧
        ⟨"LIMIT", .declaration, ⟨"file:///a.gml", ⟨0, 7⟩, ⟨0, 12⟩⟩⟩ ∉ kept := by
  intro server
  have hready : server.index.isReady = true := by decide +kernel
  have hname : (onlyDocument threeLimits).nameAt? ⟨1, 4⟩ = some ("LIMIT", ⟨19, 24⟩) := by
    decide +kernel
  obtain ⟨kept, hmem, -, hkept⟩ := references_without_definitions
    (sourced_singleRound threeLimits) (index_withText threeLimits) hready
    (document?_withText threeLimits) hname
  refine ⟨sourced_singleRound threeLimits, hready, kept, hkept, ?_, ?_⟩
  · exact (hmem _).mpr ⟨SymbolTable.mem_scanUses_iff.mp (by decide +kernel), nofun⟩
  · intro hdeclared
    have hvisible : server.index.table.visibleMacro? "LIMIT" =
        some ⟨"LIMIT", "3", ⟨"file:///a.gml", ⟨0, 7⟩, ⟨0, 12⟩⟩⟩ := by
      decide +kernel
    exact ((hmem _).mp hdeclared).2
      ⟨rfl, .macroDef (by decide +kernel) (by decide +kernel) hvisible⟩

def localTotal : String := "var total = 0;\ntotal += 1;\n"

/-- A variable of a document is found where the document declares it. -/
theorem local_declaration_found :
    let server := withText localTotal
    let declared : Location := ⟨"file:///a.gml", ⟨0, 4⟩, ⟨0, 9⟩⟩
    (∃ acts, (∀ act ∈ acts, act.Sourced) ∧ server.index = SymbolIndex.ofActs acts) ∧
      server.index.isReady = true ∧
      (∃ document, server.document? onlyUrl = some document ∧
        document.nameAt? ⟨1, 0⟩ = some ("total", ⟨15, 20⟩)) ∧
      (∃ uri c, server.index.table.contribution? uri = some c ∧
        ⟨"total", .declaration, declared⟩ ∈ c.uses) ∧
      ∃ locations, server.references? onlyUrl ⟨1, 0⟩ false = some locations ∧
        declared ∈ locations := by
  intro server declared
  have hready : server.index.isReady = true := by decide +kernel
  have hname : (onlyDocument localTotal).nameAt? ⟨1, 0⟩ = some ("total", ⟨15, 20⟩) := by
    decide +kernel
  have hdeclared : ⟨"total", .declaration, declared⟩ ∈ server.index.table.scanUses "total" := by
    decide +kernel
  have hundefined : ¬server.index.table.DefinedAt "total" declared :=
    SymbolTable.not_definedAt (by decide +kernel) (by decide +kernel)
  obtain ⟨kept, hmem, -, hkept⟩ := exists_references
    (fromTexts_withText localTotal) hready (document?_withText localTotal) hname
  refine ⟨⟨_, sourced_singleRound localTotal, index_withText localTotal⟩, hready,
    ⟨_, document?_withText localTotal, hname⟩, (SymbolTable.mem_scanUses_iff.mp hdeclared).2,
    _, hkept, ?_⟩
  have hfound := (hmem _).mpr ⟨hdeclared, fun hdefined => hundefined hdefined.2⟩
  refine List.mem_filterMap.mpr ⟨declared, ?_, ?_⟩
  · exact SymbolTable.mem_sortLocations.mpr (List.mem_map_of_mem (f := (·.location)) hfound)
  · decide +kernel

end Server

end Gml
