import Gml.Proofs.SymbolIndex.Commits
import Gml.Proofs.SymbolTable.Blocks
import Gml.Proofs.SymbolTable.Documents
import Gml.SymbolTable.Query

/-!
# Who owns a macro

The definers of a macro stand in blocks, one for each document, and the first block owns
the name. A document that is read again and still defines the macro keeps its place, a
new one goes to the end, and one that defines it no more leaves the others in order.
-/
namespace Gml.SymbolTable

variable {β : Type}

theorem listed_retain (table : Table (List β)) (keep : β → Bool) (name other : String) :
    listed (retain table keep name) other =
      if other = name then (listed table other).filter keep else listed table other := by
  unfold retain
  split
  next hnone =>
      split
      next heq => rw [heq, listed, hnone]; rfl
      next => rfl
  next records hsome =>
      split
      next hnil =>
          rw [listed_erase]
          split
          next heq => rw [heq, listed, hsome, Option.getD_some, hnil]
          next => rfl
      next kept hkept =>
          rw [listed_set]
          split
          next heq => rw [heq, listed, hsome, Option.getD_some]
          next => rfl

theorem listed_retainAll {γ : Type} (table : Table (List β)) (keep : β → Bool) (items : List γ)
    (nameOf : γ → String) (name : String) :
    listed (items.foldl (fun table item => retain table keep (nameOf item)) table) name =
      if items.any (nameOf · == name) then (listed table name).filter keep else listed table name := by
  induction items generalizing table with
  | nil => rfl
  | cons item rest ih =>
      rw [List.foldl_cons, ih, listed_retain, List.any_cons]
      by_cases hname : nameOf item = name
      · simp [hname, List.filter_filter]
      · simp [hname, Ne.symm hname]

theorem listed_appendAll (table : Table (List β)) (nameOf : β → String) (records : List β)
    (name : String) :
    listed (records.foldl (fun table record => append table (nameOf record) record) table) name =
      listed table name ++ records.filter (nameOf · == name) := by
  induction records generalizing table with
  | nil => rw [List.foldl_nil, List.filter_nil, List.append_nil]
  | cons record rest ih =>
      rw [List.foldl_cons, ih, append, listed_set, List.filter_cons]
      by_cases hname : nameOf record = name
      · simp [hname, listed]
      · simp [hname, Ne.symm hname]

theorem insertAt_eq_splice (slot : Nat) (record : β) (records : List β) :
    insertAt slot record records = splice slot [record] records := by
  fun_induction insertAt slot record records <;> simp_all [splice]

theorem splice_succ_splice {slot : Nat} {records : List β} (h : slot ≤ records.length)
    (first : β) (new : List β) :
    splice (slot + 1) new (splice slot [first] records) = splice slot (first :: new) records := by
  have hlength : (records.take slot).length = slot := by simp [h]
  have htake : (records.take slot).take (slot + 1) = records.take slot :=
    List.take_of_length_le (by omega)
  have hdrop : (records.take slot).drop (slot + 1) = [] := List.drop_of_length_le (by omega)
  simp [splice, List.take_append, List.drop_append, hlength, htake, hdrop]

/-- Where the next macro of a name goes. -/
def nextSlot (slots inserted : Table Nat) (name : String) (definers : List MacroRecord) : Nat :=
  match inserted.get? name with
  | some previous => previous + 1
  | none => min ((slots.get? name).getD definers.length) definers.length

theorem listed_installMacros (slots : Table Nat) (records : List MacroRecord)
    (inserted : Table Nat) (table : Table (List MacroRecord)) (name : String)
    (h : ∀ previous, inserted.get? name = some previous → previous < (listed table name).length) :
    listed (installMacros slots records inserted table) name =
      splice (nextSlot slots inserted name (listed table name))
        (records.filter (·.name == name)) (listed table name) := by
  induction records generalizing inserted table with
  | nil => rw [List.filter_nil, splice_nil]; rfl
  | cons record rest ih =>
      let slot := nextSlot slots inserted record.name (listed table record.name)
      have hstep : installMacros slots (record :: rest) inserted table =
          installMacros slots rest (inserted.set record.name slot)
            (table.set record.name (insertAt slot record (listed table record.name))) := rfl
      rw [hstep]
      by_cases hname : name = record.name
      · subst hname
        -- From the first record of a name on, each goes right behind the one before.
        have hslot : slot ≤ (listed table record.name).length := by
          simp only [slot, nextSlot]
          split
          next previous hprevious => exact h previous hprevious
          next => exact Nat.min_le_right _ _
        have hlisted : listed (table.set record.name (insertAt slot record
            (listed table record.name))) record.name = splice slot [record] (listed table record.name) := by
          rw [listed_set, if_pos rfl, insertAt_eq_splice]
        have hnext : nextSlot slots (inserted.set record.name slot) record.name
            (splice slot [record] (listed table record.name)) = slot + 1 := by
          rw [nextSlot, Table.get?_set, if_pos rfl]
        rw [ih, hlisted, hnext, splice_succ_splice hslot, List.filter_cons_of_pos (by simp)]
        intro previous hprevious
        rw [Table.get?_set, if_pos rfl] at hprevious
        cases hprevious
        rw [hlisted]
        simp [splice]
        omega
      · have hlisted : listed (table.set record.name (insertAt slot record
            (listed table record.name))) name = listed table name := by
          rw [listed_set, if_neg hname]
        have hinserted : (inserted.set record.name slot).get? name = inserted.get? name := by
          rw [Table.get?_set, if_neg hname]
        rw [ih, hlisted, nextSlot, hinserted, List.filter_cons_of_neg (by simpa using Ne.symm hname)]
        · rfl
        · rw [hlisted, hinserted]
          exact h

/-- Of the macros that are put in, the first of a name goes where this name has a slot. -/
theorem listed_installMacros_empty (slots : Table Nat) (records : List MacroRecord)
    (table : Table (List MacroRecord)) (name : String) :
    listed (installMacros slots records .empty table) name =
      splice (nextSlot slots .empty name (listed table name)) (records.filter (·.name == name))
        (listed table name) :=
  listed_installMacros slots records .empty table name nofun

/-- A replacement puts the new records into the lists that are left without the old ones. -/
theorem exists_replaceContribution_eq (t : SymbolTable) (uri : Uri) (c : Contribution) :
    ∃ slots contributions, (t.replaceContribution uri c).2 = { t.detach uri with
      macros := installMacros slots c.macros .empty (t.detach uri).macros
      declarations := c.declarations.foldl (fun table record => append table record.name record)
        (t.detach uri).declarations
      users := c.uses.foldl (fun table use => addOnce table use.name uri) (t.detach uri).users
      contributions := contributions } := by
  rw [replaceContribution]
  dsimp only
  split
  · exact ⟨_, _, rfl⟩
  · exact ⟨_, _, rfl⟩

/-! ### The blocks of a table -/

/-- The macros of a name that a document defines. -/
def macrosIn (t : SymbolTable) (name : String) (uri : Uri) : List MacroRecord :=
  ((t.contribution? uri).getD {}).macros.filter (·.name == name)

def declarationsIn (t : SymbolTable) (name : String) (uri : Uri) : List VariableRecord :=
  ((t.contribution? uri).getD {}).declarations.filter (·.name == name)

/-- The documents that define a macro, in the order in which they would own it. -/
def owners (t : SymbolTable) (name : String) : List Uri :=
  ((listed t.macros name).map (·.location.uri)).eraseDups

/-- The documents that declare a variable, in the order of its sites. -/
def declarers (t : SymbolTable) (name : String) : List Uri :=
  ((listed t.declarations name).map (·.location.uri)).eraseDups

structure InBlocks (t : SymbolTable) : Prop where
  macros : ∀ name, Blocks (·.location.uri) (t.macrosIn name) (t.owners name) (listed t.macros name)
  declarations : ∀ name,
    Blocks (·.location.uri) (t.declarationsIn name) (t.declarers name) (listed t.declarations name)

theorem inBlocks_empty : ({} : SymbolTable).InBlocks :=
  ⟨fun _ => .nil fun _ => rfl, fun _ => .nil fun _ => rfl⟩

theorem contribution?_getD_replaceContribution (t : SymbolTable) (uri other : Uri)
    (c : Contribution) :
    ((t.replaceContribution uri c).2.contribution? other).getD {} =
      if other = uri then c else (t.contribution? other).getD {} := by
  rw [contribution?_replaceContribution]
  split
  · rw [Contribution.stored]
    split
    next hempty => rw [Option.getD_none, Contribution.eq_empty_of_isEmpty hempty]
    next => rfl
  · rfl

theorem macrosIn_replaceContribution (t : SymbolTable) (name : String) (uri : Uri)
    (c : Contribution) :
    (t.replaceContribution uri c).2.macrosIn name =
      Function.update (t.macrosIn name) uri (c.macros.filter (·.name == name)) := by
  funext other
  rw [macrosIn, contribution?_getD_replaceContribution, Function.update_apply]
  split
  · rfl
  · rfl

theorem declarationsIn_replaceContribution (t : SymbolTable) (name : String) (uri : Uri)
    (c : Contribution) :
    (t.replaceContribution uri c).2.declarationsIn name =
      Function.update (t.declarationsIn name) uri (c.declarations.filter (·.name == name)) := by
  funext other
  rw [declarationsIn, contribution?_getD_replaceContribution, Function.update_apply]
  split
  · rfl
  · rfl

/-- Only a document with a block has records to take away. -/
theorem Blocks.listed_retainAll {ownerOf : β → Uri} {block : Uri → List β} {owners : List Uri}
    {table : Table (List β)} {name : String} (h : Blocks ownerOf block owners (listed table name))
    {γ : Type} (items : List γ) (nameOf : γ → String) {uri : Uri}
    (hitems : items.any (nameOf · == name) = false → block uri = []) :
    listed (items.foldl (fun table item => retain table (ownerOf · != uri) (nameOf item)) table)
        name = (listed table name).filter (ownerOf · != uri) := by
  rw [SymbolTable.listed_retainAll]
  split
  · rfl
  next hnone => rw [h.filter_ne_eq_self (hitems (by simpa using hnone))]

/-- Notes where a document stands among the definers of a macro. -/
def noteSlot (t : SymbolTable) (uri : Uri) (slots : Table Nat) (record : MacroRecord) : Table Nat :=
  match (listed t.macros record.name).findIdx? (·.location.uri == uri) with
  | some slot => slots.set record.name slot
  | none => slots

theorem get?_noteSlot (t : SymbolTable) (uri : Uri) (slots : Table Nat) (record : MacroRecord)
    (name : String) :
    (t.noteSlot uri slots record).get? name =
      if name = record.name then
        ((listed t.macros name).findIdx? (·.location.uri == uri)).or (slots.get? name)
      else slots.get? name := by
  unfold noteSlot
  split
  next slot hslot =>
      rw [Table.get?_set]
      split
      next heq => rw [heq, hslot, Option.some_or]
      next => rfl
  next hnone =>
      split
      next heq => rw [heq, hnone, Option.none_or]
      next => rfl

theorem get?_foldl_noteSlot (t : SymbolTable) (uri : Uri) (records : List MacroRecord)
    (slots : Table Nat) (name : String) :
    (records.foldl (t.noteSlot uri) slots).get? name =
      if records.any (·.name == name) then
        ((listed t.macros name).findIdx? (·.location.uri == uri)).or (slots.get? name)
      else slots.get? name := by
  induction records generalizing slots with
  | nil => rfl
  | cons record rest ih =>
      rw [List.foldl_cons, ih, get?_noteSlot, List.any_cons]
      by_cases hname : record.name = name
      · subst hname
        cases (listed t.macros record.name).findIdx? (·.location.uri == uri) <;> simp
      · simp [hname, Ne.symm hname]

theorem macrosIn_of_none {t : SymbolTable} {uri : Uri} (hnone : t.contributions.get? uri = none)
    (name : String) : t.macrosIn name uri = [] := by
  rw [macrosIn, contribution?, hnone]
  rfl

theorem macrosIn_of_some {t : SymbolTable} {uri : Uri} {c : Contribution}
    (hc : t.contributions.get? uri = some c) (name : String) :
    t.macrosIn name uri = c.macros.filter (·.name == name) := by
  rw [macrosIn, contribution?, hc]
  rfl

theorem declarationsIn_of_none {t : SymbolTable} {uri : Uri}
    (hnone : t.contributions.get? uri = none) (name : String) : t.declarationsIn name uri = [] := by
  rw [declarationsIn, contribution?, hnone]
  rfl

theorem declarationsIn_of_some {t : SymbolTable} {uri : Uri} {c : Contribution}
    (hc : t.contributions.get? uri = some c) (name : String) :
    t.declarationsIn name uri = c.declarations.filter (·.name == name) := by
  rw [declarationsIn, contribution?, hc]
  rfl

theorem filter_eq_nil_of_any {p : β → Bool} {records : List β} (h : records.any p = false) :
    records.filter p = [] := by
  rw [List.filter_eq_nil_iff]
  exact List.any_eq_false.mp h

namespace InBlocks

variable {t : SymbolTable}

theorem listed_detach_macros (h : t.InBlocks) (uri : Uri) (name : String) :
    listed (t.detach uri).macros name = (listed t.macros name).filter (·.location.uri != uri) := by
  rw [detach]
  split
  next hnone => rw [(h.macros name).filter_ne_eq_self (macrosIn_of_none hnone name)]
  next c hc =>
      refine Blocks.listed_retainAll (h.macros name) c.macros MacroRecord.name fun hnone => ?_
      rw [macrosIn_of_some hc, filter_eq_nil_of_any hnone]

theorem listed_detach_declarations (h : t.InBlocks) (uri : Uri) (name : String) :
    listed (t.detach uri).declarations name =
      (listed t.declarations name).filter (·.location.uri != uri) := by
  rw [detach]
  split
  next hnone => rw [(h.declarations name).filter_ne_eq_self (declarationsIn_of_none hnone name)]
  next c hc =>
      refine Blocks.listed_retainAll (h.declarations name) c.declarations VariableRecord.name
        fun hnone => ?_
      rw [declarationsIn_of_some hc, filter_eq_nil_of_any hnone]

theorem findIdx?_eq_none (h : t.InBlocks) {uri : Uri} {name : String}
    (hfree : t.macrosIn name uri = []) :
    (listed t.macros name).findIdx? (·.location.uri == uri) = none := by
  have hnone := Blocks.findIdx?_flatMap_eq_none (h.macros name).owned
    ((h.macros name).notMem_of_block_eq_nil hfree)
  rwa [← (h.macros name).eq] at hnone

theorem get?_macroSlots (h : t.InBlocks) {uri : Uri} {c : Contribution}
    (hc : t.contributions.get? uri = some c) (name : String) :
    (t.macroSlots uri c).get? name = (listed t.macros name).findIdx? (·.location.uri == uri) := by
  have heq : t.macroSlots uri c = c.macros.foldl (t.noteSlot uri) .empty := rfl
  rw [heq, get?_foldl_noteSlot]
  split
  · rw [Table.get?_empty, Option.or_none]
  next hnone =>
      have hfree : t.macrosIn name uri = [] := by
        rw [macrosIn_of_some hc, filter_eq_nil_of_any (by simpa using hnone)]
      rw [h.findIdx?_eq_none hfree, Table.get?_empty]

/-- The new macros go where the old ones of the document stood. -/
theorem exists_macroSlots (h : t.InBlocks) (uri : Uri) (c : Contribution) :
    ∃ slots : Table Nat,
      (∀ name, slots.get? name = (listed t.macros name).findIdx? (·.location.uri == uri)) ∧
      (t.replaceContribution uri c).2.macros =
        installMacros slots c.macros .empty (t.detach uri).macros := by
  rw [replaceContribution]
  cases hold : t.contributions.get? uri with
  | none =>
      refine ⟨.empty, fun name => ?_, ?_⟩
      · rw [h.findIdx?_eq_none (macrosIn_of_none hold name), Table.get?_empty]
      · dsimp only
        split
        · rfl
        · rfl
  | some old =>
      refine ⟨t.macroSlots uri old, h.get?_macroSlots hold, ?_⟩
      dsimp only
      split
      · rfl
      · rfl

theorem listed_macros_replaceContribution (h : t.InBlocks) (uri : Uri) (c : Contribution)
    (name : String) :
    listed (t.replaceContribution uri c).2.macros name =
      let kept := (listed t.macros name).filter (·.location.uri != uri)
      splice (min (((listed t.macros name).findIdx? (·.location.uri == uri)).getD kept.length)
        kept.length) (c.macros.filter (·.name == name)) kept := by
  obtain ⟨slots, hslots, hmacros⟩ := h.exists_macroSlots uri c
  rw [hmacros, listed_installMacros_empty, h.listed_detach_macros, nextSlot, Table.get?_empty,
    hslots]

theorem listed_declarations_replaceContribution (h : t.InBlocks) (uri : Uri) (c : Contribution)
    (name : String) :
    listed (t.replaceContribution uri c).2.declarations name =
      (listed t.declarations name).filter (·.location.uri != uri) ++
        c.declarations.filter (·.name == name) := by
  obtain ⟨slots, contributions, hreplaced⟩ := t.exists_replaceContribution_eq uri c
  rw [hreplaced, listed_appendAll _ VariableRecord.name, h.listed_detach_declarations]

theorem blocks_macros_replaceContribution (h : t.InBlocks) {uri : Uri} {c : Contribution}
    (hc : c.BelongsTo uri) (name : String) :
    Blocks (·.location.uri) ((t.replaceContribution uri c).2.macrosIn name)
      (if (c.macros.filter (·.name == name)).isEmpty then (t.owners name).filter (· != uri)
        else if uri ∈ t.owners name then t.owners name else t.owners name ++ [uri])
      (listed (t.replaceContribution uri c).2.macros name) := by
  rw [macrosIn_replaceContribution, h.listed_macros_replaceContribution]
  exact (h.macros name).replace uri fun record hrecord =>
    hc.macros record (List.mem_of_mem_filter hrecord)

theorem blocks_declarations_replaceContribution (h : t.InBlocks) {uri : Uri} {c : Contribution}
    (hc : c.BelongsTo uri) (name : String) :
    Blocks (·.location.uri) ((t.replaceContribution uri c).2.declarationsIn name)
      ((t.declarers name).filter (· != uri) ++
        if (c.declarations.filter (·.name == name)).isEmpty then [] else [uri])
      (listed (t.replaceContribution uri c).2.declarations name) := by
  rw [declarationsIn_replaceContribution, h.listed_declarations_replaceContribution]
  exact (h.declarations name).replaceLast uri fun record hrecord =>
    hc.declarations record (List.mem_of_mem_filter hrecord)

theorem owners_replaceContribution (h : t.InBlocks) {uri : Uri} {c : Contribution}
    (hc : c.BelongsTo uri) (name : String) :
    (t.replaceContribution uri c).2.owners name =
      if (c.macros.filter (·.name == name)).isEmpty then (t.owners name).filter (· != uri)
      else if uri ∈ t.owners name then t.owners name else t.owners name ++ [uri] :=
  (h.blocks_macros_replaceContribution hc name).eraseDups_map

theorem declarers_replaceContribution (h : t.InBlocks) {uri : Uri} {c : Contribution}
    (hc : c.BelongsTo uri) (name : String) :
    (t.replaceContribution uri c).2.declarers name =
      (t.declarers name).filter (· != uri) ++
        if (c.declarations.filter (·.name == name)).isEmpty then [] else [uri] :=
  (h.blocks_declarations_replaceContribution hc name).eraseDups_map

theorem replaceContribution (h : t.InBlocks) {uri : Uri} {c : Contribution}
    (hc : c.BelongsTo uri) : (t.replaceContribution uri c).2.InBlocks :=
  ⟨fun name => (h.blocks_macros_replaceContribution hc name).ofOwners,
    fun name => (h.blocks_declarations_replaceContribution hc name).ofOwners⟩

end InBlocks

theorem documentary_inBlocks : Documentary InBlocks where
  same {t t'} ht hsame := by
    have hmacros : t'.macrosIn = t.macrosIn := by
      funext name uri
      rw [macrosIn, macrosIn, contribution?, contribution?, hsame.contributions]
    have hdeclarations : t'.declarationsIn = t.declarationsIn := by
      funext name uri
      rw [declarationsIn, declarationsIn, contribution?, contribution?, hsame.contributions]
    refine ⟨fun name => ?_, fun name => ?_⟩
    · rw [hmacros, owners, hsame.macros]
      exact ht.macros name
    · rw [hdeclarations, declarers, hsame.declarations]
      exact ht.declarations name
  replaced ht hc := ht.replaceContribution hc

theorem inBlocks_ofEdits (edits : List Edit) : (ofEdits edits).InBlocks :=
  documentary_inBlocks.foldl_apply inBlocks_empty edits

theorem InBlocks.visibleMacro?_eq {t : SymbolTable} (h : t.InBlocks) (name : String) :
    t.visibleMacro? name =
      (t.owners name).head?.bind fun first => (t.macrosIn name first).head? := by
  rw [← (h.macros name).head?_eq, visibleMacro?, listed]
  cases t.macros.get? name with
  | none => rfl
  | some definers => rfl

theorem macrosIn_ne_nil_iff (t : SymbolTable) (name : String) (uri : Uri) :
    t.macrosIn name uri ≠ [] ↔
      ∃ c, t.contribution? uri = some c ∧ ∃ record ∈ c.macros, record.name = name := by
  rw [macrosIn, ne_eq, List.filter_eq_nil_iff]
  cases hc : t.contribution? uri with
  | none => simp
  | some c => simp

/-- The definers of a macro are the blocks of the documents that define it, each in the
order of its document, and the visible macro is the first one of the first document. A
document that is read again keeps its place as long as it defines the macro. -/
theorem macro_ownership (edits : List Edit) (name : String) (uri : Uri) (c : Contribution)
    (belongs : c.BelongsTo uri) :
    let t := ofEdits edits
    listed t.macros name = (t.owners name).flatMap (t.macrosIn name) ∧
      (t.owners name).Nodup ∧
      (∀ other, other ∈ t.owners name ↔
        ∃ c, t.contribution? other = some c ∧ ∃ record ∈ c.macros, record.name = name) ∧
      t.visibleMacro? name = (t.owners name).head?.bind (fun first => (t.macrosIn name first).head?) ∧
      (t.replaceContribution uri c).2.owners name =
        if c.macros.any (·.name == name) then
          if uri ∈ t.owners name then t.owners name else t.owners name ++ [uri]
        else (t.owners name).filter (· != uri) := by
  intro t
  have h := inBlocks_ofEdits edits
  have hblocks := h.macros name
  refine ⟨hblocks.eq, hblocks.nodup, ?_, ?_, ?_⟩
  · intro other
    rw [hblocks.mem_iff, macrosIn_ne_nil_iff]
  · exact h.visibleMacro?_eq name
  · rw [h.owners_replaceContribution belongs]
    have hempty : (c.macros.filter (·.name == name)).isEmpty = !c.macros.any (·.name == name) := by
      rw [Bool.eq_iff_iff]
      simp
    rw [hempty]
    cases c.macros.any (·.name == name) <;> rfl

/-- What a document says whose text is one definition of a macro. -/
def soleMacro (uri : Uri) (name value : String) : Contribution where
  macros := [⟨name, value, .fileStart uri⟩]

theorem soleMacro_belongsTo (uri : Uri) (name value : String) :
    (soleMacro uri name value).BelongsTo uri :=
  ⟨nofun, fun _ hrecord => by rw [List.mem_singleton.mp hrecord]; rfl, nofun⟩

/-- The edits after which the documents `b` and `a` define a macro, `b` first. -/
def rivals : List Edit :=
  [.replaceContribution "b" (soleMacro "b" "SPEED" "8") (soleMacro_belongsTo ..),
   .replaceContribution "a" (soleMacro "a" "SPEED" "4") (soleMacro_belongsTo ..)]

theorem owner_keeps_place_when_read_again :
    (soleMacro "b" "SPEED" "9").BelongsTo "b" ∧
      ((ofEdits rivals).replaceContribution "b" (soleMacro "b" "SPEED" "9")).2.owners "SPEED" =
        ["b", "a"] := by
  have belongs := soleMacro_belongsTo "b" "SPEED" "9"
  obtain ⟨-, -, -, -, howners⟩ := macro_ownership rivals "SPEED" "b" _ belongs
  refine ⟨belongs, ?_⟩
  rw [howners]
  decide +kernel

end Gml.SymbolTable
