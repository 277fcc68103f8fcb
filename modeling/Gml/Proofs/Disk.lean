import Gml.Proofs.Path
import Gml.Disk

/-!
# Disks that differ in one file

Where two disks differ in the text of one file and in nothing else, every path leads to the same
place on both, and all other texts are the same. This stays so when the same is written to both.
-/
namespace Gml

namespace DiskNode

variable {a b : DiskNode} {place names : List String} {name other : String} {node node' : DiskNode}
  {entries entries' : List (String × DiskNode)}

/-! ### One entry -/

theorem find_place (name : String) (node : DiskNode) (entries : List (String × DiskNode))
    (other : String) : Table.find other (DiskNode.place name node entries) =
      if other = name then some node else Table.find other entries := by
  induction entries with
  | nil =>
      by_cases h : name = other
      · simp [DiskNode.place, Table.find, h]
      · simp [DiskNode.place, Table.find, h, Ne.symm h]
  | cons entry rest ih =>
      obtain ⟨key, here⟩ := entry
      have hkeep : Table.find other ((key, here) :: rest) =
          if key = other then some here else Table.find other rest := rfl
      rw [DiskNode.place, hkeep]
      split
      next heq =>
          subst heq
          by_cases h : name = other
          · simp [Table.find, h]
          · simp [Table.find, h, Ne.symm h]
      next hne =>
          split
          · by_cases h : name = other
            · simp [Table.find, h]
            · simp [Table.find, h, Ne.symm h]
          · by_cases h : key = other
            · have hother : other ≠ name := fun heq => hne (heq.symm.trans h.symm)
              simp [Table.find, h, hother]
            · simp [Table.find, h, ih]

theorem map_fst_place (hkeys : entries'.map Prod.fst = entries.map Prod.fst) (name : String)
    (node node' : DiskNode) :
    (DiskNode.place name node' entries').map Prod.fst =
      (DiskNode.place name node entries).map Prod.fst := by
  induction entries generalizing entries' with
  | nil =>
      rw [List.map_eq_nil_iff.mp hkeys]
      rfl
  | cons entry rest ih =>
      obtain ⟨entry', rest', rfl, hkey, hrest⟩ := List.map_eq_cons_iff.mp hkeys
      obtain ⟨key, here⟩ := entry
      obtain ⟨key', here'⟩ := entry'
      dsimp only at hkey
      subst hkey
      rw [DiskNode.place, DiskNode.place]
      split
      · exact congrArg (name :: ·) hrest
      · split
        · exact congrArg (fun keys => name :: key' :: keys) hrest
        · exact congrArg (key' :: ·) (ih hrest)

/-! ### Two trees -/

/-- The same tree but for the text of the file at a place. -/
inductive SameBut : List String → DiskNode → DiskNode → Prop
  | file (text text' : Option String) : SameBut [] (.file text) (.file text')
  | directory {name : String} {place : List String} {node node' : DiskNode}
      {entries entries' : List (String × DiskNode)}
      (hkeys : entries'.map Prod.fst = entries.map Prod.fst)
      (hothers : ∀ other, other ≠ name → Table.find other entries' = Table.find other entries)
      (hnode : Table.find name entries = some node)
      (hnode' : Table.find name entries' = some node') (h : SameBut place node node') :
      SameBut (name :: place) (.directory entries) (.directory entries')

/-- What a node looks like without texts: nothing for a file, the names in a directory. -/
def shape : DiskNode → Option (List String)
  | .file _ => none
  | .directory entries => some (entries.map Prod.fst)

namespace SameBut

theorem shape_eq (h : SameBut place a b) : b.shape = a.shape := by
  cases h with
  | file => rfl
  | directory hkeys => exact congrArg some hkeys

/-- On the way to the place there are two trees of which the same can be said, and everywhere else
the trees are the same. -/
theorem find?_cases (h : SameBut place a b) (names : List String) :
    b.find? names = a.find? names ∨ ∃ rest below below', place = names ++ rest ∧
      a.find? names = some below ∧ b.find? names = some below' ∧ SameBut rest below below' := by
  induction h generalizing names with
  | file text text' =>
      cases names with
      | nil => exact .inr ⟨[], _, _, rfl, rfl, rfl, .file text text'⟩
      | cons name names => exact .inl rfl
  | @directory name place node node' entries entries' hkeys hothers hnode hnode' hbelow ih =>
      cases names with
      | nil =>
          exact .inr ⟨_, _, _, rfl, rfl, rfl, .directory hkeys hothers hnode hnode' hbelow⟩
      | cons first names =>
          by_cases hfirst : first = name
          · subst hfirst
            have hfind : (DiskNode.directory entries).find? (first :: names) = node.find? names := by
              rw [DiskNode.find?, DiskNode.entries, hnode, Option.bind_some]
            have hfind' : (DiskNode.directory entries').find? (first :: names) =
                node'.find? names := by
              rw [DiskNode.find?, DiskNode.entries, hnode', Option.bind_some]
            rw [hfind, hfind']
            rcases ih names with hsame | ⟨rest, below, below', hplace, hfound, hfound', hrest⟩
            · exact .inl hsame
            · exact .inr ⟨rest, below, below', by rw [hplace, List.cons_append], hfound, hfound',
                hrest⟩
          · refine .inl ?_
            rw [DiskNode.find?, DiskNode.find?, DiskNode.entries, DiskNode.entries,
              hothers first hfirst]

theorem find?_shape (h : SameBut place a b) (names : List String) :
    (b.find? names).map shape = (a.find? names).map shape := by
  rcases h.find?_cases names with hsame | ⟨rest, below, below', -, hfound, hfound', hrest⟩
  · rw [hsame]
  · rw [hfound, hfound', Option.map_some, Option.map_some, hrest.shape_eq]

/-- A file that is not at the place is the same in both trees. -/
theorem find?_eq_of_file (h : SameBut place a b) (hne : names ≠ place) {text : Option String} :
    b.find? names = some (.file text) ↔ a.find? names = some (.file text) := by
  rcases h.find?_cases names with hsame | ⟨rest, below, below', hplace, hfound, hfound', hrest⟩
  · rw [hsame]
  · rw [hfound, hfound']
    cases hrest with
    | file => exact absurd (hplace.trans (List.append_nil names)).symm hne
    | directory => exact iff_of_false nofun nofun

/-! ### Changes to both -/

/-- Another entry of the first directory is changed in both trees. -/
theorem place_other (h : SameBut (name :: place) (.directory entries) (.directory entries'))
    (hne : other ≠ name) (node : DiskNode) :
    SameBut (name :: place) (.directory (DiskNode.place other node entries))
      (.directory (DiskNode.place other node entries')) := by
  cases h with
  | directory hkeys hothers hnode hnode' hbelow =>
      refine .directory (map_fst_place hkeys other node node) (fun key hkey => ?_) ?_ ?_ hbelow
      · rw [find_place, find_place, hothers key hkey]
      · rw [find_place, if_neg (Ne.symm hne)]
        exact hnode
      · rw [find_place, if_neg (Ne.symm hne)]
        exact hnode'

/-- The entry on the way to the place is changed in both trees. -/
theorem place_same (h : SameBut (name :: place) (.directory entries) (.directory entries'))
    (hbelow : SameBut place node node') :
    SameBut (name :: place) (.directory (DiskNode.place name node entries))
      (.directory (DiskNode.place name node' entries')) := by
  cases h with
  | directory hkeys hothers =>
      refine .directory (map_fst_place hkeys name node node') (fun key hkey => ?_) ?_ ?_ hbelow
      · rw [find_place, find_place, if_neg hkey, if_neg hkey, hothers key hkey]
      · rw [find_place, if_pos rfl]
      · rw [find_place, if_pos rfl]

/-- What is below an entry is changed in both trees. -/
theorem change_below (h : SameBut (name :: place) (.directory entries) (.directory entries'))
    (first : String) {change : DiskNode → Option DiskNode}
    (hchange : ∀ {a b}, SameBut place a b → Option.Rel (SameBut place) (change a) (change b)) :
    Option.Rel (SameBut (name :: place))
      ((Table.find first entries).bind fun below => (change below).bind fun made =>
        some (.directory (DiskNode.place first made entries)))
      ((Table.find first entries').bind fun below => (change below).bind fun made =>
        some (.directory (DiskNode.place first made entries'))) := by
  by_cases hfirst : first = name
  · subst hfirst
    cases h with
    | @directory _ _ node node' _ _ hkeys hothers hnode hnode' hbelow =>
        rw [hnode, hnode', Option.bind_some, Option.bind_some]
        have hmade := hchange hbelow
        generalize change node = made at hmade ⊢
        generalize change node' = made' at hmade ⊢
        cases hmade with
        | none => exact .none
        | some hmade => exact .some (place_same (.directory hkeys hothers hnode hnode' hbelow) hmade)
  · have hsame : Table.find first entries' = Table.find first entries := by
      cases h with
      | directory _ hothers => exact hothers first hfirst
    rw [hsame]
    cases Table.find first entries with
    | none => exact .none
    | some below =>
        rw [Option.bind_some, Option.bind_some]
        cases change below with
        | none => exact .none
        | some made => exact .some (h.place_other hfirst made)

theorem makeDirectory? (h : SameBut place a b) (names : List String) :
    Option.Rel (SameBut place) (a.makeDirectory? names) (b.makeDirectory? names) := by
  induction names generalizing place a b with
  | nil => cases h <;> exact .none
  | cons first names ih =>
      cases h with
      | file => cases names <;> exact .none
      | @directory name place node node' entries entries' hkeys hothers hnode hnode' hbelow =>
          have hall : SameBut (name :: place) (.directory entries) (.directory entries') :=
            .directory hkeys hothers hnode hnode' hbelow
          cases names with
          | cons second names => exact hall.change_below first ih
          | nil =>
              unfold DiskNode.makeDirectory?
              by_cases hfirst : first = name
              · subst hfirst
                rw [hnode, hnode']
                exact .none
              · rw [hothers first hfirst]
                split
                · exact .none
                · exact .some (hall.place_other hfirst _)

theorem write? (h : SameBut place a b) (text : Option String) (names : List String) :
    Option.Rel (SameBut place) (a.write? text names) (b.write? text names) := by
  induction names generalizing place a b with
  | nil => cases h <;> exact .none
  | cons first names ih =>
      cases h with
      | file => cases names <;> exact .none
      | @directory name place node node' entries entries' hkeys hothers hnode hnode' hbelow =>
          have hall : SameBut (name :: place) (.directory entries) (.directory entries') :=
            .directory hkeys hothers hnode hnode' hbelow
          cases names with
          | cons second names => exact hall.change_below first ih
          | nil =>
              unfold DiskNode.write?
              by_cases hfirst : first = name
              · subst hfirst
                rw [hnode, hnode']
                cases hbelow with
                | file => exact .some (hall.place_same (.file text text))
                | directory => exact .none
              · rw [hothers first hfirst]
                split
                · exact .none
                · exact .some (hall.place_other hfirst _)

end SameBut

/-! ### Names without slashes -/

/-- No name in the tree has a slash in it. -/
inductive Plain : DiskNode → Prop
  | file (text : Option String) : Plain (.file text)
  | directory {entries : List (String × DiskNode)}
      (hnames : ∀ entry ∈ entries, '/' ∉ entry.1.toList)
      (hnodes : ∀ entry ∈ entries, Plain entry.2) : Plain (.directory entries)

theorem mem_place {entry : String × DiskNode}
    (h : entry ∈ DiskNode.place name node entries) : entry = (name, node) ∨ entry ∈ entries := by
  induction entries with
  | nil => exact .inl (List.mem_singleton.mp h)
  | cons first rest ih =>
      obtain ⟨key, here⟩ := first
      rw [DiskNode.place] at h
      split at h
      · rcases List.mem_cons.mp h with rfl | hrest
        · exact .inl rfl
        · exact .inr (List.mem_cons_of_mem _ hrest)
      · split at h
        · exact List.mem_cons.mp h
        · rcases List.mem_cons.mp h with rfl | hrest
          · exact .inr List.mem_cons_self
          · exact (ih hrest).imp_right (List.mem_cons_of_mem _)

theorem mem_of_find (h : Table.find name entries = some node) : (name, node) ∈ entries := by
  induction entries with
  | nil => cases h
  | cons first rest ih =>
      obtain ⟨key, here⟩ := first
      rw [Table.find] at h
      split at h
      next heq =>
          cases h
          rw [heq]
          exact List.mem_cons_self
      · exact List.mem_cons_of_mem _ (ih h)

namespace Plain

theorem single (hname : '/' ∉ name.toList) (hnode : node.Plain) :
    Plain (.directory [(name, node)]) :=
  .directory (List.forall_mem_singleton.mpr hname) (List.forall_mem_singleton.mpr hnode)

theorem put (h : Plain (.directory entries)) (hname : '/' ∉ name.toList) (hnode : node.Plain) :
    Plain (.directory (DiskNode.place name node entries)) := by
  cases h with
  | directory hnames hnodes =>
      refine .directory (fun entry hmem => ?_) fun entry hmem => ?_
      · rcases mem_place hmem with rfl | hold
        · exact hname
        · exact hnames entry hold
      · rcases mem_place hmem with rfl | hold
        · exact hnode
        · exact hnodes entry hold

theorem of_find (h : Plain (.directory entries)) (hfind : Table.find name entries = some node) :
    node.Plain := by
  cases h with
  | directory _ hnodes => exact hnodes _ (mem_of_find hfind)

theorem find? (h : a.Plain) (hfind : a.find? names = some b) : b.Plain := by
  induction names generalizing a with
  | nil =>
      cases hfind
      exact h
  | cons name names ih =>
      rw [DiskNode.find?] at hfind
      obtain ⟨node, hnode, hbelow⟩ := Option.bind_eq_some_iff.mp hfind
      cases a with
      | file => cases hnode
      | directory entries => exact ih (h.of_find hnode) hbelow

theorem makeDirectory? (h : a.Plain) (hnames : ∀ name ∈ names, '/' ∉ name.toList)
    (hmade : a.makeDirectory? names = some b) : b.Plain := by
  induction names generalizing a b with
  | nil => cases a <;> cases hmade
  | cons first names ih =>
      obtain ⟨hfirst, hrest⟩ := List.forall_mem_cons.mp hnames
      cases a with
      | file => cases names <;> cases hmade
      | directory entries =>
          cases names with
          | nil =>
              rw [DiskNode.makeDirectory?] at hmade
              split at hmade
              · cases hmade
              · cases hmade
                exact h.put hfirst (.directory nofun nofun)
          | cons second names =>
              obtain ⟨below, hbelow, hmade⟩ := Option.bind_eq_some_iff.mp hmade
              obtain ⟨made, hchanged, hmade⟩ := Option.bind_eq_some_iff.mp hmade
              cases hmade
              exact h.put hfirst (ih (h.of_find hbelow) hrest hchanged)

theorem write? (h : a.Plain) (hnames : ∀ name ∈ names, '/' ∉ name.toList)
    {text : Option String} (hmade : a.write? text names = some b) : b.Plain := by
  induction names generalizing a b with
  | nil => cases a <;> cases hmade
  | cons first names ih =>
      obtain ⟨hfirst, hrest⟩ := List.forall_mem_cons.mp hnames
      cases a with
      | file => cases names <;> cases hmade
      | directory entries =>
          cases names with
          | nil =>
              rw [DiskNode.write?] at hmade
              split at hmade
              · cases hmade
              · cases hmade
                exact h.put hfirst (.file text)
          | cons second names =>
              obtain ⟨below, hbelow, hmade⟩ := Option.bind_eq_some_iff.mp hmade
              obtain ⟨made, hchanged, hmade⟩ := Option.bind_eq_some_iff.mp hmade
              cases hmade
              exact h.put hfirst (ih (h.of_find hbelow) hrest hchanged)

end Plain

end DiskNode

/-! ### Paths -/

namespace Disk

open DiskNode (shape)

variable {disk disk' : Disk} {place names : List String} {path : String}

/-- The same disk but for the text of the file at a place. -/
def SameBut (place : List String) (disk disk' : Disk) : Prop := disk.root.SameBut place disk'.root

/-- No name on the disk has a slash in it. -/
def Plain (disk : Disk) : Prop := disk.root.Plain

/-! ### Where a path leads -/

theorem exists_of_bind_eq_ok {ε α β : Type} {x : Except ε α} {f : α → Except ε β} {b : β}
    (h : x >>= f = .ok b) : ∃ a, x = .ok a ∧ f a = .ok b := by
  cases x with
  | error e => cases h
  | ok a => exact ⟨a, rfl, h⟩

/-- Where a component leads to from a directory. -/
def follow (names : List String) : PathComponent → Except DiskError (List String)
  | .root => .ok []
  | .here => .ok names
  | .up => .ok names.dropLast
  | .normal name =>
      if name.utf8ByteSize ≤ longestName then .ok (names ++ [name]) else .error .refused

/-- A step depends on what the node looks like where it starts. -/
theorem step_eq_of_shape (disk : Disk) (names : List String) (component : PathComponent) :
    disk.step names component = match (disk.root.find? names).map shape with
      | none => .error .missing
      | some none => .error .refused
      | some (some _) => follow names component := by
  unfold step
  cases disk.root.find? names with
  | none => rfl
  | some node => cases node <;> cases component <;> rfl

theorem follow_of_step {component : PathComponent}
    (h : disk.step place component = .ok names) : follow place component = .ok names := by
  rw [step_eq_of_shape] at h
  split at h
  · cases h
  · cases h
  · exact h

/-- A step leads to names that were there or to that of its component. -/
theorem mem_of_follow {component : PathComponent} (h : follow place component = .ok names)
    {name : String} (hname : name ∈ names) : name ∈ place ∨ component = .normal name := by
  cases component with
  | root => cases h; cases hname
  | here => cases h; exact .inl hname
  | up => cases h; exact .inl ((List.dropLast_sublist _).subset hname)
  | normal last =>
      rw [follow] at h
      split at h
      · cases h
        exact (List.mem_append.mp hname).imp_right fun hlast => by rw [List.mem_singleton.mp hlast]
      · cases h

theorem mem_of_foldlM_step {components : List PathComponent}
    (h : components.foldlM disk.step place = .ok names) {name : String} (hname : name ∈ names) :
    name ∈ place ∨ .normal name ∈ components := by
  induction components generalizing place with
  | nil =>
      cases h
      exact .inl hname
  | cons component rest ih =>
      obtain ⟨next, hstep, hrest⟩ := exists_of_bind_eq_ok h
      rcases ih hrest with hnext | hlater
      · refine (mem_of_follow (follow_of_step hstep) hnext).imp_right fun heq => ?_
        rw [heq]
        exact List.mem_cons_self
      · exact .inr (List.mem_cons_of_mem component hlater)

theorem foldlM_of_resolve (h : disk.resolve path = .ok names) :
    (Path.components path).foldlM disk.step [] = .ok names := by
  unfold resolve at h
  split at h
  · exact h
  · cases h

/-- A path that ends in a name leads to an entry of this name, if it leads anywhere. -/
theorem getLast?_of_resolve (h : disk.resolve path = .ok names) {name : String}
    (hname : Path.fileName? path = some name) : names.getLast? = some name := by
  obtain ⟨front, hpath⟩ := List.getLast?_eq_some_iff.mp (Path.fileName?_eq_some_iff.mp hname)
  have hsteps := foldlM_of_resolve h
  rw [hpath, List.foldlM_append] at hsteps
  obtain ⟨directory, -, hrest⟩ := exists_of_bind_eq_ok hsteps
  rw [List.foldlM_cons] at hrest
  obtain ⟨found, hstep, hfound⟩ := exists_of_bind_eq_ok hrest
  cases hfound
  have hfollow := follow_of_step hstep
  rw [follow] at hfollow
  split at hfollow
  · cases hfollow
    exact List.getLast?_concat
  · cases hfollow

theorem slash_notMem_of_resolve (h : disk.resolve path = .ok names) :
    ∀ name ∈ names, '/' ∉ name.toList := by
  intro name hname
  rcases mem_of_foldlM_step (foldlM_of_resolve h) hname with hnone | hcomponent
  · cases hnone
  · exact Path.slash_notMem_of_mem_components hcomponent

/-! ### What is seen on both disks -/

namespace SameBut

theorem step_eq (h : SameBut place disk disk') (names : List String) (component : PathComponent) :
    disk'.step names component = disk.step names component := by
  rw [step_eq_of_shape, step_eq_of_shape, h.find?_shape]

theorem resolve_eq (h : SameBut place disk disk') (path : String) :
    disk'.resolve path = disk.resolve path := by
  have hstep : disk'.step = disk.step := funext fun names => funext (h.step_eq names)
  rw [resolve, resolve, hstep]

theorem node?_shape (h : SameBut place disk disk') (path : String) :
    (disk'.node? path).map shape = (disk.node? path).map shape := by
  rw [node?, node?, h.resolve_eq]
  cases disk.resolve path with
  | error e => rfl
  | ok names =>
      have hshape := h.find?_shape names
      have hfilter : ∀ found : Option DiskNode, (found.filter fun node =>
          node.isDirectory || !namesDirectory path).map shape =
          (found.map shape).filter fun shape => shape.isSome || !namesDirectory path := by
        rintro (_ | node)
        · rfl
        · cases node <;> cases namesDirectory path <;> rfl
      dsimp only
      rw [hfilter, hfilter, hshape]

theorem exists?_eq (h : SameBut place disk disk') (path : String) :
    disk'.exists? path = disk.exists? path := by
  have hshape := congrArg Option.isSome (h.node?_shape path)
  rwa [Option.isSome_map, Option.isSome_map] at hshape

/-- What is asked about the node at a path, if it does not depend on a text. -/
theorem map_node?_eq {α : Type} (h : SameBut place disk disk') (path : String)
    {f : DiskNode → α} {g : Option (List String) → α} (hf : ∀ node, f node = g (shape node)) :
    (disk'.node? path).map f = (disk.node? path).map f := by
  have hshape := congrArg (Option.map g) (h.node?_shape path)
  obtain rfl : f = g ∘ shape := funext hf
  rwa [Option.map_map, Option.map_map] at hshape

theorem isFile_eq (h : SameBut place disk disk') (path : String) :
    disk'.isFile path = disk.isFile path := by
  have hisFile : ∀ node : DiskNode, node.isFile = (shape node).isNone := by
    rintro (_ | _) <;> rfl
  rw [isFile, isFile, h.map_node?_eq path hisFile]

theorem isDirectory_eq (h : SameBut place disk disk') (path : String) :
    disk'.isDirectory path = disk.isDirectory path := by
  have hisDirectory : ∀ node : DiskNode, node.isDirectory = (shape node).isSome := by
    rintro (_ | _) <;> rfl
  rw [isDirectory, isDirectory, h.map_node?_eq path hisDirectory]

theorem list?_eq (h : SameBut place disk disk') (path : String) :
    disk'.list? path = disk.list? path := by
  have hlist : ∀ disk : Disk, disk.list? path = ((disk.node? path).map shape).join := by
    intro disk
    unfold list?
    rcases disk.node? path with _ | _ | _ <;> rfl
  rw [hlist, hlist, h.node?_shape]

/-- A text that is not at the place is the same on both disks. -/
theorem read?_eq (h : SameBut place disk disk') (hne : disk.resolve path ≠ .ok place) :
    disk'.read? path = disk.read? path := by
  have hfile : ∀ text, disk'.node? path = some (.file text) ↔
      disk.node? path = some (.file text) := by
    intro text
    rw [node?, node?, h.resolve_eq]
    cases hresolve : disk.resolve path with
    | error e => rfl
    | ok names =>
        have hnames : names ≠ place := by
          rintro rfl
          exact hne hresolve
        dsimp only
        rw [Option.filter_eq_some_iff, Option.filter_eq_some_iff, h.find?_eq_of_file hnames]
  unfold read?
  split
  next text hnode => rw [(hfile text).mp hnode]
  next hnone =>
      split
      next text hnode => exact absurd ((hfile text).mpr hnode) (hnone text)
      next => rfl

/-! ### Changes of both disks -/

theorem makeDirectory (h : SameBut place disk disk') (path : String) :
    (∃ e, disk.makeDirectory path = .error e ∧ disk'.makeDirectory path = .error e) ∨
      ∃ made made', disk.makeDirectory path = .ok made ∧ disk'.makeDirectory path = .ok made' ∧
        SameBut place made made' := by
  unfold Disk.makeDirectory
  rw [h.resolve_eq]
  cases disk.resolve path with
  | error e => exact .inl ⟨e, rfl, rfl⟩
  | ok names =>
      have hfound : (disk'.root.find? names).isSome = (disk.root.find? names).isSome := by
        have hshape := congrArg Option.isSome (h.find?_shape names)
        rwa [Option.isSome_map, Option.isSome_map] at hshape
      have hmade := DiskNode.SameBut.makeDirectory? h names
      dsimp only [bind, Except.bind]
      rw [hfound]
      split
      · exact .inl ⟨_, rfl, rfl⟩
      · split
        · exact .inl ⟨_, rfl, rfl⟩
        · generalize disk.root.makeDirectory? names = made at hmade ⊢
          generalize disk'.root.makeDirectory? names = made' at hmade ⊢
          cases hmade with
          | none => exact .inl ⟨_, rfl, rfl⟩
          | some hmade => exact .inr ⟨_, _, rfl, rfl, hmade⟩

theorem makeAll (h : SameBut place disk disk') (paths : List String) :
    (Disk.makeAll paths disk').1 = (Disk.makeAll paths disk).1 ∧
      SameBut place (Disk.makeAll paths disk).2 (Disk.makeAll paths disk').2 := by
  induction paths generalizing disk disk' with
  | nil => exact ⟨rfl, h⟩
  | cons path above ih =>
      unfold Disk.makeAll
      rcases h.makeDirectory path with ⟨e, hfailed, hfailed'⟩ | ⟨made, made', hmade, hmade', hsame⟩
      · rw [hfailed, hfailed']
        cases e with
        | refused => exact ⟨h.isDirectory_eq path, h⟩
        | missing =>
            obtain ⟨hthere, habove⟩ := ih h
            dsimp only
            generalize Disk.makeAll above disk = result at hthere habove ⊢
            generalize Disk.makeAll above disk' = result' at hthere habove ⊢
            obtain ⟨there, disk⟩ := result
            obtain ⟨there', disk'⟩ := result'
            dsimp only at hthere habove
            subst hthere
            cases there' with
            | false => exact ⟨rfl, habove⟩
            | true =>
                dsimp only
                rcases habove.makeDirectory path with
                  ⟨e, hfailed, hfailed'⟩ | ⟨made, made', hmade, hmade', hsame⟩
                · rw [hfailed, hfailed']
                  exact ⟨habove.isDirectory_eq path, habove⟩
                · rw [hmade, hmade']
                  exact ⟨rfl, hsame⟩
      · rw [hmade, hmade']
        exact ⟨rfl, hsame⟩

theorem write? (h : SameBut place disk disk') (path : String) (text : Option String) :
    Option.Rel (SameBut place) (disk.write? path text) (disk'.write? path text) := by
  unfold Disk.write?
  split
  · exact .none
  · rw [h.resolve_eq]
    cases disk.resolve path with
    | error e => exact .none
    | ok names =>
        have hwritten := DiskNode.SameBut.write? h text names
        dsimp only
        generalize disk.root.write? text names = written at hwritten ⊢
        generalize disk'.root.write? text names = written' at hwritten ⊢
        cases hwritten with
        | none => exact .none
        | some hwritten => exact .some hwritten

theorem save (h : SameBut place disk disk') (directory path : String) (text : Option String) :
    SameBut place (disk.save directory path text) (disk'.save directory path text) := by
  unfold Disk.save makeDirectories
  obtain ⟨hthere, hmade⟩ := h.makeAll (Path.ancestors directory)
  generalize Disk.makeAll (Path.ancestors directory) disk = result at hthere hmade ⊢
  generalize Disk.makeAll (Path.ancestors directory) disk' = result' at hthere hmade ⊢
  obtain ⟨there, disk⟩ := result
  obtain ⟨there', disk'⟩ := result'
  dsimp only at hthere hmade
  subst hthere
  cases there' with
  | false => exact hmade
  | true =>
      have hwritten := hmade.write? path text
      dsimp only
      generalize disk.write? path text = written at hwritten ⊢
      generalize disk'.write? path text = written' at hwritten ⊢
      cases hwritten with
      | none => exact hmade
      | some hwritten => exact hwritten

end SameBut

/-! ### Names without slashes stay so -/

namespace Plain

theorem slash_notMem (h : disk.Plain) (hlist : disk.list? path = some names) :
    ∀ name ∈ names, '/' ∉ name.toList := by
  unfold list? at hlist
  split at hlist
  next entries hnode =>
      cases hlist
      unfold node? at hnode
      split at hnode
      next place _ =>
          have hfound := h.find? (Option.filter_eq_some_iff.mp hnode).1
          cases hfound with
          | directory hnames => exact List.forall_mem_map.mpr hnames
      · cases hnode
  · cases hlist

theorem makeDirectory (h : disk.Plain) (hmade : disk.makeDirectory path = .ok disk') :
    disk'.Plain := by
  unfold Disk.makeDirectory at hmade
  obtain ⟨names, hresolve, hmade⟩ := exists_of_bind_eq_ok hmade
  split at hmade
  · cases hmade
  · split at hmade
    · cases hmade
    · split at hmade
      next root hroot =>
          cases hmade
          exact DiskNode.Plain.makeDirectory? h (slash_notMem_of_resolve hresolve) hroot
      · cases hmade

theorem makeAll (h : disk.Plain) (paths : List String) : (Disk.makeAll paths disk).2.Plain := by
  induction paths generalizing disk with
  | nil => exact h
  | cons path above ih =>
      unfold Disk.makeAll
      split
      next made hmade => exact h.makeDirectory hmade
      · exact h
      · have habove := ih h
        split
        next disk hresult =>
            rw [hresult] at habove
            exact habove
        next disk hresult =>
            rw [hresult] at habove
            split
            next made hmade => exact habove.makeDirectory hmade
            · exact habove

theorem write? (h : disk.Plain) {text : Option String}
    (hwritten : disk.write? path text = some disk') : disk'.Plain := by
  unfold Disk.write? at hwritten
  split at hwritten
  · cases hwritten
  · split at hwritten
    next names hresolve =>
        obtain ⟨root, hroot, rfl⟩ := Option.map_eq_some_iff.mp hwritten
        exact DiskNode.Plain.write? h (slash_notMem_of_resolve hresolve) hroot
    · cases hwritten

theorem save (h : disk.Plain) (directory path : String) (text : Option String) :
    (disk.save directory path text).Plain := by
  have hmade := h.makeAll (Path.ancestors directory)
  unfold Disk.save makeDirectories
  split
  next disk hresult =>
      rw [hresult] at hmade
      cases hwritten : disk.write? path text with
      | none => exact hmade
      | some written => exact hmade.write? hwritten
  next disk hresult =>
      rw [hresult] at hmade
      exact hmade

end Plain

end Disk

end Gml
