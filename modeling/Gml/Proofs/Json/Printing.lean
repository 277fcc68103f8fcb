import Gml.Proofs.Json.Grammar

/-!
# What is printed can be read

Both layouts write a value in a way that the reader knows. A value that is printed and read
again is the same, provided its numbers are natural ones and its strings are texts.
-/
namespace Gml.Json

mutual

/-- A value whose numbers are natural ones and whose strings are texts. -/
def Plain : Json → Prop
  | .number _ => False
  | .str s => s.isSome = true
  | .arr items => PlainItems items
  | .obj members => PlainMembers members
  | .null | .bool _ | .natural _ => True

def PlainItems : List Json → Prop
  | [] => True
  | item :: items => item.Plain ∧ PlainItems items

def PlainMembers : List (Option String × Json) → Prop
  | [] => True
  | (name, value) :: members => name.isSome = true ∧ value.Plain ∧ PlainMembers members

end

theorem quote_append (s : String) (rest : List Char) :
    quote (some s) ++ rest = '"' :: (s.toList.flatMap escapeChar ++ '"' :: rest) := by
  change ('"' :: s.toList.flatMap escapeChar ++ ['"']) ++ rest = _
  rw [List.append_assoc, List.cons_append, List.singleton_append]

mutual

theorem writes_compactOnto (value : Json) (h : value.Plain) (rest : List Char) :
    Writes (compactOnto value rest) value rest := by
  match value with
  | .null => exact .null
  | .bool true => exact .ofTrue
  | .bool false => exact .ofFalse
  | .natural n =>
      rw [compactOnto, scalar, Nat.toList_repr]
      exact .natural n
  | .number text => cases h
  | .str none => cases h
  | .str (some s) =>
      rw [compactOnto, scalar, quote_append]
      exact .text s
  | .arr [] => exact .emptyArr (.refl _)
  | .arr (item :: items) =>
      exact .arr (.refl _) (writes_compactItems (item :: items) nofun h rest)
  | .obj [] => exact .emptyObj (.refl _)
  | .obj (member :: members) =>
      exact .obj (.refl _) (writes_compactMembers (member :: members) nofun h rest)

theorem writes_compactItems (items : List Json) (hne : items ≠ []) (h : PlainItems items)
    (rest : List Char) : WritesItems (compactItems items (']' :: rest)) items rest := by
  match items with
  | [] => exact absurd rfl hne
  | [item] => exact .last (writes_compactOnto item h.1 _) (.refl _)
  | item :: next :: items =>
      exact .more (writes_compactOnto item h.1 _) (.refl _) (.refl _)
        (writes_compactItems (next :: items) nofun h.2 rest)

theorem writes_compactMembers (members : List (Option String × Json)) (hne : members ≠ [])
    (h : PlainMembers members) (rest : List Char) :
    WritesMembers (compactMembers members ('\x7d' :: rest)) members rest := by
  match members with
  | [] => exact absurd rfl hne
  | (none, value) :: _ => cases h.1
  | [(some name, value)] =>
      rw [compactMembers, quote_append]
      exact .last (literal_escaped name) (.refl _) (.refl _) (writes_compactOnto value h.2.1 _)
        (.refl _)
  | (some name, value) :: next :: members =>
      rw [compactMembers, quote_append]
      · exact .more (literal_escaped name) (.refl _) (.refl _) (writes_compactOnto value h.2.1 _)
          (.refl _) (.refl _) (writes_compactMembers (next :: members) nofun h.2.2 rest)
      · exact nofun

end

theorem gap_replicate (count : Nat) (rest : List Char) :
    Gap (List.replicate count ' ' ++ rest) rest := by
  induction count with
  | zero => exact .refl _
  | succ count ih => exact .space rfl ih

theorem gap_newline (level : Nat) (rest : List Char) : Gap (newline level ++ rest) rest :=
  .space rfl (gap_replicate _ rest)

theorem gap_colon (rest : List Char) : Gap (' ' :: rest) rest := .space rfl (.refl rest)

mutual

theorem writes_indentOnto (level : Nat) (value : Json) (h : value.Plain) (rest : List Char) :
    Writes (indentOnto level value rest) value rest := by
  match value with
  | .null => exact .null
  | .bool true => exact .ofTrue
  | .bool false => exact .ofFalse
  | .natural n =>
      rw [indentOnto, scalar, Nat.toList_repr]
      exact .natural n
  | .number text => cases h
  | .str none => cases h
  | .str (some s) =>
      rw [indentOnto, scalar, quote_append]
      exact .text s
  | .arr [] => exact .emptyArr (.refl _)
  | .arr (item :: items) =>
      exact .arr (gap_newline _ _)
        (writes_indentItems level items h.2 rest (writes_indentOnto (level + 1) item h.1 _))
  | .obj [] => exact .emptyObj (.refl _)
  | .obj ((none, value) :: members) => cases h.1
  | .obj ((some name, value) :: members) =>
      rw [indentOnto, List.cons_append, List.cons_append, List.append_assoc]
      exact .obj (gap_newline _ _) (writes_indentMembers level members h.2.2 rest name
        (writes_indentOnto (level + 1) value h.2.1 _))

/-- The items behind a first one, which is already written. -/
theorem writes_indentItems (level : Nat) (items : List Json) (h : PlainItems items)
    (rest : List Char) {first : Json} {cs : List Char}
    (hfirst : Writes cs first (indentItems level items (newline level ++ ']' :: rest))) :
    WritesItems cs (first :: items) rest := by
  match items with
  | [] => exact .last hfirst (gap_newline _ _)
  | item :: items =>
      exact .more hfirst (.refl _) (gap_newline _ _)
        (writes_indentItems level items h.2 rest (writes_indentOnto (level + 1) item h.1 _))

theorem writes_indentMembers (level : Nat) (members : List (Option String × Json))
    (h : PlainMembers members) (rest : List Char) (firstName : String) {first : Json}
    {cs : List Char}
    (hfirst : Writes cs first (indentMembers level members (newline level ++ '\x7d' :: rest))) :
    WritesMembers (quote (some firstName) ++ ':' :: ' ' :: cs) ((some firstName, first) :: members)
      rest := by
  rw [quote_append]
  match members with
  | [] => exact .last (literal_escaped firstName) (.refl _) (gap_colon _) hfirst (gap_newline _ _)
  | (none, value) :: members => cases h.1
  | (some name, value) :: members =>
      rw [indentMembers, List.append_assoc] at hfirst
      exact .more (literal_escaped firstName) (.refl _) (gap_colon _) hfirst (.refl _)
        (gap_newline _ _) (writes_indentMembers level members h.2.2 rest name
          (writes_indentOnto (level + 1) value h.2.1 _))

end

theorem read?_compact {value : Json} (h : value.Plain) : read? value.compact = some value := by
  refine read?_of_writes (.refl _) ?_ (.refl [])
  rw [compact, String.toList_ofList]
  exact writes_compactOnto value h []

theorem read?_indented {value : Json} (h : value.Plain) : read? value.indented = some value := by
  refine read?_of_writes (.refl _) ?_ (.refl [])
  rw [indented, String.toList_ofList]
  exact writes_indentOnto 0 value h []

end Gml.Json
