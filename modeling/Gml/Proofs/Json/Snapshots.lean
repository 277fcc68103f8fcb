import Gml.Proofs.Json.Records
import Gml.SymbolTable.Snapshot

/-!
# Snapshots and manuals survive the disk

What is kept on disk is read back as it was. A snapshot that a session can write has
positions and numbers of arguments of the usual width, and no object names an event twice.
-/
namespace Gml

open Json

theorem SnapshotFile.hash_codes : Codes hashToJson hashOfJson? fun _ => True where
  plain hash := plain_natural hash.toNat
  decode_iff hash q := by
    have hlt : hash.toNat < Numeral.limit64 := hash.toNat_lt
    simp [hashOfJson?, hashToJson, natBelow?, hlt]

theorem SnapshotFile.codes : Codes SnapshotFile.toJson ofJson? (·.contribution.Fits) where
  plain f := by
    obtain ⟨uri, contentHash, contribution⟩ := f
    cases contentHash <;> simp [toJson, hash_codes.plain, (Contribution.codes).plain]
  decode_iff f q := by
    obtain ⟨uri, contentHash, contribution⟩ := f
    cases contentHash <;>
      rw [ofJson?, toJson, fields?_object (by simp) (by simp)] <;>
      simp [List.lookup_cons, Option.bind_eq_some_iff, Codes.text.decode_iff,
        hash_codes.nullable_iff nofun, (Contribution.codes).decode_iff, and_assoc]

namespace Snapshot

/-- The numbers of a snapshot have the width that the reader expects. -/
def Fits (s : Snapshot) : Prop :=
  s.version < Numeral.limit32 ∧ (∀ script ∈ s.scripts, script.Fits) ∧
    ∀ file ∈ s.files, file.contribution.Fits

theorem plain_toJson (s : Snapshot) : s.toJson.Plain := by
  simp [toJson, (ScriptRecord.codes).plain, ObjectRecord.plain_toJson, (SnapshotFile.codes).plain]

theorem ofJson?_toJson (s q : Snapshot) :
    ofJson? s.toJson = some q ↔ s.Fits ∧ { s with objects := s.objects.map ObjectRecord.once } = q := by
  have hobjects : list? ObjectRecord.ofJson? (.arr (s.objects.map ObjectRecord.toJson))
      = some (s.objects.map ObjectRecord.once) := by
    rw [list?]
    induction s.objects with
    | nil => rfl
    | cons object objects ih => simp [ObjectRecord.ofJson?_toJson, ih]
  rw [ofJson?, toJson, fields?_object (by simp) (by simp)]
  simp [List.lookup_cons, Option.bind_eq_some_iff, Codes.text.decode_iff,
    (Codes.natural _).decode_iff, (ScriptRecord.codes).list.decode_iff, hobjects,
    (SnapshotFile.codes).list.decode_iff, Fits, and_assoc]

theorem decode_render {s q : Snapshot} :
    decode s.render = .ok q ↔ s.Fits ∧ { s with objects := s.objects.map ObjectRecord.once } = q := by
  rw [← ofJson?_toJson, decode, render, read?_compact s.plain_toJson, Option.bind_some]
  cases ofJson? s.toJson with
  | none => simp
  | some decoded => simp

end Snapshot

theorem Manual.read_render (m : Manual) : read m.render = m.nonempty := by
  rw [read, render, read?_indented (Manual.codes.plain m), Option.bind_some,
    (Manual.codes.decode_iff m m).mpr ⟨trivial, rfl⟩]

/-- A snapshot of the current layout and a manual with entries are read back from disk
as they were. -/
theorem kept_forms_read_back :
    (∀ s : Snapshot, s.version = Snapshot.currentVersion → s.Fits →
      (∀ object ∈ s.objects, object.eventUris.Nodup) → Snapshot.read s.render = .ok s) ∧
    ∀ m : Manual, m.isEmpty = false → Manual.read m.render = .ok m := by
  refine ⟨fun s hversion hfits hevents => ?_, fun m hm => ?_⟩
  · have honce : s.objects.map ObjectRecord.once = s.objects := by
      conv_rhs => rw [← List.map_id s.objects]
      exact List.map_congr_left fun object hobject => ObjectRecord.once_eq (hevents object hobject)
    rw [Snapshot.read, Snapshot.decode_render.mpr ⟨hfits, rfl⟩, honce]
    exact if_pos hversion
  · rw [Manual.read_render, Manual.nonempty, hm, if_neg Bool.false_ne_true]

/-- A game with a documented script, an object with two events, and a document of which
only the hash is known beside one with a quoted macro. -/
def Snapshot.sample : Snapshot where
  version := 1
  hasher := "fx"
  scripts := [{
    name := "scr_move"
    uri := "file:///scr_move.gml"
    signature := some (Signature.ofParameters "scr_move" [⟨"x", some "real", none, true⟩] true)
    doc := some "Moves \"it\".\n" }]
  objects := [⟨"obj_player", ["file:///Create_0.gml", "file:///Step_0.gml"]⟩]
  files := [
    { uri := "file:///Step_0.gml", contentHash := some 18446744073709551615 },
    { uri := "file:///scr_move.gml"
      contribution := { macros := [⟨"Ω", "\"\\\"", ⟨"file:///scr_move.gml", ⟨0, 7⟩, ⟨0, 8⟩⟩⟩] } }]

def Manual.sample : Manual where
  functions := [⟨"move", [⟨"x", none, some "where", false⟩], true, "", none⟩]
  vars := [⟨"room_speed", "steps\tper second"⟩]

theorem samples_read_back :
    Snapshot.read Snapshot.sample.render = .ok Snapshot.sample ∧
      Manual.read Manual.sample.render = .ok Manual.sample := by
  refine ⟨kept_forms_read_back.1 Snapshot.sample rfl ⟨by decide, ?_, ?_⟩ (by decide),
    kept_forms_read_back.2 Manual.sample rfl⟩
  · simp [Snapshot.sample, ScriptRecord.Fits, Signature.Fits, Signature.ofParameters, Numeral.limit64]
  · simp [Snapshot.sample, Contribution.Fits, Location.Fits, Position.Fits, Numeral.limit32]

end Gml
