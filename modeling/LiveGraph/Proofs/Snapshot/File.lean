import LiveGraph.Proofs.Files
import LiveGraph.Proofs.Json.RoundTrip
import LiveGraph.Proofs.Packed.RoundTrip
import LiveGraph.Snapshot.File

/-!
# Snapshots are loaded as saved

In both encodings a snapshot is read back from what was written of it, as long as that is not too large. Where a
snapshot could be loaded, any can be saved, and is loaded from there again. A file that is converted to JSON and
back is the packed form of the same snapshot.
-/

namespace LiveGraph

namespace Json

theorem list?_map {α : Type} {item : Json → Option α} {f : α → Json} (h : ∀ x, item (f x) = some x) (l : List α) :
    list? item (.arr (l.map f)) = some l := by
  rw [list?, List.mapM_map]
  induction l with
  | nil => rfl
  | cons x rest ih =>
    rw [List.mapM_cons, Function.comp_apply, h, ih]
    rfl

theorem itemsSound_map {α : Type} {f : α → Json} (h : ∀ x, (f x).Sound) (l : List α) : ItemsSound (l.map f) := by
  induction l with
  | nil => exact trivial
  | cons x rest ih => exact ⟨h x, ih⟩

end Json

theorem Value.ofJson?_toJson (v : Value) : Value.ofJson? v.toJson = some v := by
  cases v with
  | nil => rfl
  | bool b => rfl
  | int i =>
    have hrange : Text.inInt64 i.toInt = true := by
      have hlow := i.le_toInt
      have hhigh := i.toInt_lt
      simp only [Text.inInt64, Bool.and_eq_true, decide_eq_true_eq]
      omega
    change (if Text.inInt64 i.toInt then some (Value.int (Int64.ofInt i.toInt)) else none) = _
    rw [if_pos hrange, Int64.ofInt_toInt]
  | str s => rfl

theorem Value.sound_toJson (v : Value) : v.toJson.Sound := by
  cases v with
  | nil => exact trivial
  | bool b => exact ⟨rfl, trivial, trivial⟩
  | int i =>
    have hlow := i.le_toInt
    have hhigh := i.toInt_lt
    exact ⟨rfl, ⟨by omega, by omega⟩, trivial⟩
  | str s => exact ⟨rfl, trivial, trivial⟩

theorem propertyOfJson?_propertyToJson (p : String × Value) : propertyOfJson? (propertyToJson p) = some p := by
  change (Value.ofJson? p.2.toJson).map (p.1, ·) = some p
  rw [p.2.ofJson?_toJson]
  rfl

theorem sound_propertyToJson (p : String × Value) : (propertyToJson p).Sound :=
  ⟨trivial, p.2.sound_toJson, trivial⟩

theorem EntitySpec.ofJson?_toJson (s : EntitySpec) : EntitySpec.ofJson? s.toJson = some s := by
  have hprops := Json.list?_map propertyOfJson?_propertyToJson s.props
  simp [EntitySpec.ofJson?, EntitySpec.toJson, Json.record, Json.fields?, Json.member?, Json.text?, hprops]

theorem EntitySpec.sound_toJson (s : EntitySpec) : s.toJson.Sound :=
  ⟨rfl, trivial, rfl, trivial, rfl, Json.itemsSound_map sound_propertyToJson s.props, trivial⟩

theorem Edge.ofJson?_toJson (e : Edge) : Edge.ofJson? e.toJson = some e := by
  simp [Edge.ofJson?, Edge.toJson, Json.record, Json.fields?, Json.member?, Json.text?]

theorem Edge.sound_toJson (e : Edge) : e.toJson.Sound :=
  ⟨rfl, trivial, rfl, trivial, rfl, trivial, trivial⟩

namespace Snapshot

theorem ofJson?_toJson (s : Snapshot) : ofJson? s.toJson = some s := by
  have hentities := Json.list?_map EntitySpec.ofJson?_toJson s.entities
  have hedges := Json.list?_map Edge.ofJson?_toJson s.edges
  have hfocus := Json.list?_map (show ∀ x, Json.text? (.str x) = some x from fun _ ↦ rfl) s.focus
  simp [ofJson?, toJson, Json.record, Json.fields?, Json.member?, Json.ofStrings, hentities, hedges, hfocus]

theorem sound_toJson (s : Snapshot) : s.toJson.Sound :=
  ⟨rfl, Json.itemsSound_map EntitySpec.sound_toJson s.entities, rfl, Json.itemsSound_map Edge.sound_toJson s.edges,
    rfl, Json.itemsSound_map (show ∀ t, (Json.str t).Sound from fun _ ↦ trivial) s.focus, trivial⟩

/-- A text is read back from its bytes. -/
theorem text?_bytesOf (t : String) : (Bytes.ofList (Packed.bytesOf t)).text? = some t := by
  have hbytes : (⟨(Packed.bytesOf t).toArray⟩ : ByteArray) = t.toUTF8 := rfl
  change String.fromUTF8? ⟨(Packed.bytesOf t).toArray⟩ = _
  rw [hbytes, String.toUTF8_eq_toByteArray, String.fromUTF8?, dif_pos t.isValidUTF8]
  rfl

/-- What is written in JSON is read back. -/
theorem readJson_write (s : Snapshot) : readJson (.ofList (Packed.bytesOf s.toJson.write)) = .ok s := by
  rw [readJson, text?_bytesOf, Option.bind_some, Json.parse?_of_sound s.sound_toJson, Option.bind_some, ofJson?_toJson]

/-- What is written packed is read back, as long as it is not too large. -/
theorem read_packed (s : Snapshot) (h : (Packed.write s).length ≤ maxSnapshotSize) :
    Packed.read (.ofList (Packed.write s)) = .ok s := by
  have hb : (Bytes.ofList (Packed.write s)).toList = Packed.Header.current.toList ++ Packed.payload s :=
    List.append_nil _
  have hsize : (Bytes.ofList (Packed.write s)).size ≤ maxSnapshotSize := h
  have hfits : Packed.SnapshotFits s := by
    apply Packed.snapshotFits_of_length
    rw [Packed.write, List.length_append] at h
    have hmax : maxSnapshotSize < 2 ^ 64 := by decide
    omega
  have hdrop := Packed.drop_header hb
  obtain ⟨b', hread, -⟩ := (Packed.reads_payload s).read hfits _ [] (by rw [hdrop, List.append_nil])
  rw [Packed.read_of_header hb hsize, hread]

end Snapshot

/-- In either encoding what is written is read back, as long as it is not too large. -/
theorem Encoding.decode_write (encoding : Encoding) (s : Snapshot) (h : (encoding.write s).size ≤ maxSnapshotSize) :
    Snapshot.decode encoding (encoding.write s) = .ok s := by
  cases encoding with
  | packed => exact s.read_packed h
  | json => exact s.readJson_write

namespace Snapshot

variable {files : Files} {path : String} {s : Snapshot}

/-- What is loaded was found as a file. -/
theorem find_of_load (h : load files path = .ok s) : ∃ content, files.find path = .ok (.file content) := by
  unfold load at h
  split at h
  · exact absurd h (by simp)
  · exact absurd h (by simp)
  · rename_i content hfind
    exact ⟨content, hfind⟩

/-- At a path to write to any snapshot can be saved. -/
theorem save_of_writable (h : files.Writable path) (s : Snapshot) :
    s.save files path = .ok (files.put (Files.nameOf path) ((Encoding.ofPath path).write s)) := by
  rw [save, h.write_eq]
  rfl

/-- Where a snapshot could be loaded, any can be saved, and no other file is changed. -/
theorem save_of_load (h : load files path = .ok s) (s' : Snapshot) : ∃ files', s'.save files path = .ok files' ∧
    files'.find path = .ok (.file ((Encoding.ofPath path).write s')) ∧
    ∀ path', Files.nameOf path' ≠ Files.nameOf path → files'.find path' = files.find path' := by
  obtain ⟨content, hfind⟩ := find_of_load h
  have hwritable := Files.writable_of_find hfind
  exact ⟨files.put (Files.nameOf path) ((Encoding.ofPath path).write s'), save_of_writable hwritable s',
    hwritable.find_put _, fun path' hne ↦ Files.find_put_of_ne hfind _ hne⟩

/-- What was saved is loaded, as long as it is not too large. -/
theorem load_of_find (h : files.find path = .ok (.file ((Encoding.ofPath path).write s)))
    (hsize : ((Encoding.ofPath path).write s).size ≤ maxSnapshotSize) : load files path = .ok s := by
  rw [load, h]
  simp only [Nat.not_lt.mpr hsize, if_false, Encoding.decode_write (Encoding.ofPath path) s hsize]
  rfl

/-- A file is converted by loading it and saving what was loaded at another path. -/
def convert (files : Files) (source path : String) : Except Fault Files :=
  (load files source).bind fun s ↦ s.save files path

theorem convert_of_load {source : String} (h : load files source = .ok s) (path : String) :
    convert files source path = s.save files path := by
  rw [convert, h]
  rfl

/-- At a path to write to any snapshot whose JSON is not too large is saved in JSON and loaded as it was. A file it
was loaded from is converted there and, at any path for packed files, back into its packed form. -/
theorem json_keeps_snapshot (files : Files) (path : String) (s : Snapshot) (hpath : Encoding.ofPath path = .json)
    (hsize : (Encoding.json.write s).size ≤ maxSnapshotSize) (hwritable : files.Writable path) :
    ∃ files', s.save files path = .ok files' ∧ load files' path = .ok s ∧
      (∀ source, load files source = .ok s → convert files source path = .ok files') ∧
      ∀ back, Encoding.ofPath back = .packed → files'.Writable back →
        ∃ files'', convert files' path back = .ok files'' ∧
          files''.find back = .ok (.file (.ofList (Packed.write s))) := by
  have hsaved := save_of_writable hwritable s
  have hfind := hwritable.find_put ((Encoding.ofPath path).write s)
  have hload := load_of_find hfind (by rwa [hpath])
  refine ⟨_, hsaved, hload, fun source hsource ↦ (convert_of_load hsource path).trans hsaved,
    fun back hback hopen ↦ ?_⟩
  refine ⟨_, (convert_of_load hload back).trans (save_of_writable hopen s), ?_⟩
  rw [hopen.find_put, hback]
  rfl

/-- Two entities of one name, with all kinds of values and texts that are escaped. -/
def motley : Snapshot where
  entities := [⟨"a\"\\", "k\n", [("", .nil), ("\u0001", .int Int64.minValue), ("", .bool true)]⟩, ⟨"a\"\\", "é", []⟩]
  edges := [⟨"", "a\"\\", "b"⟩]
  focus := ["a", "a"]

/-- Another file stands in the directory that the path leads into. -/
theorem json_keeps_snapshot_motley :
    let files : Files := [("d/old.bin", Encoding.packed.write motley)]
    Encoding.ofPath "d/new.JSON" = .json ∧ (Encoding.json.write motley).size ≤ maxSnapshotSize ∧
      files.Writable "d/new.JSON" ∧
      ∃ files', motley.save files "d/new.JSON" = .ok files' ∧ load files' "d/new.JSON" = .ok motley ∧
        (∀ source, load files source = .ok motley → convert files source "d/new.JSON" = .ok files') ∧
        ∀ back, Encoding.ofPath back = .packed → files'.Writable back →
          ∃ files'', convert files' "d/new.JSON" back = .ok files'' ∧
            files''.find back = .ok (.file (.ofList (Packed.write motley))) := by
  intro files
  have hpath : Encoding.ofPath "d/new.JSON" = .json := by decide +kernel
  have hsize : (Encoding.json.write motley).size ≤ maxSnapshotSize := by decide +kernel
  have hwritable : files.Writable "d/new.JSON" :=
    ⟨by decide, by decide +kernel, by decide +kernel, by decide +kernel, by decide +kernel⟩
  exact ⟨hpath, hsize, hwritable, json_keeps_snapshot files _ motley hpath hsize hwritable⟩

end Snapshot

end LiveGraph
