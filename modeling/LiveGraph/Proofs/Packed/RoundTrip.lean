import LiveGraph.Proofs.Packed.Codec

/-!
# Packed snapshots are read as written

Every snapshot is read back from its packed form, whatever bytes come after that, as long as there are no
more than are read at all. No part of a packed snapshot that breaks off is read as a snapshot.
-/

namespace LiveGraph.Packed

/-! ## Integers -/

theorem fold_of_nonneg {i : Int} (h : 0 ≤ i) : fold i = 2 * i.toNat := by
  rw [fold, if_pos h]

theorem fold_of_neg {i : Int} (h : i < 0) : fold i = 2 * (-i).toNat - 1 := by
  rw [fold, if_neg (by omega)]

/-- Folding an integer can be undone. -/
theorem unfold_fold (i : Int) : Reader.unfold (fold i) = i := by
  rcases Int.lt_or_le i 0 with hneg | hnonneg
  · rw [fold_of_neg hneg, Reader.unfold, if_neg (by omega)]
    omega
  · rw [fold_of_nonneg hnonneg, Reader.unfold, if_pos (by omega)]
    omega

/-- An integer of 64 bits is folded into 64 bits. -/
theorem fold_toInt_lt (i : Int64) : fold i.toInt < 2 ^ 64 := by
  have hlow := i.le_toInt
  have hhigh := i.toInt_lt
  rcases Int.lt_or_le i.toInt 0 with hneg | hnonneg
  · rw [fold_of_neg hneg]
    omega
  · rw [fold_of_nonneg hnonneg]
    omega

/-! ## What fits -/

def ValueFits : Value → Prop
  | .str s => TextFits s
  | _ => True

def PropertyFits (p : String × Value) : Prop :=
  TextFits p.1 ∧ ValueFits p.2

def SpecFits (s : EntitySpec) : Prop :=
  TextFits s.uri ∧ TextFits s.kind ∧ ListFits PropertyFits s.props

def EdgeFits (e : Edge) : Prop :=
  TextFits e.kind ∧ TextFits e.source ∧ TextFits e.target

def SnapshotFits (s : Snapshot) : Prop :=
  ListFits SpecFits s.entities ∧ ListFits EdgeFits s.edges ∧ ListFits TextFits s.focus

/-! ## Reading what was written -/

theorem reads_bool (b : Bool) : Reads Reader.bool [if b then 1 else 0] b True := by
  rw [← List.append_nil [if b then 1 else 0]]
  refine (reads_byte _).after ?_
  cases b
  · exact .pure false
  · exact .pure true

theorem reads_value (v : Value) : Reads Reader.value (value v) v (ValueFits v) := by
  cases v with
  | nil => exact (reads_choice (by decide : 0 < 128)).after (.pure Value.nil)
  | bool b => exact (reads_choice (by decide : 1 < 128)).after ((reads_bool b).giving Value.bool)
  | int i =>
    have hread := (reads_number (fold i.toInt)).giving fun n ↦ Value.int (.ofInt (Reader.unfold n))
    rw [unfold_fold, Int64.ofInt_toInt] at hread
    exact (reads_choice (by decide : 2 < 128)).after (hread.congr rfl (iff_true_intro (fold_toInt_lt i)))
  | str s => exact (reads_choice (by decide : 3 < 128)).after ((reads_text s).giving Value.str)

theorem reads_property (p : String × Value) :
    Reads Reader.property (property p) p (PropertyFits p) :=
  (reads_text p.1).bind ((reads_value p.2).giving (p.1, ·))

theorem reads_spec (s : EntitySpec) : Reads Reader.spec (spec s) s (SpecFits s) := by
  rw [Reader.spec, spec, List.append_assoc]
  refine (reads_text s.uri).bind ?_
  refine (reads_text s.kind).bind ?_
  exact (reads_list reads_property s.props).giving (EntitySpec.mk s.uri s.kind)

theorem reads_edge (e : Edge) : Reads Reader.edge (edge e) e (EdgeFits e) := by
  rw [Reader.edge, edge, List.append_assoc]
  refine (reads_text e.kind).bind ?_
  refine (reads_text e.source).bind ?_
  exact (reads_text e.target).giving (Edge.mk e.kind e.source)

theorem reads_payload (s : Snapshot) : Reads Reader.payload (payload s) s (SnapshotFits s) := by
  rw [Reader.payload, payload, List.append_assoc]
  refine (reads_list reads_spec s.entities).bind ?_
  refine (reads_list reads_edge s.edges).bind ?_
  exact (reads_list reads_text s.focus).giving (Snapshot.mk s.entities s.edges)

/-! ## What is short fits -/

theorem number_ne_nil (n : Nat) : number n ≠ [] := by
  rw [number]
  split <;> exact List.cons_ne_nil _ _

theorem textFits_of_length {s : String} (h : (text s).length < 2 ^ 64) : TextFits s := by
  rw [text, List.length_append] at h
  rw [TextFits]
  omega

theorem text_ne_nil (s : String) : text s ≠ [] := by
  rw [text]
  exact List.append_ne_nil_of_left_ne_nil (number_ne_nil _) _

theorem property_ne_nil (p : String × Value) : property p ≠ [] :=
  List.append_ne_nil_of_left_ne_nil (text_ne_nil p.1) _

theorem spec_ne_nil (s : EntitySpec) : spec s ≠ [] := by
  rw [spec, List.append_assoc]
  exact List.append_ne_nil_of_left_ne_nil (text_ne_nil s.uri) _

theorem edge_ne_nil (e : Edge) : edge e ≠ [] := by
  rw [edge, List.append_assoc]
  exact List.append_ne_nil_of_left_ne_nil (text_ne_nil e.kind) _

section Lists

variable {α : Type} {code : α → List UInt8} {fits : α → Prop}

/-- No list of items is longer than their codes, since no item has an empty code. -/
theorem length_le_flatMap (hcode : ∀ x, code x ≠ []) (items : List α) :
    items.length ≤ (items.flatMap code).length := by
  induction items with
  | nil => exact Nat.le_refl 0
  | cons x rest ih =>
    have hpos : 0 < (code x).length := List.length_pos_iff.mpr (hcode x)
    rw [List.flatMap_cons, List.length_append, List.length_cons]
    omega

theorem length_le_of_mem {items : List α} {x : α} (hx : x ∈ items) :
    (code x).length ≤ (items.flatMap code).length :=
  (List.sublist_flatten_of_mem (List.mem_map_of_mem hx)).length_le

theorem listFits_of_length (hcode : ∀ x, code x ≠ []) (hfits : ∀ x, (code x).length < 2 ^ 64 → fits x)
    {items : List α} (h : (list code items).length < 2 ^ 64) : ListFits fits items := by
  rw [list, List.length_append] at h
  constructor
  · have hle := length_le_flatMap hcode items
    omega
  · intro x hx
    apply hfits x
    have hle : (code x).length ≤ (items.flatMap code).length := length_le_of_mem hx
    omega

end Lists

theorem propertyFits_of_length {p : String × Value} (h : (property p).length < 2 ^ 64) :
    PropertyFits p := by
  obtain ⟨name, v⟩ := p
  rw [property, List.length_append] at h
  constructor
  · exact textFits_of_length (by omega)
  · cases v with
    | str s =>
      rw [value, List.length_cons] at h
      exact textFits_of_length (by omega)
    | _ => trivial

theorem specFits_of_length {s : EntitySpec} (h : (spec s).length < 2 ^ 64) : SpecFits s := by
  rw [spec, List.length_append, List.length_append] at h
  exact ⟨textFits_of_length (by omega), textFits_of_length (by omega),
    listFits_of_length property_ne_nil (fun _ ↦ propertyFits_of_length) (by omega)⟩

theorem edgeFits_of_length {e : Edge} (h : (edge e).length < 2 ^ 64) : EdgeFits e := by
  rw [edge, List.length_append, List.length_append] at h
  exact ⟨textFits_of_length (by omega), textFits_of_length (by omega), textFits_of_length (by omega)⟩

theorem snapshotFits_of_length {s : Snapshot} (h : (payload s).length < 2 ^ 64) : SnapshotFits s := by
  rw [payload, List.length_append, List.length_append] at h
  refine ⟨listFits_of_length spec_ne_nil (fun _ ↦ specFits_of_length) (by omega),
    listFits_of_length edge_ne_nil (fun _ ↦ edgeFits_of_length) (by omega),
    listFits_of_length text_ne_nil (fun _ ↦ textFits_of_length) (by omega)⟩

/-! ## Headers -/

theorem length_header : Header.current.toList.length = headerSize := rfl

theorem read_header {b : Bytes} {rest : List UInt8} (hb : b.toList = Header.current.toList ++ rest) :
    Header.read b = .ok .current := by
  have hmagic : b.toList = magic ++ packedVersion :: rest := hb
  obtain ⟨b', hsplit, hb'⟩ := Bytes.split?_of_append hmagic
  obtain ⟨b'', hnext, -⟩ := Bytes.next?_of_cons hb'
  have hfour : b.split? 4 = some (magic, b') := hsplit
  rw [Header.read, hfour]
  simp only [hnext]
  rfl

theorem check_current : Header.current.check = .ok () := rfl

/-- After the header of a file that is not too large it is the payload that counts. -/
theorem read_of_header {b : Bytes} {rest : List UInt8}
    (hb : b.toList = Header.current.toList ++ rest) (hsize : b.size ≤ maxSnapshotSize) :
    read b = match Reader.payload (b.drop headerSize) with
      | .ok (s, _) => .ok s
      | .error fault => .error (.badPayload fault) := by
  have hlong : headerSize ≤ b.size := by
    rw [← Bytes.length_toList, hb, List.length_append, length_header]
    exact Nat.le_add_right _ _
  have hsound : (Except.ok Header.current : Except Damage Header).bind Header.check = .ok () := check_current
  have hfits : ¬ b.size < headerSize ∧ ¬ b.size > maxSnapshotSize :=
    ⟨Nat.not_lt.mpr hlong, Nat.not_lt.mpr hsize⟩
  cases hread : Reader.payload (b.drop headerSize) <;> simp [read, hfits, read_header hb, hsound, hread]

theorem drop_header {b : Bytes} {rest : List UInt8} (hb : b.toList = Header.current.toList ++ rest) :
    (b.drop headerSize).toList = rest := by
  rw [Bytes.toList_drop, hb, ← length_header]
  exact List.drop_left

/-! ## Snapshots -/

/-- Every snapshot is read back from its packed form, and bytes after that are left alone, as long as there
are not too many of them. Of no packed snapshot is a part that breaks off read at all. -/
theorem read_write (s : Snapshot) :
    (∀ b : Bytes, (∃ t, b.toList = write s ++ t) → b.size ≤ maxSnapshotSize → read b = .ok s) ∧
      ∀ b : Bytes, b.Cut (write s) → ∃ why, read b = .error why := by
  constructor
  · intro b ⟨t, hb⟩ hsize
    rw [write, List.append_assoc] at hb
    have hfits : SnapshotFits s := by
      apply snapshotFits_of_length
      rw [← Bytes.length_toList, hb, List.length_append, List.length_append] at hsize
      have hmax : maxSnapshotSize < 2 ^ 64 := by decide
      omega
    obtain ⟨b', hread, -⟩ := (reads_payload s).read hfits _ t (drop_header hb)
    rw [read_of_header hb hsize, hread]
  · intro b hcut
    by_cases hsize : b.size ≤ maxSnapshotSize
    · rcases Reads.cut_append hcut with ⟨lost, hlost, hheader⟩ | ⟨rest, hb, lost, hlost, hrest⟩
      · have hshort : b.size < headerSize := by
          rw [← Bytes.length_toList, ← length_header, ← hheader, List.length_append]
          exact Nat.lt_add_of_pos_right (List.length_pos_iff.mpr hlost)
        exact ⟨.tooShort, by rw [read, if_pos hshort]⟩
      · obtain ⟨fault, hfault⟩ := (reads_payload s).fail (b.drop headerSize)
          ⟨lost, hlost, by rw [drop_header hb, hrest]⟩
        exact ⟨.badPayload fault, by rw [read_of_header hb hsize, hfault]⟩
    · refine ⟨.tooLarge b.size, ?_⟩
      rw [read, if_neg, if_pos (by omega)]
      have hmax : headerSize ≤ maxSnapshotSize := by decide
      omega

end LiveGraph.Packed
