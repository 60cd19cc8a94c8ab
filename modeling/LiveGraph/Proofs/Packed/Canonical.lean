import LiveGraph.Proofs.Packed.RoundTrip

/-!
# Packed snapshots in their shortest form

Numbers may be written with more bytes than they need, and bytes may follow the payload, so one snapshot is
read from many files. What is written of it is the shortest of them, and the only one that is written.
-/

namespace LiveGraph

namespace Bytes

variable {b b' : Bytes}

theorem size_of_next? {x : UInt8} (h : b.next? = some (x, b')) : b.size = 1 + b'.size := by
  rw [← length_toList, toList_of_next? h, List.length_cons, length_toList, Nat.add_comm]

theorem size_of_split? {n : Nat} {front : List UInt8} (h : b.split? n = some (front, b')) :
    b.size = n + b'.size := by
  rw [← length_toList, toList_of_split? h, List.length_append, length_of_split? h, length_toList]

theorem size_drop (b : Bytes) (n : Nat) : (b.drop n).size = b.size - n := by
  rw [← length_toList, toList_drop, List.length_drop, length_toList]

end Bytes

namespace Packed

variable {α β : Type}

/-- What the reader reads is as `post` says of it and of the number of bytes that it is read from. -/
def Consumes (r : Reader α) (post : α → Nat → Prop) : Prop :=
  ∀ b a b', r b = .ok (a, b') → ∃ used, b.size = used + b'.size ∧ post a used

namespace Consumes

variable {r : Reader α} {f : α → Reader β} {post post' : α → Nat → Prop} {after : β → Nat → Prop}

theorem mono (h : Consumes r post) (himp : ∀ a used, post a used → post' a used) :
    Consumes r post' := by
  intro b a b' hread
  obtain ⟨used, hsize, hpost⟩ := h b a b' hread
  exact ⟨used, hsize, himp a used hpost⟩

theorem pure {a : α} (h : post a 0) : Consumes (pure a) post := by
  intro b a' b' hread
  obtain ⟨rfl, rfl⟩ := Prod.mk.inj (Except.ok.inj hread)
  exact ⟨0, (Nat.zero_add _).symm, h⟩

theorem fail (fault : PayloadFault) (post : α → Nat → Prop) : Consumes (Reader.fail fault) post :=
  fun _ _ _ hread ↦ nomatch hread

/-- What is read one after the other is read from the bytes of both. -/
theorem bind (h : Consumes r post)
    (h' : ∀ a used, post a used → Consumes (f a) fun c more ↦ after c (used + more)) :
    Consumes (r >>= f) after := by
  intro b c b'' hread
  cases hfirst : r b with
  | error fault =>
    rw [Reader.bind_of_error hfirst] at hread
    cases hread
  | ok read =>
    obtain ⟨a, b'⟩ := read
    rw [Reader.bind_of_ok hfirst] at hread
    obtain ⟨used, hsize, hpost⟩ := h b a b' hfirst
    obtain ⟨more, hsize', hafter⟩ := h' a used hpost b' c b'' hread
    exact ⟨used + more, by omega, hafter⟩

end Consumes

/-- Nothing is read from fewer bytes than its code has. -/
def Thrifty (r : Reader α) (code : α → List UInt8) : Prop :=
  Consumes r fun a used ↦ (code a).length ≤ used

/-! ## Numbers and texts -/

section Numbers

theorem consumes_byte : Consumes Reader.byte fun _ used ↦ used = 1 := by
  intro b x b' hread
  rw [Reader.byte] at hread
  split at hread
  · rename_i hnext
    obtain rfl := Except.ok.inj hread
    exact ⟨1, Bytes.size_of_next? hnext, rfl⟩
  · cases hread

theorem length_number_pos (n : Nat) : 0 < (number n).length :=
  List.length_pos_iff.mpr (number_ne_nil n)

theorem length_number_le (low : Nat) (high : Nat) (hlow : low < 128) :
    (number (low + 128 * high)).length ≤ 1 + (number high).length := by
  by_cases hsmall : low + 128 * high < 128
  · rw [number_of_lt hsmall, List.length_singleton]
    omega
  · have hdiv : (low + 128 * high) / 128 = high := by omega
    rw [number_of_ge (by omega), List.length_cons, hdiv]
    omega

/-- A number fits its width and has no fewer bytes than it needs, whatever its last bytes are. -/
theorem consumes_numberWithin (top width : Nat) :
    Consumes (Reader.numberWithin top width) fun n used ↦
      n < limit top width ∧ (number n).length ≤ used := by
  induction width with
  | zero => exact .fail _ _
  | succ width ih =>
    rw [Reader.numberWithin]
    refine consumes_byte.bind fun x used hused ↦ ?_
    subst hused
    split
    · rename_i hlast
      split
      · exact .fail _ _
      · rename_i hfit
        refine .pure ⟨(lt_limit_of_lt hlast).mpr hfit, ?_⟩
        rw [number_of_lt hlast, List.length_singleton]
    · rename_i hmore
      refine ih.bind fun high used hhigh ↦ .pure ?_
      have hlow : x.toNat - 128 < 128 := by have := x.toNat_lt; omega
      refine ⟨?_, (length_number_le _ high hlow).trans (Nat.add_le_add_left hhigh.2 1)⟩
      cases width with
      | zero => exact absurd hhigh.1 (Nat.not_lt_zero high)
      | succ width =>
        have hlimit := hhigh.1
        rw [limit] at hlimit
        rw [limit, Nat.pow_succ, ← Nat.mul_assoc]
        omega

theorem consumes_number :
    Consumes Reader.number fun n used ↦ n < 2 ^ 64 ∧ (number n).length ≤ used :=
  (consumes_numberWithin 1 10).mono fun n _ h ↦
    ⟨h.1.trans_eq (by decide), h.2⟩

theorem consumes_choice : Consumes Reader.choice fun _ used ↦ 1 ≤ used :=
  (consumes_numberWithin 15 5).mono fun n _ h ↦ (length_number_pos n).trans_le h.2

/-- Unfolding a number of 64 bits can be undone. -/
theorem fold_unfold {n : Nat} (hn : n < 2 ^ 64) : fold (Int64.ofInt (Reader.unfold n)).toInt = n := by
  have hrange : -2 ^ 63 ≤ Reader.unfold n ∧ Reader.unfold n < 2 ^ 63 := by
    rw [Reader.unfold]
    split <;> omega
  rw [Int64.toInt_ofInt_of_le hrange.1 hrange.2, Reader.unfold]
  split
  · rw [fold_of_nonneg (by omega)]
    omega
  · rw [fold_of_neg (by omega)]
    omega

end Numbers

section Texts

theorem consumes_bytes (n : Nat) :
    Consumes (Reader.bytes n) fun content used ↦ content.length = n ∧ used = n := by
  intro b content b' hread
  rw [Reader.bytes] at hread
  split at hread
  · rename_i hsplit
    obtain rfl := Except.ok.inj hread
    exact ⟨n, Bytes.size_of_split? hsplit, Bytes.length_of_split? hsplit, rfl⟩
  · cases hread

/-- A text is the bytes that it is read from. -/
theorem bytesOf_of_fromUTF8? {content : List UInt8} {s : String}
    (h : String.fromUTF8? ⟨content.toArray⟩ = some s) : bytesOf s = content := by
  rw [String.fromUTF8?] at h
  split at h
  · obtain rfl := Option.some.inj h
    rfl
  · exact absurd h.symm (Option.some_ne_none s)

theorem thrifty_text : Thrifty Reader.text text := by
  refine consumes_number.bind fun n used hn ↦ ?_
  refine (consumes_bytes n).bind fun content more hcontent ↦ ?_
  split
  · rename_i s hs
    refine .pure ?_
    rw [text, List.length_append, bytesOf_of_fromUTF8? hs, hcontent.1]
    omega
  · exact .fail _ _

end Texts

/-! ## Lists and what snapshots are made of -/

section Lists

variable {item : Reader α} {code : α → List UInt8}

theorem consumes_repeated (h : Thrifty item code) (n : Nat) :
    Consumes (Reader.repeated item n) fun items used ↦
      items.length = n ∧ (items.flatMap code).length ≤ used := by
  induction n with
  | zero => exact .pure ⟨rfl, Nat.le_refl 0⟩
  | succ n ih =>
    refine h.bind fun first used hfirst ↦ ih.bind fun rest more hrest ↦ .pure ⟨?_, ?_⟩
    · rw [List.length_cons, hrest.1]
    · rw [List.flatMap_cons, List.length_append]
      omega

theorem thrifty_list (h : Thrifty item code) : Thrifty (Reader.list item) (list code) := by
  refine consumes_number.bind fun n used hn ↦ (consumes_repeated h n).mono fun items more hitems ↦ ?_
  rw [list, List.length_append, hitems.1]
  omega

end Lists

theorem consumes_bool : Consumes Reader.bool fun _ used ↦ used = 1 := by
  refine consumes_byte.bind fun x used hused ↦ ?_
  split
  · exact .pure hused
  · split
    · exact .pure hused
    · exact .fail _ _

theorem thrifty_value : Thrifty Reader.value value := by
  refine consumes_choice.bind fun n used hused ↦ ?_
  split
  · exact .pure hused
  · refine consumes_bool.bind fun b more hmore ↦ .pure ?_
    rw [value, List.length_cons, List.length_singleton]
    omega
  · refine consumes_number.bind fun n more hn ↦ .pure ?_
    rw [value, List.length_cons, fold_unfold hn.1]
    omega
  · refine thrifty_text.bind fun s more hs ↦ .pure ?_
    rw [value, List.length_cons]
    omega
  · exact .fail _ _

theorem thrifty_property : Thrifty Reader.property property := by
  refine thrifty_text.bind fun name used hname ↦ thrifty_value.bind fun v more hv ↦ .pure ?_
  simp only [property, List.length_append]
  omega

theorem thrifty_spec : Thrifty Reader.spec spec := by
  refine thrifty_text.bind fun uri used huri ↦ thrifty_text.bind fun kind more hkind ↦ ?_
  refine (thrifty_list thrifty_property).bind fun props most hprops ↦ .pure ?_
  simp only [spec, List.length_append]
  omega

theorem thrifty_edge : Thrifty Reader.edge edge := by
  refine thrifty_text.bind fun kind used hkind ↦ thrifty_text.bind fun source more hsource ↦ ?_
  refine thrifty_text.bind fun target most htarget ↦ .pure ?_
  simp only [edge, List.length_append]
  omega

theorem thrifty_payload : Thrifty Reader.payload payload := by
  refine (thrifty_list thrifty_spec).bind fun entities used hentities ↦ ?_
  refine (thrifty_list thrifty_edge).bind fun edges more hedges ↦ ?_
  refine (thrifty_list thrifty_text).bind fun focus most hfocus ↦ .pure ?_
  simp only [payload, List.length_append]
  omega

/-! ## Snapshots -/

variable {b : Bytes} {s : Snapshot}

/-- What is read was neither too short nor too long, and its payload was read after the header. -/
theorem payload_of_read (h : read b = .ok s) :
    headerSize ≤ b.size ∧ b.size ≤ maxSnapshotSize ∧
      ∃ rest, Reader.payload (b.drop headerSize) = .ok (s, rest) := by
  rw [read] at h
  split at h
  · cases h
  rename_i hlong
  split at h
  · cases h
  rename_i hfits
  refine ⟨Nat.not_lt.mp hlong, Nat.not_lt.mp hfits, ?_⟩
  split at h
  · cases h
  · split at h
    · rename_i rest hread
      exact ⟨rest, by rw [hread, Except.ok.inj h]⟩
    · cases h

/-- No snapshot is read from fewer bytes than are written of it. -/
theorem length_write_le (h : read b = .ok s) : (write s).length ≤ b.size := by
  obtain ⟨hlong, -, rest, hpayload⟩ := payload_of_read h
  obtain ⟨used, hsize, hused⟩ := thrifty_payload _ _ _ hpayload
  rw [Bytes.size_drop] at hsize
  rw [write, List.length_append, length_header]
  omega

theorem size_ofList (bytes : List UInt8) : (Bytes.ofList bytes).size = bytes.length :=
  Nat.add_zero _

/-- Whatever is read as a snapshot is written again in no more bytes, these are read as the same snapshot,
and the same is written of two files just if the same was read of them. -/
theorem canonical_write {b : Bytes} {s : Snapshot} (h : read b = .ok s) :
    (write s).length ≤ b.size ∧
      read (Bytes.ofList (write s)) = .ok s ∧
      ∀ b' s', read b' = .ok s' → (s = s' ↔ write s = write s') := by
  have hagain {b : Bytes} {s : Snapshot} (h : read b = .ok s) : read (Bytes.ofList (write s)) = .ok s := by
    refine (read_write s).1 _ ⟨[], ?_⟩ ?_
    · rw [Bytes.toList, Bytes.ofList, List.replicate_zero]
    · rw [size_ofList]
      exact (length_write_le h).trans (payload_of_read h).2.1
  refine ⟨length_write_le h, hagain h, fun b' s' h' ↦ ⟨fun heq ↦ heq ▸ rfl, fun heq ↦ ?_⟩⟩
  have hread := hagain h
  rw [heq, hagain h'] at hread
  exact (Except.ok.inj hread).symm

/-- One entity in numbers that are longer than they need to be, and a byte after the payload. -/
def padded : Bytes :=
  .ofList [0x44, 0x41, 0x50, 0x47, 0x01, 0x81, 0x00, 0x81, 0x80, 0x00, 0x61, 0x01, 0x6b, 0x01, 0x01, 0x6e,
    0x82, 0x00, 0x83, 0x80, 0x00, 0x80, 0x00, 0x00, 0xff]

def unpadded : Snapshot :=
  ⟨[⟨"a", "k", [("n", .int (-2))]⟩], [], []⟩

theorem canonical_write_padded :
    read padded = .ok unpadded ∧ (write unpadded).length ≤ padded.size ∧
      read (Bytes.ofList (write unpadded)) = .ok unpadded ∧
      ∀ b s, read b = .ok s → (unpadded = s ↔ write unpadded = write s) := by
  have hread : read padded = .ok unpadded := by cbv
  exact ⟨hread, canonical_write hread⟩

end Packed

end LiveGraph
