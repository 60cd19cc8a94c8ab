import LiveGraph.Graph.Index
import LiveGraph.Proofs.Orders
import LiveGraph.Proofs.Tables

/-!
# Secondary indices

The two tables of an index mirror each other: what stands in the bucket of a key is what is filed
under it. Placing an entity under a key and taking it out keep them so.
-/

namespace LiveGraph.Index

open Std

variable {x : Index}

/-- What stands in a bucket is filed under its key, and the other way round. -/
structure Mirrored (x : Index) : Prop where
  bucket_iff : ∀ (key : Value) (uri : Uri) (n : Nat),
    (x.bucket key)[n]? = some uri ↔ x.filed[uri]? = some (key, n)

theorem getElem?_setBucket (x : Index) (key key' : Value) (bucket : TreeMap Nat Uri) (n : Nat) :
    ((x.setBucket key bucket).getD key' ∅)[n]? =
      if key = key' then bucket[n]? else (x.bucket key')[n]? := by
  have hcompare : compare key key' = .eq ↔ key = key' := LawfulEqOrd.compare_eq_iff_eq
  rw [setBucket]
  split
  · rename_i hempty
    rw [TreeMap.getD_erase]
    by_cases hkey : key = key'
    · rw [if_pos (hcompare.mpr hkey), if_pos hkey]
      have hnone : n ∉ bucket := TreeMap.not_mem_of_isEmpty hempty
      rw [TreeMap.getElem?_eq_none hnone]
      exact TreeMap.getElem?_emptyc
    · rw [if_neg (mt hcompare.mp hkey), if_neg hkey, Index.bucket]
  · rw [TreeMap.getD_insert]
    by_cases hkey : key = key'
    · rw [if_pos (hcompare.mpr hkey), if_pos hkey]
    · rw [if_neg (mt hcompare.mp hkey), if_neg hkey, Index.bucket]

theorem mirrored_new (kind : String) (extractor : Extractor) : (new kind extractor).Mirrored where
  bucket_iff key uri n := by simp [new, bucket, TreeMap.getD_emptyc]

/-- An index without an entity, whether it was filed or not. -/
def without (x : Index) (uri : Uri) : Index := (x.evict? uri).getD x

/-- An index with an entity where it belongs. -/
def placed (x : Index) (uri : Uri) (serial : Nat) (key : Option Value) : Index :=
  (x.place? uri serial key).getD x

theorem without_of_filed {uri : Uri} {key : Value} {n : Nat} (h : x.filed[uri]? = some (key, n)) :
    x.without uri = { x with
      buckets := x.setBucket key ((x.bucket key).erase n)
      filed := x.filed.erase uri } := by
  rw [without, evict?, TreeMap.get?_eq_getElem?, h]
  rfl

theorem without_of_absent {uri : Uri} (h : x.filed[uri]? = none) : x.without uri = x := by
  rw [without, evict?, TreeMap.get?_eq_getElem?, h]
  rfl

theorem filed_without (x : Index) (uri uri' : Uri) :
    (x.without uri).filed[uri']? = if uri = uri' then none else x.filed[uri']? := by
  have hcompare : compare uri uri' = .eq ↔ uri = uri' := LawfulEqOrd.compare_eq_iff_eq
  cases hfiled : x.filed[uri]? with
  | none =>
    rw [without_of_absent hfiled]
    split
    · rename_i heq
      rw [← heq, hfiled]
    · rfl
  | some entry =>
    rw [without_of_filed hfiled]
    simp only [TreeMap.getElem?_erase, hcompare]

theorem Mirrored.without (h : x.Mirrored) (uri : Uri) : (x.without uri).Mirrored := by
  cases hfiled : x.filed[uri]? with
  | none => rwa [without_of_absent hfiled]
  | some entry =>
    obtain ⟨key, n⟩ := entry
    refine ⟨fun key' uri' n' ↦ ?_⟩
    rw [filed_without, without_of_filed hfiled, Index.bucket, getElem?_setBucket]
    by_cases huri : uri = uri'
    · subst huri
      rw [if_pos rfl]
      refine ⟨fun hmem ↦ ?_, nofun⟩
      split at hmem
      · rename_i hkey
        subst hkey
        rw [TreeMap.getElem?_erase] at hmem
        split at hmem
        · exact nomatch hmem
        · rename_i hne
          rw [h.bucket_iff, hfiled] at hmem
          exact absurd (Nat.compare_eq_eq.mpr (Prod.mk.inj (Option.some.inj hmem)).2) hne
      · rename_i hne
        rw [h.bucket_iff, hfiled] at hmem
        exact absurd (Prod.mk.inj (Option.some.inj hmem)).1 hne
    · rw [if_neg huri, ← h.bucket_iff]
      split
      · rename_i hkey
        subst hkey
        rw [TreeMap.getElem?_erase]
        split
        · rename_i heq
          obtain rfl := Nat.compare_eq_eq.mp heq
          have hother : (x.bucket key)[n]? = some uri := (h.bucket_iff key uri n).mpr hfiled
          rw [hother]
          exact ⟨nofun, fun heq ↦ absurd (Option.some.inj heq) huri⟩
        · exact Iff.rfl
      · exact Iff.rfl

theorem filed_file (x : Index) (uri : Uri) (serial : Nat) (key : Value) (uri' : Uri) :
    (x.file uri serial key).filed[uri']? =
      if uri = uri' then some (key, serial) else x.filed[uri']? := by
  have hcompare : compare uri uri' = .eq ↔ uri = uri' := LawfulEqOrd.compare_eq_iff_eq
  simp only [file, TreeMap.getElem?_insert, hcompare]

/-- An entity may be filed under a serial that nobody is filed under. -/
theorem Mirrored.file (h : x.Mirrored) {uri : Uri} {serial : Nat} (key : Value)
    (hnone : x.filed[uri]? = none) (hfree : ∀ (uri' : Uri) (key' : Value), x.filed[uri']? ≠ some (key', serial)) :
    (x.file uri serial key).Mirrored := by
  refine ⟨fun key' uri' n ↦ ?_⟩
  rw [filed_file, Index.file, Index.bucket, getElem?_setBucket]
  by_cases hkey : key = key'
  · subst hkey
    rw [if_pos rfl, TreeMap.getElem?_insert]
    by_cases hn : serial = n
    · subst hn
      rw [if_pos (Nat.compare_eq_eq.mpr rfl), Option.some.injEq]
      split
      · rename_i heq
        exact iff_of_true heq rfl
      · rename_i hne
        exact iff_of_false hne (hfree uri' key)
    · rw [if_neg (mt Nat.compare_eq_eq.mp hn), h.bucket_iff]
      split
      · rename_i heq
        rw [← heq, hnone]
        exact ⟨nofun, fun h ↦ absurd (Prod.mk.inj (Option.some.inj h)).2 hn⟩
      · exact Iff.rfl
  · rw [if_neg hkey, h.bucket_iff]
    split
    · rename_i heq
      rw [← heq, hnone]
      exact ⟨nofun, fun h ↦ absurd (Prod.mk.inj (Option.some.inj h)).1 hkey⟩
    · exact Iff.rfl

/-- Where an entity was filed at all, it was filed under its serial. -/
def Owns (x : Index) (uri : Uri) (serial : Nat) : Prop :=
  ∀ (uri' : Uri) (key : Value) (n : Nat), x.filed[uri']? = some (key, n) → (uri' = uri ↔ n = serial)

theorem placed_of_same {uri : Uri} {serial : Nat} {key : Option Value}
    (h : x.keyOf? uri = key) : x.placed uri serial key = x := by
  rw [placed, place?, if_pos h]
  rfl

theorem placed_of_moved {uri : Uri} {serial : Nat} {key : Option Value}
    (h : x.keyOf? uri ≠ key) : x.placed uri serial key =
      key.elim (x.without uri) ((x.without uri).file uri serial) := by
  rw [placed, place?, if_neg h]
  rfl

theorem filed_placed {uri : Uri} {serial : Nat} (key : Option Value) (h : x.Owns uri serial)
    (uri' : Uri) : (x.placed uri serial key).filed[uri']? =
      if uri = uri' then key.map (·, serial) else x.filed[uri']? := by
  by_cases hkey : x.keyOf? uri = key
  · rw [placed_of_same hkey]
    split
    · rename_i heq
      subst heq hkey
      rw [keyOf?, TreeMap.get?_eq_getElem?]
      cases hfiled : x.filed[uri]? with
      | none => rfl
      | some entry =>
        obtain ⟨key, n⟩ := entry
        obtain rfl := (h uri key n hfiled).mp rfl
        rfl
    · rfl
  · rw [placed_of_moved hkey]
    cases key with
    | none => exact filed_without x uri uri'
    | some key =>
      rw [Option.elim_some, filed_file, filed_without]
      split <;> rfl

theorem Mirrored.placed (h : x.Mirrored) {uri : Uri} {serial : Nat} (key : Option Value)
    (howns : x.Owns uri serial) : (x.placed uri serial key).Mirrored := by
  by_cases hkey : x.keyOf? uri = key
  · rwa [placed_of_same hkey]
  · rw [placed_of_moved hkey]
    cases key with
    | none => exact h.without uri
    | some key =>
      refine (h.without uri).file key ?_ fun uri' key' hfiled ↦ ?_
      · rw [filed_without, if_pos rfl]
      · rw [filed_without] at hfiled
        split at hfiled
        · exact nomatch hfiled
        · rename_i hne
          exact hne ((howns uri' key' serial hfiled).mpr rfl).symm

/-- What stands in a bucket is filed under its key; in no bucket an entity stands twice. -/
def Traced (x : Index) : Prop :=
  ∀ (key : Value) (uri : Uri) (n : Nat), (x.bucket key)[n]? = some uri → x.filed[uri]? = some (key, n)

theorem traced_new (kind : String) (extractor : Extractor) : (new kind extractor).Traced := fun key uri n hentry ↦
  ((mirrored_new kind extractor).bucket_iff key uri n).mp hentry

namespace Traced

variable (h : x.Traced)
include h

theorem nodup_all (key : Value) : (x.all key).Nodup := by
  refine Tables.nodup_values _ fun n n' uri hn hn' ↦ ?_
  have heq := (h key uri n hn).symm.trans (h key uri n' hn')
  exact (Prod.mk.inj (Option.some.inj heq)).2

theorem without (uri : Uri) : (x.without uri).Traced := by
  cases hfiled : x.filed[uri]? with
  | none => rwa [without_of_absent hfiled]
  | some entry =>
    obtain ⟨key, n⟩ := entry
    intro key' uri' n' hentry
    rw [without_of_filed hfiled, Index.bucket, getElem?_setBucket] at hentry
    rw [filed_without]
    split at hentry
    · rename_i hkey
      subst hkey
      rw [TreeMap.getElem?_erase] at hentry
      split at hentry
      · exact nomatch hentry
      · rename_i hne
        rw [if_neg, h key uri' n' hentry]
        rintro rfl
        have heq := hfiled.symm.trans (h key uri n' hentry)
        exact hne (Nat.compare_eq_eq.mpr (Prod.mk.inj (Option.some.inj heq)).2)
    · rename_i hkey
      rw [if_neg, h key' uri' n' hentry]
      rintro rfl
      have heq := hfiled.symm.trans (h key' uri n' hentry)
      exact hkey (Prod.mk.inj (Option.some.inj heq)).1

/-- An entity may be filed that was not, even in the place of another one. -/
theorem file {uri : Uri} (serial : Nat) (key : Value) (hnone : x.filed[uri]? = none) :
    (x.file uri serial key).Traced := by
  have hother {key' : Value} {uri' : Uri} {n : Nat} (hentry : (x.bucket key')[n]? = some uri') :
      (x.file uri serial key).filed[uri']? = some (key', n) := by
    have hfiled := h key' uri' n hentry
    rw [filed_file, if_neg, hfiled]
    rintro rfl
    exact Option.some_ne_none _ (hfiled.symm.trans hnone)
  intro key' uri' n hentry
  rw [Index.file, Index.bucket, getElem?_setBucket] at hentry
  split at hentry
  · rename_i hkey
    subst hkey
    rw [TreeMap.getElem?_insert] at hentry
    split at hentry
    · rename_i hn
      obtain rfl := Option.some.inj hentry
      rw [filed_file, if_pos rfl, Nat.compare_eq_eq.mp hn]
    · exact hother hentry
  · exact hother hentry

theorem placed (uri : Uri) (serial : Nat) (key : Option Value) : (x.placed uri serial key).Traced := by
  by_cases hkey : x.keyOf? uri = key
  · rwa [placed_of_same hkey]
  · rw [placed_of_moved hkey]
    cases key with
    | none => exact h.without uri
    | some key =>
      refine (h.without uri).file serial key ?_
      rw [filed_without, if_pos rfl]

end Traced

theorem without_about (x : Index) (uri : Uri) :
    (x.without uri).kind = x.kind ∧ (x.without uri).extractor = x.extractor := by
  rw [without, evict?]
  cases x.filed.get? uri <;> exact ⟨rfl, rfl⟩

/-- What an index is about does not depend on what is filed. -/
theorem placed_about (x : Index) (uri : Uri) (serial : Nat) (key : Option Value) :
    (x.placed uri serial key).kind = x.kind ∧
      (x.placed uri serial key).extractor = x.extractor := by
  by_cases hkey : x.keyOf? uri = key
  · rw [placed_of_same hkey]
    exact ⟨rfl, rfl⟩
  · rw [placed_of_moved hkey]
    cases key <;> exact x.without_about uri

end LiveGraph.Index
