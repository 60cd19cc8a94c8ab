import LiveGraph.Proofs.Graph.Adjacency
import LiveGraph.Proofs.World.Access

/-!
# Coherent stores

The incarnations of a store, the table of live ones, the tables by type and the edges belong
together: what is found by URI or by type is exactly what is live, and no edge has an end that is
not. An entity that is being added is hidden for a while; everything else stays coherent meanwhile.
-/

namespace LiveGraph.Store

section Access

variable (s : Store)

theorem getElem?_bucket_setBucket (kind : String) (bucket : Std.TreeMap Nat Uri) (kind' : String)
    (n : Nat) :
    ((s.setBucket kind bucket).bucket kind')[n]? =
      if kind = kind' then bucket[n]? else (s.bucket kind')[n]? := by
  by_cases hempty : bucket.isEmpty
  · by_cases hkind : kind = kind'
    · simp [Store.bucket, setBucket, hempty, hkind, Std.TreeMap.getElem?_of_isEmpty]
    · simp [Store.bucket, setBucket, hempty, hkind, Std.TreeMap.getD_erase]
  · by_cases hkind : kind = kind' <;>
      simp [Store.bucket, setBucket, hempty, hkind, Std.TreeMap.getD_insert]

/-- No table by type is kept that holds nothing. -/
def NoneEmpty : Prop :=
  ∀ (kind : String) (bucket : Std.TreeMap Nat Uri), s.byKind[kind]? = some bucket →
    bucket.isEmpty = false

theorem NoneEmpty.setBucket {s : Store} (h : s.NoneEmpty) (kind : String)
    (bucket : Std.TreeMap Nat Uri) : (s.setBucket kind bucket).NoneEmpty := by
  intro kind' bucket' hbucket
  unfold Store.setBucket at hbucket
  by_cases hempty : bucket.isEmpty
  · by_cases hkind : kind = kind'
    · simp [hempty, hkind] at hbucket
    · simp [hempty, hkind, Std.TreeMap.getElem?_erase] at hbucket
      exact h kind' bucket' hbucket
  · by_cases hkind : kind = kind'
    · simp [hempty, hkind] at hbucket
      subst hbucket
      simpa using hempty
    · simp [hempty, hkind, Std.TreeMap.getElem?_insert] at hbucket
      exact h kind' bucket' hbucket

theorem incarnation_modify (n : Nat) (f : Entity → Entity) (m : Nat) (hn : 0 < n) (hm : 0 < m) :
    { s with incarnations := s.incarnations.modify (n - 1) f }.incarnation m =
      if n = m ∧ m ≤ s.incarnations.size then f (s.incarnation m) else s.incarnation m := by
  have hiff : (n - 1 = m - 1 ∧ m - 1 < s.incarnations.size) ↔ (n = m ∧ m ≤ s.incarnations.size) := by
    omega
  rw [incarnation, World.getD_modify, if_congr hiff rfl rfl]
  rfl

theorem incarnation_push (x : Entity) (m : Nat) :
    { s with incarnations := s.incarnations.push x }.incarnation m =
      if m - 1 = s.incarnations.size then x else s.incarnation m := by
  simp only [incarnation, Array.getD_eq_getD_getElem?, Array.getElem?_push]
  split <;> rfl

theorem incarnation_of_size_lt {m : Nat} (hm : s.incarnations.size < m) :
    s.incarnation m = default := by
  have hlt : s.incarnations.size ≤ m - 1 := by omega
  simp [incarnation, Array.getD_eq_getD_getElem?, Array.getElem?_eq_none hlt]

/-- A store without an entity and all its edges. -/
def without (uri : Uri) (n : Nat) : Store :=
  { s.setBucket (s.incarnation n).kind ((s.bucket (s.incarnation n).kind).erase n) with
    live := s.live.erase uri
    edges := (s.edges.detach uri).2
    incarnations := s.incarnations.modify (n - 1) fun x ↦ { x with live := false } }

end Access

/-- The tables are right about all entities except those that are hidden, which none of them has. -/
structure CoherentBut (s : Store) (hidden : Nat → Prop) : Prop where
  live_iff : ∀ uri n, s.live[uri]? = some n ↔
    0 < n ∧ n ≤ s.incarnations.size ∧ ¬hidden n ∧ (s.incarnation n).uri = uri ∧
      (s.incarnation n).live = true
  bucket_iff : ∀ kind n uri, (s.bucket kind)[n]? = some uri ↔
    s.live[uri]? = some n ∧ (s.incarnation n).kind = kind
  noneEmpty : s.NoneEmpty
  edges : s.edges.Coherent
  ends : ∀ e ∈ s.edges.edges, s.live.contains e.source ∧ s.live.contains e.target

abbrev Coherent (s : Store) : Prop :=
  s.CoherentBut fun _ ↦ False

/-- Two stores with the same entities and edges. -/
structure SameGraph (s s' : Store) : Prop where
  live_eq : s'.live = s.live
  byKind_eq : s'.byKind = s.byKind
  edges_eq : s'.edges = s.edges
  size_eq : s'.incarnations.size = s.incarnations.size
  uri_eq : ∀ n, 0 < n → (s'.incarnation n).uri = (s.incarnation n).uri
  kind_eq : ∀ n, 0 < n → (s'.incarnation n).kind = (s.incarnation n).kind
  flag_eq : ∀ n, 0 < n → (s'.incarnation n).live = (s.incarnation n).live

variable {s s' : Store} {hidden : Nat → Prop} {n : Nat} {uri : Uri} {kind : String}

theorem SameGraph.refl (s : Store) : s.SameGraph s :=
  ⟨rfl, rfl, rfl, rfl, fun _ _ ↦ rfl, fun _ _ ↦ rfl, fun _ _ ↦ rfl⟩

theorem SameGraph.trans {s s' s'' : Store} (h : s.SameGraph s') (h' : s'.SameGraph s'') :
    s.SameGraph s'' where
  live_eq := h'.live_eq.trans h.live_eq
  byKind_eq := h'.byKind_eq.trans h.byKind_eq
  edges_eq := h'.edges_eq.trans h.edges_eq
  size_eq := h'.size_eq.trans h.size_eq
  uri_eq n hn := (h'.uri_eq n hn).trans (h.uri_eq n hn)
  kind_eq n hn := (h'.kind_eq n hn).trans (h.kind_eq n hn)
  flag_eq n hn := (h'.flag_eq n hn).trans (h.flag_eq n hn)

theorem SameGraph.bucket_eq (h : s.SameGraph s') (kind : String) :
    s'.bucket kind = s.bucket kind := by
  rw [Store.bucket, h.byKind_eq, Store.bucket]

theorem CoherentBut.sameGraph (h : s.CoherentBut hidden) (hs : s.SameGraph s') :
    s'.CoherentBut hidden where
  live_iff uri n := by
    rw [hs.live_eq, h.live_iff, hs.size_eq]
    refine and_congr_right fun hn ↦ ?_
    rw [hs.uri_eq n hn, hs.flag_eq n hn]
  bucket_iff kind n uri := by
    rw [hs.bucket_eq, h.bucket_iff, hs.live_eq]
    refine and_congr_right fun hlive ↦ ?_
    rw [hs.kind_eq n ((h.live_iff uri n).mp hlive).1]
  noneEmpty kind bucket hbucket := h.noneEmpty kind bucket (by rwa [hs.byKind_eq] at hbucket)
  edges := by
    rw [hs.edges_eq]
    exact h.edges
  ends := by
    rw [hs.edges_eq, hs.live_eq]
    exact h.ends

namespace CoherentBut

theorem pos (h : s.CoherentBut hidden) (hlive : s.live[uri]? = some n) : 0 < n :=
  ((h.live_iff uri n).mp hlive).1

theorem le_size (h : s.CoherentBut hidden) (hlive : s.live[uri]? = some n) :
    n ≤ s.incarnations.size :=
  ((h.live_iff uri n).mp hlive).2.1

theorem uri_eq (h : s.CoherentBut hidden) (hlive : s.live[uri]? = some n) :
    (s.incarnation n).uri = uri :=
  ((h.live_iff uri n).mp hlive).2.2.2.1

/-- One incarnation is live at one URI at most. -/
theorem uri_unique (h : s.CoherentBut hidden) {uri' : Uri} (hlive : s.live[uri]? = some n)
    (hlive' : s.live[uri']? = some n) : uri = uri' :=
  (h.uri_eq hlive).symm.trans (h.uri_eq hlive')

theorem empty : Coherent .empty where
  live_iff uri n := by
    constructor
    · intro h
      simp [Store.empty] at h
    · rintro ⟨hpos, hsize, -⟩
      simp [Store.empty] at hsize
      omega
  bucket_iff := by simp [Store.empty, Store.bucket]
  noneEmpty := by simp [NoneEmpty, Store.empty]
  edges := .empty
  ends := by simp [Store.empty, Adjacency.empty, Adjacency.edges]

/-- A new incarnation is hidden at first. -/
theorem push (h : s.Coherent) (x : Entity) :
    { s with incarnations := s.incarnations.push x }.CoherentBut
      (· = s.incarnations.size + 1) where
  live_iff uri n := by
    rw [incarnation_push, Array.size_push]
    refine (h.live_iff uri n).trans ?_
    by_cases hn : n = s.incarnations.size + 1
    · subst hn
      simp only [not_true, false_and, and_false, iff_false]
      omega
    · have hne : ¬(n - 1 = s.incarnations.size) ∨ n = 0 := by omega
      constructor
      · rintro ⟨hpos, hsize, -, huri, hlive⟩
        rw [if_neg (by omega)]
        exact ⟨hpos, by omega, hn, huri, hlive⟩
      · rintro ⟨hpos, hsize, -, hrest⟩
        rw [if_neg (by omega)] at hrest
        exact ⟨hpos, by omega, not_false, hrest⟩
  bucket_iff kind n uri := by
    refine (h.bucket_iff kind n uri).trans (and_congr_right fun hlive ↦ ?_)
    have hsize := h.le_size hlive
    have hpos := h.pos hlive
    rw [incarnation_push, if_neg (by omega)]
  noneEmpty := h.noneEmpty
  edges := h.edges
  ends := h.ends

/-- A hidden entity becomes the one that is found at its URI. -/
theorem enlist (h : s.CoherentBut (· = n)) (hn : 0 < n) (hsize : n ≤ s.incarnations.size)
    (huri : (s.incarnation n).uri = uri) (hkind : (s.incarnation n).kind = kind)
    (hflag : (s.incarnation n).live = true) (hfree : s.live.contains uri = false) :
    Coherent { s.setBucket kind ((s.bucket kind).insert n uri) with live := s.live.insert uri n } where
  live_iff uri' m := by
    change (s.live.insert uri n)[uri']? = some m ↔ 0 < m ∧ m ≤ s.incarnations.size ∧ ¬False ∧
      (s.incarnation m).uri = uri' ∧ (s.incarnation m).live = true
    have hnone := Std.TreeMap.getElem?_eq_none_of_contains_eq_false hfree
    rw [Std.TreeMap.getElem?_insert]
    by_cases hu : uri = uri'
    · subst hu
      simp only [Std.ReflCmp.compare_self, if_true, Option.some.injEq]
      constructor
      · rintro rfl
        exact ⟨hn, hsize, not_false, huri, hflag⟩
      · rintro ⟨hm, hmsize, -, hmuri, hmlive⟩
        by_contra hne
        have hold := (h.live_iff uri m).mpr ⟨hm, hmsize, fun heq ↦ hne heq.symm, hmuri, hmlive⟩
        simp [hnone] at hold
    · rw [if_neg (by simpa using hu)]
      refine (h.live_iff uri' m).trans ?_
      constructor
      · rintro ⟨hm, hmsize, -, hrest⟩
        exact ⟨hm, hmsize, not_false, hrest⟩
      · rintro ⟨hm, hmsize, -, hmuri, hmlive⟩
        refine ⟨hm, hmsize, fun heq ↦ hu ?_, hmuri, hmlive⟩
        rw [← huri, ← hmuri, heq]
  bucket_iff kind' m uri' := by
    change ((s.setBucket kind _).bucket kind')[m]? = some uri' ↔
      (s.live.insert uri n)[uri']? = some m ∧ (s.incarnation m).kind = kind'
    have hhidden : ∀ uri', s.live[uri']? ≠ some n := fun uri' hlive ↦
      ((h.live_iff uri' n).mp hlive).2.2.1 rfl
    have hnone := Std.TreeMap.getElem?_eq_none_of_contains_eq_false hfree
    rw [getElem?_bucket_setBucket, Std.TreeMap.getElem?_insert, Std.TreeMap.getElem?_insert]
    have hold := h.bucket_iff kind' m uri'
    by_cases hm : n = m
    · subst hm
      by_cases hk : kind = kind' <;> by_cases hu : uri = uri' <;> simp_all
    · by_cases hk : kind = kind' <;> by_cases hu : uri = uri' <;> simp_all
  noneEmpty := h.noneEmpty.setBucket kind _
  edges := h.edges
  ends e he := by
    obtain ⟨hsource, htarget⟩ := h.ends e he
    exact ⟨by simp [Std.TreeMap.contains_insert, hsource],
      by simp [Std.TreeMap.contains_insert, htarget]⟩

/-- An entity is taken out with all its edges. -/
theorem strike (h : s.Coherent) (hlive : s.live[uri]? = some n) : Coherent (s.without uri n) where
  live_iff uri' m := by
    change (s.live.erase uri)[uri']? = some m ↔ 0 < m ∧ m ≤ (s.incarnations.modify _ _).size ∧
      ¬False ∧ ({ s with incarnations := s.incarnations.modify (n - 1) _ }.incarnation m).uri = uri' ∧
        ({ s with incarnations := s.incarnations.modify (n - 1) _ }.incarnation m).live = true
    rw [Std.TreeMap.getElem?_erase, Array.size_modify]
    have hn := h.pos hlive
    have hold := h.live_iff uri' m
    by_cases hm : n = m
    · subst hm
      by_cases hu : uri = uri'
      · simp [hu, incarnation_modify, hn, h.le_size hlive]
      · have hne : s.live[uri']? ≠ some n := fun hlive' ↦ hu (h.uri_unique hlive hlive')
        simp [hu, hne, incarnation_modify, hn, h.le_size hlive]
    · by_cases hmpos : 0 < m
      · rw [incarnation_modify s n _ m hn hmpos, if_neg fun hand : n = m ∧ _ ↦ hm hand.1]
        by_cases hu : uri = uri'
        · subst hu
          simp_all
        · rw [if_neg (by simpa using hu)]
          exact hold
      · have hnot : s.live[uri']? ≠ some m := fun hlive' ↦ hmpos (h.pos hlive')
        simp [hmpos, hnot]
  bucket_iff kind' m uri' := by
    obtain ⟨kind, hkind⟩ : ∃ kind, (s.incarnation n).kind = kind := ⟨_, rfl⟩
    change ((s.setBucket (s.incarnation n).kind _).bucket kind')[m]? = some uri' ↔
      (s.live.erase uri)[uri']? = some m ∧
        ({ s with incarnations := s.incarnations.modify (n - 1) _ }.incarnation m).kind = kind'
    rw [hkind, getElem?_bucket_setBucket, Std.TreeMap.getElem?_erase, Std.TreeMap.getElem?_erase]
    have hn := h.pos hlive
    have hold := h.bucket_iff kind' m uri'
    by_cases hm : n = m
    · subst hm
      have hunique := fun hlive' : s.live[uri']? = some n ↦ h.uri_unique hlive hlive'
      by_cases hk : kind = kind' <;> by_cases hu : uri = uri' <;> simp_all
    · by_cases hmpos : 0 < m
      · rw [incarnation_modify s n _ m hn hmpos, if_neg fun hand : n = m ∧ _ ↦ hm hand.1]
        by_cases hk : kind = kind' <;> by_cases hu : uri = uri' <;> simp_all
      · have hnot : s.live[uri']? ≠ some m := fun hlive' ↦ hmpos (h.pos hlive')
        by_cases hk : kind = kind' <;> by_cases hu : uri = uri' <;> simp_all
  noneEmpty := h.noneEmpty.setBucket _ _
  edges := (h.edges.detach uri).1
  ends e he := by
    obtain ⟨hmem, hsource, htarget⟩ := ((h.edges.detach uri).2.2.2 e).mp he
    obtain ⟨hsource', htarget'⟩ := h.ends e hmem
    change (s.live.erase uri).contains _ = true ∧ (s.live.erase uri).contains _ = true
    rw [Std.TreeMap.contains_erase, Std.TreeMap.contains_erase]
    exact ⟨by simp [Ne.symm hsource, hsource'], by simp [Ne.symm htarget, htarget']⟩

theorem link (h : s.Coherent) {e : Edge} {atFront : Bool} {edges : Adjacency}
    (hsource : s.live.contains e.source) (htarget : s.live.contains e.target)
    (hinsert : s.edges.insert? e atFront = some edges) : Coherent { s with edges := edges } where
  live_iff := h.live_iff
  bucket_iff := h.bucket_iff
  noneEmpty := h.noneEmpty
  edges := (h.edges.insert? hinsert).1
  ends x hx := by
    obtain rfl | hold := ((h.edges.insert? hinsert).2 x).mp hx
    · exact ⟨hsource, htarget⟩
    · exact h.ends x hold

theorem unlink (h : s.Coherent) {e : Edge} {edges : Adjacency}
    (hremove : s.edges.remove? e = some edges) : Coherent { s with edges := edges } where
  live_iff := h.live_iff
  bucket_iff := h.bucket_iff
  noneEmpty := h.noneEmpty
  edges := (h.edges.remove? hremove).1
  ends x hx := h.ends x (((h.edges.remove? hremove).2.2 x).mp hx).1

end CoherentBut

end LiveGraph.Store
