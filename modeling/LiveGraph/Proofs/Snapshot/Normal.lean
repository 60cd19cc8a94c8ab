import LiveGraph.Record
import Mathlib.Data.List.Nodup
import Mathlib.Data.List.Sort

/-!
# The normal form of a snapshot

Of a property that repeats the first value counts, of an edge that repeats the first occurrence, and an edge counts
only where there are both of its ends. Properties go by name, and edges by target and type; those of one target and
type stay in order.
-/

namespace LiveGraph

/-- Where no key repeats, what is found under a key is what has it. -/
theorem find?_key_eq_some {α β : Type} [DecidableEq β] {key : α → β} {l : List α} (h : (l.map key).Nodup) {k : β}
    {a : α} : l.find? (fun a ↦ key a = k) = some a ↔ a ∈ l ∧ key a = k := by
  constructor
  · intro hfind
    exact ⟨List.mem_of_find?_eq_some hfind, by simpa using List.find?_some hfind⟩
  · rintro ⟨hmem, rfl⟩
    cases hfind : l.find? fun b ↦ key b = key a with
    | none => exact absurd (List.find?_eq_none.mp hfind a hmem) (by simp)
    | some b =>
      have hkey : key b = key a := by simpa using List.find?_some hfind
      rw [List.inj_on_of_nodup_map h (List.mem_of_find?_eq_some hfind) hmem hkey]

namespace Snapshot

section Firsts

variable {α β : Type} [DecidableEq β] {key : α → β}

/-- The first element for each key. -/
def firsts (key : α → β) : List α → List α
  | [] => []
  | a :: rest => a :: (firsts key rest).filter (key · ≠ key a)

theorem firsts_sublist (l : List α) : (firsts key l).Sublist l := by
  induction l with
  | nil => exact .refl _
  | cons a rest ih => exact (List.filter_sublist.trans ih).cons_cons a

theorem nodup_firsts (l : List α) : ((firsts key l).map key).Nodup := by
  induction l with
  | nil => exact List.nodup_nil
  | cons a rest ih =>
    rw [firsts, List.map_cons, List.nodup_cons]
    constructor
    · intro hmem
      obtain ⟨b, hb, hkey⟩ := List.mem_map.mp hmem
      exact of_decide_eq_true (List.mem_filter.mp hb).2 hkey
    · exact ih.sublist (List.filter_sublist.map key)

theorem firsts_of_nodup {l : List α} (h : (l.map key).Nodup) : firsts key l = l := by
  induction l with
  | nil => rfl
  | cons a rest ih =>
    obtain ⟨hnew, hrest⟩ := List.nodup_cons.mp h
    rw [firsts, ih hrest]
    refine congrArg (a :: ·) (List.filter_eq_self.mpr fun b hb ↦ decide_eq_true fun hkey ↦ ?_)
    exact hnew (List.mem_map.mpr ⟨b, hb, hkey⟩)

theorem mem_map_firsts {l : List α} {k : β} : k ∈ (firsts key l).map key ↔ k ∈ l.map key := by
  induction l with
  | nil => rfl
  | cons a rest ih =>
    rw [firsts, List.map_cons, List.map_cons, List.mem_cons, List.mem_cons, ← ih]
    by_cases hk : k = key a
    · simp [hk]
    · refine or_congr_right ⟨fun hmem ↦ ?_, fun hmem ↦ ?_⟩
      · exact (List.filter_sublist.map key).subset hmem
      · obtain ⟨b, hb, hkey⟩ := List.mem_map.mp hmem
        exact List.mem_map.mpr ⟨b, List.mem_filter.mpr ⟨hb, decide_eq_true fun heq ↦ hk (hkey ▸ heq)⟩, hkey⟩

/-- An element at the end counts if its key is new. -/
theorem firsts_concat (l : List α) (a : α) :
    firsts key (l ++ [a]) = firsts key l ++ if key a ∈ l.map key then [] else [a] := by
  induction l with
  | nil => rfl
  | cons b rest ih =>
    rw [List.cons_append, firsts, ih, List.filter_append, firsts, List.cons_append]
    congr 2
    by_cases hb : key a = key b <;> by_cases hrest : key a ∈ rest.map key <;> simp [hb, hrest]

theorem mem_firsts_iff {l : List α} {a : α} : a ∈ firsts key l ↔ l.find? (key · = key a) = some a := by
  induction l with
  | nil => exact iff_of_false List.not_mem_nil (Option.some_ne_none a).symm
  | cons b rest ih =>
    rw [firsts, List.mem_cons, List.mem_filter, ih, List.find?_cons]
    by_cases hkey : key b = key a
    · simp only [hkey, decide_true, Option.some.injEq, ne_eq, not_true_eq_false, decide_false, Bool.false_eq_true,
        and_false, or_false]
      exact eq_comm
    · have hne : a ≠ b := fun heq ↦ hkey (heq ▸ rfl)
      simp [hkey, hne, Ne.symm hkey]

end Firsts

section Sorting

variable {α : Type} (cmp : α → α → Ordering)

/-- The elements in ascending order; those that compare equal stay in order. -/
def sorted (l : List α) : List α :=
  l.mergeSort fun a b ↦ (cmp a b).isLE

/-- Whether an element compares equal to another. -/
def alike (a b : α) : Bool :=
  cmp a b == .eq

theorem sorted_perm (l : List α) : (sorted cmp l).Perm l :=
  List.mergeSort_perm l _

theorem sorted_of_pairwise {l : List α} (h : l.Pairwise fun a b ↦ (cmp a b).isLE = true) : sorted cmp l = l :=
  List.mergeSort_of_pairwise h

variable [Std.TransCmp cmp]

theorem alike_self (a : α) : alike cmp a a = true :=
  beq_iff_eq.mpr Std.ReflCmp.compare_self

theorem isLE_self (a : α) : (cmp a a).isLE = true := by
  have hself : cmp a a = .eq := Std.ReflCmp.compare_self
  rw [hself]
  rfl

theorem isLE_total (a b : α) : ((cmp a b).isLE || (cmp b a).isLE) = true := by
  have hswap : cmp b a = (cmp a b).swap := Std.OrientedCmp.eq_swap
  rw [hswap]
  cases cmp a b <;> rfl

theorem alike_of_isLE {a b : α} (h : (cmp a b).isLE = true) (h' : (cmp b a).isLE = true) :
    alike cmp a b = true := by
  have hswap : cmp b a = (cmp a b).swap := Std.OrientedCmp.eq_swap
  rw [hswap] at h'
  rw [alike]
  revert h h'
  cases cmp a b <;> decide

theorem pairwise_sorted (l : List α) : (sorted cmp l).Pairwise fun a b ↦ (cmp a b).isLE = true :=
  List.pairwise_mergeSort (fun _ _ _ ↦ Std.TransCmp.isLE_trans) (isLE_total cmp) l

theorem filter_sorted (l : List α) (x : α) : (sorted cmp l).filter (alike cmp x) = l.filter (alike cmp x) := by
  have hequal : (l.filter (alike cmp x)).Pairwise fun a b ↦ (cmp a b).isLE = true := by
    refine List.pairwise_of_forall_mem_list fun a ha b hb ↦ ?_
    have hxa : cmp x a = .eq := beq_iff_eq.mp (List.mem_filter.mp ha).2
    have hxb : cmp x b = .eq := beq_iff_eq.mp (List.mem_filter.mp hb).2
    rw [← Std.TransCmp.congr_left hxa, hxb]
    rfl
  have hsub : (l.filter (alike cmp x)).Sublist (sorted cmp l) :=
    List.sublist_mergeSort (fun _ _ _ ↦ Std.TransCmp.isLE_trans) (isLE_total cmp) hequal List.filter_sublist
  have hfilter := hsub.filter (alike cmp x)
  rw [List.filter_filter, List.filter_congr fun a _ ↦ Bool.and_self _] at hfilter
  exact (hfilter.eq_of_length ((sorted_perm cmp l).filter _).length_eq.symm).symm

/-- A list in ascending order is determined by those of its elements that compare equal. -/
theorem eq_of_filter_eq {l l' : List α} (h : l.Pairwise fun a b ↦ (cmp a b).isLE = true)
    (h' : l'.Pairwise fun a b ↦ (cmp a b).isLE = true)
    (heq : ∀ x, l.filter (alike cmp x) = l'.filter (alike cmp x)) : l = l' := by
  induction l generalizing l' with
  | nil =>
    refine (List.eq_nil_iff_forall_not_mem.mpr fun x hx ↦ ?_).symm
    have hmem := List.mem_filter.mpr ⟨hx, alike_self cmp x⟩
    rw [← heq x] at hmem
    exact List.not_mem_nil hmem
  | cons a rest ih =>
    have hmem : ∀ x, x ∈ a :: rest ↔ x ∈ l' := fun x ↦ by
      have hx : x ∈ (a :: rest).filter (alike cmp x) ↔ x ∈ l'.filter (alike cmp x) := by rw [heq x]
      simpa only [List.mem_filter, alike_self cmp x, and_true] using hx
    cases l' with
    | nil => exact absurd ((hmem a).mp List.mem_cons_self) List.not_mem_nil
    | cons b rest' =>
      obtain ⟨hleast, hrest⟩ := List.pairwise_cons.mp h
      obtain ⟨hleast', hrest'⟩ := List.pairwise_cons.mp h'
      -- Each of the two heads is least in both lists, so they compare equal.
      have hab : (cmp a b).isLE = true := by
        obtain rfl | hb := List.mem_cons.mp ((hmem b).mpr List.mem_cons_self)
        · exact isLE_self cmp b
        · exact hleast b hb
      have hba : (cmp b a).isLE = true := by
        obtain rfl | ha := List.mem_cons.mp ((hmem a).mp List.mem_cons_self)
        · exact isLE_self cmp a
        · exact hleast' a ha
      have hhead := heq a
      rw [List.filter_cons_of_pos (alike_self cmp a),
        List.filter_cons_of_pos (alike_of_isLE cmp hab hba)] at hhead
      obtain rfl := (List.cons.inj hhead).1
      refine congrArg (a :: ·) (ih hrest hrest' fun x ↦ ?_)
      have hx := heq x
      rw [List.filter_cons, List.filter_cons] at hx
      split at hx
      · exact (List.cons.inj hx).2
      · exact hx

/-- What comes to an ascending list at its end is sorted as if all had been sorted at once. -/
theorem sorted_append_sorted (l l' : List α) : sorted cmp (sorted cmp l ++ l') = sorted cmp (l ++ l') := by
  refine eq_of_filter_eq cmp (pairwise_sorted cmp _) (pairwise_sorted cmp _) fun x ↦ ?_
  rw [filter_sorted, filter_sorted, List.filter_append, List.filter_append, filter_sorted]

end Sorting

end Snapshot

/-- Properties go by name. -/
def byName : String × Value → String × Value → Ordering :=
  compareOn Prod.fst

/-- Edges go by target, and those of one target by type. -/
def Edge.byEnd : Edge → Edge → Ordering :=
  compareLex (compareOn Edge.target) (compareOn Edge.kind)

instance : Std.TransCmp byName :=
  inferInstanceAs (Std.TransCmp (compareOn Prod.fst))

instance : Std.TransCmp Edge.byEnd :=
  inferInstanceAs (Std.TransCmp (compareLex (compareOn Edge.target) (compareOn Edge.kind)))

/-- What is told of an entity, with one value for each property. -/
def EntitySpec.normal (s : EntitySpec) : EntitySpec :=
  { s with props := Snapshot.sorted byName (Snapshot.firsts Prod.fst s.props) }

namespace Snapshot

/-- Whether an entity of the snapshot has a URI. -/
def holds (s : Snapshot) (uri : Uri) : Bool :=
  uri ∈ s.entities.map (·.uri)

/-- Whether both ends of an edge are entities of the snapshot. -/
def joins (s : Snapshot) (e : Edge) : Bool :=
  s.holds e.source && s.holds e.target

/-- The edges that have both of their ends, each of them once. -/
def standing (s : Snapshot) : List Edge :=
  firsts id (s.edges.filter s.joins)

/-- What a snapshot comes to, without what is focused. -/
def normal (s : Snapshot) : Snapshot :=
  ⟨s.entities.map (·.normal), sorted Edge.byEnd s.standing, []⟩

end Snapshot

theorem ne_of_byName_lt {p q : String × Value} (h : byName p q = .lt) : p.1 ≠ q.1 := fun heq ↦ by
  have heq : byName p q = .eq := Std.LawfulEqOrd.compare_eq_iff_eq.mpr heq
  exact Ordering.noConfusion (h.symm.trans heq)

theorem EntitySpec.pairwise_normal (s : EntitySpec) : s.normal.props.Pairwise fun p q ↦ byName p q = .lt := by
  have hperm : s.normal.props.Perm (Snapshot.firsts Prod.fst s.props) := Snapshot.sorted_perm byName _
  have hnodup : (s.normal.props.map Prod.fst).Nodup :=
    (hperm.map Prod.fst).nodup_iff.mpr (Snapshot.nodup_firsts s.props)
  have hsorted : s.normal.props.Pairwise fun p q ↦ (byName p q).isLE = true := Snapshot.pairwise_sorted byName _
  refine (hsorted.and (List.pairwise_map.mp hnodup)).imp fun {p q} hpq ↦ ?_
  have hne : byName p q ≠ .eq := fun heq ↦ hpq.2 (Std.LawfulEqOrd.compare_eq_iff_eq.mp heq)
  have hle := hpq.1
  revert hle hne
  cases byName p q <;> decide

/-- Properties that go by name, and have the first value of each, are those of the normal form. -/
theorem EntitySpec.eq_normal (s : EntitySpec) {l : List (String × Value)}
    (h : l.Pairwise fun p q ↦ byName p q = .lt) (hmem : ∀ p, p ∈ l ↔ s.props.find? (·.1 = p.1) = some p) :
    l = s.normal.props := by
  have : Std.Irrefl fun p q ↦ byName p q = .lt := ⟨fun p hp ↦ ne_of_byName_lt hp rfl⟩
  have : Std.Antisymm fun p q ↦ byName p q = .lt := ⟨fun p q hpq hqp ↦ by
    rw [Std.OrientedCmp.gt_of_lt hpq] at hqp
    exact Ordering.noConfusion hqp⟩
  refine h.eq_of_mem_iff s.pairwise_normal fun p ↦ (hmem p).trans ?_
  have hperm : s.normal.props.Perm (Snapshot.firsts Prod.fst s.props) := Snapshot.sorted_perm byName _
  rw [hperm.mem_iff, Snapshot.mem_firsts_iff]

theorem EntitySpec.normal_normal (s : EntitySpec) : s.normal.normal = s.normal := by
  have hperm : s.normal.props.Perm (Snapshot.firsts Prod.fst s.props) := Snapshot.sorted_perm byName _
  have hnodup : (s.normal.props.map Prod.fst).Nodup :=
    (hperm.map Prod.fst).nodup_iff.mpr (Snapshot.nodup_firsts s.props)
  have hprops : s.normal.normal.props = s.normal.props := by
    calc
      s.normal.normal.props = Snapshot.sorted byName s.normal.props :=
        congrArg (Snapshot.sorted byName) (Snapshot.firsts_of_nodup hnodup)
      _ = s.normal.props := Snapshot.sorted_of_pairwise byName (Snapshot.pairwise_sorted byName _)
  exact congrArg (EntitySpec.mk s.uri s.kind) hprops

/-- Under each name the normal form has what was told of it first. -/
theorem EntitySpec.find?_normal (s : EntitySpec) (name : String) :
    s.normal.props.find? (·.1 = name) = s.props.find? (·.1 = name) := by
  refine Option.ext fun p ↦ ?_
  have hperm : s.normal.props.Perm (Snapshot.firsts Prod.fst s.props) := Snapshot.sorted_perm byName _
  have hnodup : (s.normal.props.map Prod.fst).Nodup :=
    (hperm.map Prod.fst).nodup_iff.mpr (Snapshot.nodup_firsts s.props)
  rw [find?_key_eq_some hnodup, hperm.mem_iff, Snapshot.mem_firsts_iff]
  constructor
  · rintro ⟨hfind, hname⟩
    rwa [hname] at hfind
  · intro hfind
    have hname : p.1 = name := by simpa using List.find?_some hfind
    exact ⟨hname.symm ▸ hfind, hname⟩

namespace Snapshot

theorem joins_of_entities {s s' : Snapshot} (h : s'.entities.map (·.uri) = s.entities.map (·.uri)) :
    s'.joins = s.joins := by
  funext e
  rw [joins, holds, holds, h]
  rfl

theorem joins_normal (s : Snapshot) : s.normal.joins = s.joins :=
  joins_of_entities (by rw [normal, List.map_map]; rfl)

theorem nodup_standing (s : Snapshot) : s.standing.Nodup := by
  have hnodup : (s.standing.map id).Nodup := nodup_firsts _
  rwa [List.map_id] at hnodup

/-- What has been brought to its normal form stays as it is. -/
theorem normal_normal (s : Snapshot) : s.normal.normal = s.normal := by
  have hperm : s.normal.edges.Perm s.standing := sorted_perm Edge.byEnd _
  have hends : s.normal.edges.filter s.normal.joins = s.normal.edges := by
    refine List.filter_eq_self.mpr fun e he ↦ ?_
    rw [joins_normal]
    exact (List.mem_filter.mp ((firsts_sublist _).subset (hperm.mem_iff.mp he))).2
  have hstanding : s.normal.standing = s.normal.edges := by
    rw [standing, hends, firsts_of_nodup]
    rw [List.map_id]
    exact hperm.nodup_iff.mpr s.nodup_standing
  have hedges : s.normal.normal.edges = s.normal.edges := by
    calc
      s.normal.normal.edges = sorted Edge.byEnd s.normal.edges := congrArg (sorted Edge.byEnd) hstanding
      _ = s.normal.edges := sorted_of_pairwise Edge.byEnd (pairwise_sorted Edge.byEnd _)
  have hentities : s.normal.normal.entities = s.normal.entities := by
    rw [normal, normal, List.map_map]
    exact List.map_congr_left fun spec _ ↦ spec.normal_normal
  calc
    s.normal.normal = ⟨s.normal.normal.entities, s.normal.normal.edges, []⟩ := rfl
    _ = s.normal := by
      rw [hentities, hedges]
      rfl

/-- One more entity. -/
def withEntity (s : Snapshot) (spec : EntitySpec) : Snapshot :=
  { s with entities := s.entities ++ [spec.normal] }

/-- One more edge, where it has both of its ends and is not there yet. -/
def withEdge (s : Snapshot) (e : Edge) : Snapshot :=
  if s.joins e ∧ e ∉ s.edges then { s with edges := sorted Edge.byEnd (s.edges ++ [e]) } else s

theorem foldl_withEntity (s : Snapshot) (specs : List EntitySpec) :
    specs.foldl withEntity s = { s with entities := s.entities ++ specs.map (·.normal) } := by
  induction specs generalizing s with
  | nil => exact congrArg (fun entities ↦ (⟨entities, s.edges, s.focus⟩ : Snapshot)) (List.append_nil _).symm
  | cons spec rest ih =>
    rw [List.foldl_cons, ih, withEntity, List.append_assoc]
    rfl

@[simp] theorem entities_withEdge (s : Snapshot) (e : Edge) : (s.withEdge e).entities = s.entities := by
  rw [withEdge]
  split <;> rfl

@[simp] theorem focus_withEdge (s : Snapshot) (e : Edge) : (s.withEdge e).focus = s.focus := by
  rw [withEdge]
  split <;> rfl

/-- Edges that come one after the other. -/
theorem foldl_withEdge (s : Snapshot) (l : List Edge) (hl : s.edges = sorted Edge.byEnd (firsts id l))
    (edges : List Edge) : edges.foldl withEdge s =
      { s with edges := sorted Edge.byEnd (firsts id (l ++ edges.filter s.joins)) } := by
  induction edges generalizing s l with
  | nil => rw [List.foldl_nil, List.filter_nil, List.append_nil, ← hl]
  | cons e rest ih =>
    have hmem : e ∈ s.edges ↔ e ∈ l := by
      have hfirsts : e ∈ (firsts id l).map id ↔ e ∈ l.map id := mem_map_firsts
      rw [List.map_id, List.map_id] at hfirsts
      rw [hl, (sorted_perm Edge.byEnd _).mem_iff, hfirsts]
    rw [List.foldl_cons]
    cases hends : s.joins e with
    | true =>
      have hnext : (s.withEdge e).edges = sorted Edge.byEnd (firsts id (l ++ [e])) := by
        rw [firsts_concat, List.map_id, withEdge]
        by_cases hold : e ∈ l
        · rw [if_neg fun hnew ↦ hnew.2 (hmem.mpr hold), if_pos (show id e ∈ l from hold), List.append_nil, hl]
        · rw [if_pos ⟨hends, fun he ↦ hold (hmem.mp he)⟩, if_neg (show ¬id e ∈ l from hold)]
          change sorted Edge.byEnd (s.edges ++ [e]) = _
          rw [hl, sorted_append_sorted]
      rw [ih _ _ hnext, joins_of_entities (congrArg _ (s.entities_withEdge e)), entities_withEdge, focus_withEdge,
        List.append_assoc, List.singleton_append, List.filter_cons_of_pos hends]
    | false =>
      have hmissing : ¬s.joins e = true := fun h ↦ Bool.noConfusion (hends.symm.trans h)
      have hsame : s.withEdge e = s := if_neg fun hnew ↦ hmissing hnew.1
      rw [hsame, ih s l hl, List.filter_cons_of_neg hmissing]

/-- The normal form is what comes of the entities and then of the edges, one after the other. -/
theorem normal_eq_foldl (s : Snapshot) :
    s.normal = s.edges.foldl withEdge (s.entities.foldl withEntity ⟨[], [], []⟩) := by
  have hjoins : (⟨s.entities.map (·.normal), [], []⟩ : Snapshot).joins = s.joins := s.joins_normal
  rw [foldl_withEntity]
  change s.normal = s.edges.foldl withEdge ⟨s.entities.map (·.normal), [], []⟩
  rw [foldl_withEdge _ [] List.mergeSort_nil.symm, hjoins]
  rfl

end Snapshot

end LiveGraph
