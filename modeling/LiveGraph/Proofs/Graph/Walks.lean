import LiveGraph.Proofs.Store.Ground
import LiveGraph.Relation
import Mathlib.Order.Lattice.Nat

/-!
# Walks find the nearest entities

A walk along a transitive relation goes through the graph in rounds. After each round it has met
exactly what can be reached in as many steps without going on from an entity of the wanted type, so
it finds the first ones of that type on every way, nearest first, whatever cycles the graph has.
-/

namespace LiveGraph

namespace Relation

variable (r : Relation) (w : World) (s : StoreId) (e : EntityRef)

/-- An entity of the wanted type, where a walk goes no further. -/
def endsAt (x : EntityRef) : Bool :=
  r.kind.isSome && r.admits w x

/-- The edge that leads, in the direction of the relation, from one URI to another. -/
def edgeTo (source target : Uri) : Edge :=
  match r.direction with
  | .outgoing => ⟨r.edge, source, target⟩
  | .incoming => ⟨r.edge, target, source⟩

/-- There is an edge along which the relation goes from an entity on to one that is live. -/
def Leads (x y : EntityRef) : Prop :=
  w.IsLive s y ∧ r.edgeTo (w.uriOf x) (w.uriOf y) ∈ (w.store s).edges.edges

/-- A path of so many edges from the start to an entity, along which the relation leads; none of the
entities in between is of the wanted type. -/
inductive Path : Nat → EntityRef → Prop
  | start : Path 0 e
  | step {n : Nat} {x y : EntityRef} (path : Path n x) (inner : 0 < n → r.endsAt w x = false)
    (leads : r.Leads w s x y) : Path (n + 1) y

/-- The number of edges of the shortest path to an entity. -/
noncomputable def distance (x : EntityRef) : Nat :=
  sInf {n | r.Path w s e n x}

/-- The nearest entities of the wanted type on every path from the start: each of them once, those at
the URI of the start left out, and the nearer ones first. -/
structure Nearest (found : List EntityRef) : Prop where
  nodup : found.Nodup
  mem_iff : ∀ x, x ∈ found ↔ w.IsLive s x ∧ r.admits w x = true ∧ w.uriOf x ≠ w.uriOf e ∧
    ∃ n ≤ Schema.maxSteps, r.Path w s e n x
  start_notMem : e ∉ found
  ordered : found.Pairwise fun x y ↦ r.distance w s e x ≤ r.distance w s e y

/-! ## One step -/

theorem value_stepAll (es : List EntityRef) (walk : Walk) : (r.stepAll s es walk).value w =
    (es.flatMap fun x ↦ (r.step s x).value w).foldl (r.meet w) walk := by
  induction es generalizing walk with
  | nil => rfl
  | cons x rest ih =>
    rw [List.flatMap_cons, List.foldl_append]
    exact ih _

/-- Where a step leads to is live, and there is an edge. -/
theorem mem_step {r : Relation} {w : World} {s : StoreId} (h : w.Integral s) {x y : EntityRef} :
    y ∈ (r.step s x).value w ↔ r.Leads w s x y := by
  have hfound : ∀ uris : List Uri, y ∈ uris.filterMap (w.find? s) ↔ w.IsLive s y ∧ w.uriOf y ∈ uris := by
    intro uris
    rw [List.mem_filterMap]
    constructor
    · rintro ⟨uri, huri, hfind⟩
      obtain ⟨hlive, heq⟩ := (h.find_iff uri y).mp hfind
      exact ⟨hlive, heq.symm ▸ huri⟩
    · rintro ⟨hlive, huri⟩
      exact ⟨w.uriOf y, huri, (h.find_iff _ y).mpr ⟨hlive, rfl⟩⟩
  rw [step, Leads, edgeTo]
  cases r.direction with
  | outgoing =>
    rw [← h.mem_targets]
    exact (Store.value_lookupAll s w _ ▸ hfound _)
  | incoming =>
    rw [← h.mem_sources]
    exact (Store.value_lookupAll s w _ ▸ hfound _)

/-- The entities of a list that are met for the first time, each at its first place. -/
def fresh (w : World) : List Uri → List EntityRef → List EntityRef
  | _, [] => []
  | seen, x :: rest =>
    if seen.contains (w.uriOf x) then fresh w seen rest
    else x :: fresh w (seen ++ [w.uriOf x]) rest

theorem foldl_meet (es : List EntityRef) (walk : Walk) : es.foldl (r.meet w) walk =
    { seen := walk.seen ++ (fresh w walk.seen es).map w.uriOf
      found := walk.found ++ (fresh w walk.seen es).filter (r.admits w)
      next := walk.next ++ (fresh w walk.seen es).filter fun x ↦ !r.endsAt w x } := by
  induction es generalizing walk with
  | nil => simp [fresh]
  | cons x rest ih =>
    rw [List.foldl_cons, ih, fresh, meet]
    by_cases hseen : walk.seen.contains (w.uriOf x) = true
    · rw [if_pos hseen, if_pos hseen]
    · rw [if_neg hseen, if_neg hseen]
      cases hends : r.endsAt w x <;> cases hadmits : r.admits w x <;>
        simp_all [endsAt]

theorem subset_fresh (seen : List Uri) (es : List EntityRef) : fresh w seen es ⊆ es := by
  induction es generalizing seen with
  | nil => exact List.Subset.refl _
  | cons x rest ih =>
    rw [fresh]
    split
    · exact List.subset_cons_of_subset x (ih seen)
    · exact List.cons_subset_cons x (ih _)

/-- What is fresh was not seen before. -/
theorem notMem_seen_of_fresh {w : World} {seen : List Uri} {es : List EntityRef} {x : EntityRef}
    (hx : x ∈ fresh w seen es) : w.uriOf x ∉ seen := by
  induction es generalizing seen with
  | nil => exact absurd hx List.not_mem_nil
  | cons y rest ih =>
    rw [fresh] at hx
    split at hx
    · exact ih hx
    · rename_i hseen
      rcases List.mem_cons.mp hx with rfl | hx
      · simpa using hseen
      · exact fun hmem ↦ ih hx (List.mem_append_left _ hmem)

theorem nodup_fresh (seen : List Uri) (es : List EntityRef) : (fresh w seen es).Nodup := by
  induction es generalizing seen with
  | nil => exact List.nodup_nil
  | cons x rest ih =>
    rw [fresh]
    split
    · exact ih seen
    · refine List.nodup_cons.mpr ⟨fun hx ↦ ?_, ih _⟩
      exact notMem_seen_of_fresh hx (List.mem_append_right _ (List.mem_singleton_self _))

/-- Everything in the list has been seen afterwards, before or now. -/
theorem seen_of_mem {w : World} {es : List EntityRef} {x : EntityRef} (hx : x ∈ es) (seen : List Uri) :
    w.uriOf x ∈ seen ++ (fresh w seen es).map w.uriOf := by
  induction es generalizing seen with
  | nil => exact absurd hx List.not_mem_nil
  | cons y rest ih =>
    rw [fresh]
    split
    · rename_i hseen
      rcases List.mem_cons.mp hx with rfl | hx
      · exact List.mem_append_left _ (List.contains_iff_mem.mp hseen)
      · exact ih hx seen
    · rw [List.map_cons, List.append_cons]
      rcases List.mem_cons.mp hx with rfl | hx
      · exact List.mem_append_left _ (List.mem_append_right _ (List.mem_singleton_self _))
      · exact ih hx _

/-! ## Rounds -/

/-- A URI that some path of at most so many edges leads to. -/
def Met (n : Nat) (uri : Uri) : Prop :=
  ∃ m ≤ n, ∃ x, r.Path w s e m x ∧ w.uriOf x = uri

/-- An entity at the end of a path of so many edges, where no shorter path leads to its URI. -/
def First (n : Nat) (x : EntityRef) : Prop :=
  r.Path w s e n x ∧ ∀ m < n, ¬r.Met w s e m (w.uriOf x)

/-- A walk after so many rounds: it has seen what can be reached in as many steps, and found what is
of the wanted type there, in the order of the rounds; it goes on from what it met last. -/
structure Layered (n : Nat) (walk : Walk) : Prop where
  seen_iff : ∀ uri, uri ∈ walk.seen ↔ r.Met w s e n uri
  next_iff : ∀ x, x ∈ walk.next ↔ r.First w s e n x ∧ (0 < n → r.endsAt w x = false)
  found_iff : ∀ x, x ∈ walk.found ↔ r.admits w x = true ∧ ∃ m ≤ n, 0 < m ∧ r.First w s e m x
  nodup : walk.found.Nodup
  ordered : walk.found.Pairwise fun x y ↦ r.distance w s e x ≤ r.distance w s e y

section Rounds

variable {r : Relation} {w : World} {s : StoreId} {e x y : EntityRef} {n m : Nat} {uri : Uri}

theorem Path.isLive (h : r.Path w s e n x) (hn : 0 < n) : w.IsLive s x := by
  cases h with
  | start => exact absurd hn (Nat.lt_irrefl 0)
  | step path inner leads => exact leads.1

theorem Path.met (h : r.Path w s e n x) : r.Met w s e n (w.uriOf x) :=
  ⟨n, Nat.le_refl n, x, h, rfl⟩

theorem Met.mono (h : r.Met w s e m uri) (hle : m ≤ n) : r.Met w s e n uri := by
  obtain ⟨k, hk, x, hx, huri⟩ := h
  exact ⟨k, hk.trans hle, x, hx, huri⟩

theorem First.distance_eq (h : r.First w s e n x) : r.distance w s e x = n := by
  apply le_antisymm
  · exact Nat.sInf_le h.1
  · apply le_csInf ⟨n, h.1⟩
    intro m hm
    by_contra hlt
    exact h.2 m (Nat.lt_of_not_le hlt) (Path.met hm)

/-- If an entity on a path was met sooner under the same URI, then the path is longer than it needs to
be: its next entity is reached from there. -/
theorem Path.shortcut {x' : EntityRef} (hw : w.Integral s) (hx : r.Path w s e n x)
    (inner : 0 < n → r.endsAt w x = false) (hleads : r.Leads w s x y) (hx' : r.Path w s e m x')
    (hmn : m < n) (huri : w.uriOf x' = w.uriOf x) : r.Path w s e (m + 1) y := by
  have hn : 0 < n := Nat.zero_lt_of_lt hmn
  refine .step hx' (fun hm ↦ ?_) ⟨hleads.1, huri.symm ▸ hleads.2⟩
  have heq : x' = x := hw.uri_inj x' x (hx'.isLive hm) (hx.isLive hn) huri
  exact heq ▸ inner hn

/-- An entity met first in a round is one step away from an entity met first in the round before. -/
theorem First.exists_leads (hw : w.Integral s) (h : r.First w s e (n + 1) y) :
    ∃ x, r.First w s e n x ∧ (0 < n → r.endsAt w x = false) ∧ r.Leads w s x y := by
  obtain ⟨hy, hfirst⟩ := h
  cases hy with
  | @step _ x _ hx inner leads =>
    refine ⟨x, ⟨hx, fun m hm hmet ↦ ?_⟩, inner, leads⟩
    obtain ⟨k, hk, x', hx', huri⟩ := hmet
    have hlt : k < n := Nat.lt_of_le_of_lt hk hm
    exact hfirst (k + 1) (Nat.succ_lt_succ hlt) (hx.shortcut hw inner leads hx' hlt huri).met

/-- What can be reached at all apart from the URI of the start is met first in some round. -/
theorem exists_first_iff (hw : w.Integral s) : (∃ m ≤ n, 0 < m ∧ r.First w s e m x) ↔
    w.IsLive s x ∧ w.uriOf x ≠ w.uriOf e ∧ ∃ m ≤ n, r.Path w s e m x := by
  classical
  constructor
  · rintro ⟨m, hle, hpos, hpath, hfirst⟩
    refine ⟨hpath.isLive hpos, fun huri ↦ ?_, m, hle, hpath⟩
    exact hfirst 0 hpos (huri ▸ Path.start.met)
  · rintro ⟨hlive, huri, m, hle, hpath⟩
    have hmet : ∃ k, r.Met w s e k (w.uriOf x) := ⟨m, hpath.met⟩
    obtain ⟨k, hk, x', hx', huri'⟩ := Nat.find_spec hmet
    have hfirst : ∀ j < k, ¬r.Met w s e j (w.uriOf x) := fun j hj ↦
      Nat.find_min hmet (hj.trans_le hk)
    have hpos : 0 < k := by
      apply Nat.pos_of_ne_zero
      rintro rfl
      cases hx'
      exact huri huri'.symm
    have heq : x' = x := hw.uri_inj x' x (hx'.isLive hpos) hlive huri'
    subst heq
    exact ⟨k, (hk.trans (Nat.find_min' hmet hpath.met)).trans hle, hpos, hx', hfirst⟩

/-- Before its first round a walk has met its start. -/
theorem layered_start : r.Layered w s e 0 ⟨[w.uriOf e], [], [e]⟩ where
  seen_iff uri := by
    rw [List.mem_singleton]
    constructor
    · rintro rfl
      exact Path.start.met
    · rintro ⟨m, hm, x, hx, rfl⟩
      obtain rfl := Nat.le_zero.mp hm
      cases hx
      rfl
  next_iff x := by
    rw [List.mem_singleton]
    constructor
    · rintro rfl
      exact ⟨⟨.start, fun m hm ↦ absurd hm (Nat.not_lt_zero m)⟩, fun h ↦ absurd h (Nat.lt_irrefl 0)⟩
    · rintro ⟨⟨hx, -⟩, -⟩
      cases hx
      rfl
  found_iff x := by
    refine iff_of_false List.not_mem_nil ?_
    rintro ⟨-, m, hm, hpos, -⟩
    omega
  nodup := List.nodup_nil
  ordered := List.Pairwise.nil

/-- One round more. -/
theorem Layered.round (hw : w.Integral s) {walk : Walk} (h : r.Layered w s e n walk) :
    r.Layered w s e (n + 1) ((r.stepAll s walk.next { walk with next := [] }).value w) := by
  let es := walk.next.flatMap fun x ↦ (r.step s x).value w
  let new := fresh w walk.seen es
  -- what is new in this round is what is met first in it
  have hnew : ∀ y, y ∈ new ↔ r.First w s e (n + 1) y := by
    have hfirst : ∀ y ∈ new, r.First w s e (n + 1) y := by
      intro y hy
      obtain ⟨x, hx, hxy⟩ := List.mem_flatMap.mp (subset_fresh w _ _ hy)
      obtain ⟨⟨hpath, -⟩, hinner⟩ := (h.next_iff x).mp hx
      refine ⟨.step hpath hinner ((mem_step hw).mp hxy), fun m hm hmet ↦ ?_⟩
      exact notMem_seen_of_fresh hy ((h.seen_iff _).mpr (hmet.mono (Nat.le_of_lt_succ hm)))
    refine fun y ↦ ⟨hfirst y, fun hy ↦ ?_⟩
    obtain ⟨x, hx, hinner, hleads⟩ := hy.exists_leads hw
    have hmem : y ∈ es :=
      List.mem_flatMap.mpr ⟨x, (h.next_iff x).mpr ⟨hx, hinner⟩, (mem_step hw).mpr hleads⟩
    have hunseen : w.uriOf y ∉ walk.seen := fun hseen ↦
      hy.2 n (Nat.lt_succ_self n) ((h.seen_iff _).mp hseen)
    rcases List.mem_append.mp (seen_of_mem hmem walk.seen) with hseen | hfresh
    · exact absurd hseen hunseen
    · obtain ⟨y', hy', huri⟩ := List.mem_map.mp hfresh
      have hlive := (hfirst y' hy').1.isLive (Nat.succ_pos n)
      exact hw.uri_inj y' y hlive (hy.1.isLive (Nat.succ_pos n)) huri ▸ hy'
  have hwalk : (r.stepAll s walk.next { walk with next := [] }).value w =
      ⟨walk.seen ++ new.map w.uriOf, walk.found ++ new.filter (r.admits w),
        new.filter fun x ↦ !r.endsAt w x⟩ := by
    rw [value_stepAll, foldl_meet]
    rfl
  rw [hwalk]
  exact
    { seen_iff := fun uri ↦ by
        rw [List.mem_append, h.seen_iff, List.mem_map]
        constructor
        · rintro (hmet | ⟨x, hx, rfl⟩)
          · exact hmet.mono (Nat.le_succ n)
          · exact ((hnew x).mp hx).1.met
        · intro hmet
          by_cases hold : r.Met w s e n uri
          · exact .inl hold
          · obtain ⟨m, hm, x, hx, rfl⟩ := hmet
            have hlast : m = n + 1 := by
              by_contra hne
              exact hold (hx.met.mono (by omega))
            subst hlast
            exact .inr ⟨x, (hnew x).mpr ⟨hx, fun k hk hmet ↦ hold (hmet.mono (Nat.le_of_lt_succ hk))⟩, rfl⟩
      next_iff := fun x ↦ by
        rw [List.mem_filter, hnew, Bool.not_eq_true']
        exact and_congr_right fun _ ↦ ⟨fun hends _ ↦ hends, fun hends ↦ hends (Nat.succ_pos n)⟩
      found_iff := fun x ↦ by
        rw [List.mem_append, h.found_iff, List.mem_filter, hnew]
        constructor
        · rintro (⟨hadmits, m, hm, hpos, hfirst⟩ | ⟨hfirst, hadmits⟩)
          · exact ⟨hadmits, m, hm.trans (Nat.le_succ n), hpos, hfirst⟩
          · exact ⟨hadmits, n + 1, Nat.le_refl _, Nat.succ_pos n, hfirst⟩
        · rintro ⟨hadmits, m, hm, hpos, hfirst⟩
          rcases Nat.le_succ_iff.mp hm with hm | rfl
          · exact .inl ⟨hadmits, m, hm, hpos, hfirst⟩
          · exact .inr ⟨hfirst, hadmits⟩
      nodup := by
        refine h.nodup.append ((nodup_fresh w _ _).filter _) fun x hx hx' ↦ ?_
        obtain ⟨-, m, hm, -, hfirst⟩ := (h.found_iff x).mp hx
        have hlast := ((hnew x).mp (List.mem_filter.mp hx').1).distance_eq
        rw [hfirst.distance_eq] at hlast
        omega
      ordered := by
        have hdistance : ∀ x ∈ new.filter (r.admits w), r.distance w s e x = n + 1 := fun x hx ↦
          ((hnew x).mp (List.mem_filter.mp hx).1).distance_eq
        refine List.pairwise_append.mpr ⟨h.ordered, ?_, fun x hx y hy ↦ ?_⟩
        · refine List.pairwise_of_forall_mem_list fun x hx y hy ↦ ?_
          rw [hdistance x hx, hdistance y hy]
        · obtain ⟨-, m, hm, -, hfirst⟩ := (h.found_iff x).mp hx
          rw [hfirst.distance_eq, hdistance y hy]
          exact hm.trans (Nat.le_succ n) }

/-- A walk that has nowhere to go stays as it is, however many rounds it is given. -/
theorem Layered.stays (hw : w.Integral s) {walk : Walk} (h : r.Layered w s e n walk)
    (hnext : walk.next = []) (k : Nat) : r.Layered w s e (n + k) walk := by
  induction k with
  | zero => exact h
  | succ k ih =>
    have hround := ih.round hw
    obtain ⟨seen, found, next⟩ := walk
    subst hnext
    exact hround

theorem Layered.walk (hw : w.Integral s) {walked : Walk} (h : r.Layered w s e n walked) (k : Nat) :
    r.Layered w s e (n + k) ((r.walk s k walked).value w) := by
  induction k generalizing n walked with
  | zero => exact h
  | succ k ih =>
    have hround := h.round hw
    have heq : n + (k + 1) = n + 1 + k := by omega
    rw [Relation.walk, Reads.value_bind, heq]
    split
    · rename_i hempty
      exact hround.stays hw (List.isEmpty_iff.mp hempty) k
    · exact ih hround

end Rounds

/-- Followed from an entity, a transitive relation leads to the nearest entities of its type on every
path of at most 64 edges, to each of them once and to the nearer ones first, but never back to the start. -/
theorem follow_nearest (hw : w.Integral s) (htransitive : r.transitive = true) :
    r.Nearest w s e ((r.follow s e).value w) := by
  have hwalk := layered_start.walk (r := r) (e := e) hw Schema.maxSteps
  have hfollow : (r.follow s e).value w =
      ((r.walk s Schema.maxSteps ⟨[w.uriOf e], [], [e]⟩).value w).found := by
    rw [follow, if_pos htransitive]
    rfl
  rw [Nat.zero_add] at hwalk
  rw [hfollow]
  have hmem := fun x ↦ (hwalk.found_iff x).trans (and_congr_right fun _ ↦ exists_first_iff hw)
  exact
    { nodup := hwalk.nodup
      mem_iff := fun x ↦ (hmem x).trans and_left_comm
      start_notMem := fun he ↦ ((hmem e).mp he).2.2.1 rfl
      ordered := hwalk.ordered }

/-! ## A graph with loops -/

/-- One more entity in the store. -/
def withEntity (w : World) (uri : Uri) (kind : String) : World :=
  let (e, w) := w.addIncarnation 0 uri kind
  w.enlist e

/-- One more parent of an entity. -/
def withParent (w : World) (child parent : Uri) : World :=
  match (w.store 0).edges.insert? ⟨Schema.parentKind, child, parent⟩ false with
  | some edges => w.modifyStore 0 fun s ↦ { s with edges := edges }
  | none => w

theorem ground_withEntity {w : World} (h : Ground (fun _ ↦ False) w) (uri : Uri) (kind : String)
    (hfree : w.contains 0 uri = false) : Ground (fun _ ↦ False) (withEntity w uri kind) :=
  (OnGround.enlist (OnGround.addIncarnation h uri kind hfree)).1

theorem ground_withParent {w : World} (h : Ground (fun _ ↦ False) w) (child parent : Uri)
    (hchild : w.contains 0 child) (hparent : w.contains 0 parent) :
    Ground (fun _ ↦ False) (withParent w child parent) := by
  unfold withParent
  split
  · rename_i edges hinsert
    exact OnGround.link h hchild hparent hinsert
  · exact h

def unlooped : World :=
  withEntity (withEntity (Session.start Schema.debugger false) "s" "session") "t" "thread"

/-- A session and a thread that are each other's parents, and the thread is its own parent too. -/
def looped : World :=
  withParent (withParent (withParent unlooped "t" "t") "t" "s") "s" "t"

theorem integral_looped : looped.Integral 0 := by
  have hstart := (ground_start Schema.debugger false).holds.1
  have hunlooped : Ground (fun _ ↦ False) unlooped :=
    ground_withEntity (ground_withEntity hstart "s" "session" (by decide +kernel)) "t" "thread"
      (by decide +kernel)
  have hself := ground_withParent hunlooped "t" "t" (by decide +kernel) (by decide +kernel)
  have hup := ground_withParent hself "t" "s" (by decide +kernel) (by decide +kernel)
  have hdown := ground_withParent hup "s" "t" (by decide +kernel) (by decide +kernel)
  exact World.integral_of_coherent hdown.coherent

theorem follow_nearest_looped :
    (looped.Integral 0 ∧ (Schema.nearest "session").transitive = true) ∧
      (Schema.nearest "session").Nearest looped 0 ⟨0, 2⟩
        (((Schema.nearest "session").follow 0 ⟨0, 2⟩).value looped) ∧
      ((Schema.nearest "session").follow 0 ⟨0, 2⟩).value looped = [⟨0, 1⟩] :=
  ⟨⟨integral_looped, rfl⟩, follow_nearest (Schema.nearest "session") looped 0 ⟨0, 2⟩ integral_looped rfl,
    by decide +kernel⟩

end Relation

end LiveGraph
