import LiveGraph.Proofs.Orders
import LiveGraph.Proofs.Store.Lifetimes
import LiveGraph.View.Basic
import Mathlib.Data.List.TakeWhile

/-!
# Arranged worlds

The rows of a view stand in the order of its query, and there is one for each entity that matches, but for entities
the view was not told of yet.
-/

/-!
## The order of rows

Rows are ordered by key, in the direction of the query, and by age where the keys are the same. A
row is placed among sorted rows so that they stay sorted.
-/

namespace LiveGraph.Query

open Std

variable (q : Query) {a b c : Row}

/-- How the keys of two rows compare, in the direction of the query. -/
def compareKeys (a b : Row) : Ordering :=
  if q.isDescending then compare b.key a.key else compare a.key b.key

theorem precedes_iff : q.precedes a b = true ↔
    q.compareKeys a b = .lt ∨ q.compareKeys a b = .eq ∧ a.entity.serial < b.entity.serial := by
  have h : (if q.isDescending then compare b.key a.key else compare a.key b.key) =
      q.compareKeys a b := rfl
  rw [precedes, h]
  cases q.compareKeys a b <;> simp

theorem compareKeys_trans_lt (hab : q.compareKeys a b = .lt) (hbc : q.compareKeys b c ≠ .gt) :
    q.compareKeys a c = .lt := by
  have hle := Ordering.isLE_iff_ne_gt.mpr hbc
  cases hdescending : q.isDescending with
  | true =>
    simp only [compareKeys, hdescending, if_true] at hab hle ⊢
    exact TransCmp.lt_of_isLE_of_lt hle hab
  | false =>
    simp only [compareKeys, hdescending, Bool.false_eq_true, if_false] at hab hle ⊢
    exact TransCmp.lt_of_lt_of_isLE hab hle

theorem compareKeys_eq_iff : q.compareKeys a b = .eq ↔ a.key = b.key := by
  unfold compareKeys
  split
  · rw [LawfulEqOrd.compare_eq_iff_eq, eq_comm]
  · exact LawfulEqOrd.compare_eq_iff_eq

theorem precedes_trans (hab : q.precedes a b = true) (hbc : q.precedes b c = true) :
    q.precedes a c = true := by
  rw [precedes_iff] at *
  rcases hab with hab | ⟨hab, hserial⟩
  · refine .inl (q.compareKeys_trans_lt hab ?_)
    rcases hbc with hbc | ⟨hbc, -⟩ <;> simp [hbc]
  · rw [compareKeys_eq_iff] at hab
    have hkeys : q.compareKeys a c = q.compareKeys b c := by rw [compareKeys, compareKeys, hab]
    rw [hkeys]
    exact hbc.imp_right fun h ↦ ⟨h.1, Nat.lt_trans hserial h.2⟩

/-- Of two rows of different age one precedes the other. -/
theorem precedes_total (h : a.entity.serial ≠ b.entity.serial) (hnot : q.precedes a b = false) :
    q.precedes b a = true := by
  rw [← Bool.not_eq_true, precedes_iff, not_or] at hnot
  rw [precedes_iff]
  have hswap : q.compareKeys b a = (q.compareKeys a b).swap := by
    unfold compareKeys
    split <;> exact OrientedCmp.eq_swap
  rw [hswap]
  cases hkeys : q.compareKeys a b with
  | lt => exact absurd hkeys hnot.1
  | eq => exact .inr ⟨rfl, by have := hnot.2; simp [hkeys] at this; omega⟩
  | gt => exact .inl rfl

/-- Rows as they should stand: each before all that follow. -/
def Sorted (rows : List Row) : Prop :=
  rows.Pairwise fun a b ↦ q.precedes a b = true

variable {q}

theorem place_perm (row : Row) (rows : List Row) : (q.place row rows).Perm (row :: rows) := by
  have hsplit := List.takeWhile_append_dropWhile (p := (q.precedes · row)) (l := rows)
  refine List.perm_middle.trans (.cons row ?_)
  rw [hsplit]

theorem Sorted.place {row : Row} {rows : List Row} (h : q.Sorted rows)
    (hnew : ∀ r ∈ rows, r.entity.serial ≠ row.entity.serial) : q.Sorted (q.place row rows) := by
  have hsplit := List.takeWhile_append_dropWhile (p := (q.precedes · row)) (l := rows)
  have hsorted := h
  rw [Sorted, ← hsplit, List.pairwise_append] at hsorted
  obtain ⟨hbefore, hafter, hcross⟩ := hsorted
  have htake : ∀ r ∈ rows.takeWhile (q.precedes · row), q.precedes r row = true := fun r hr ↦
    List.mem_takeWhile_imp (p := (q.precedes · row)) hr
  have hdrop : ∀ r ∈ rows.dropWhile (q.precedes · row), q.precedes row r = true := by
    cases hrest : rows.dropWhile (q.precedes · row) with
    | nil => simp
    | cons first rest =>
      have hmem : ∀ r ∈ first :: rest, r ∈ rows := fun r hr ↦
        List.dropWhile_subset _ (hrest ▸ hr)
      have hnot : q.precedes first row = false := by
        have hhead := List.head?_dropWhile_not (q.precedes · row) rows
        simpa [hrest] using hhead
      have hfirst := q.precedes_total (hnew first (hmem first List.mem_cons_self)) hnot
      intro r hr
      rcases List.mem_cons.mp hr with rfl | hr
      · exact hfirst
      · rw [hrest] at hafter
        exact q.precedes_trans hfirst (List.rel_of_pairwise_cons hafter hr)
  rw [Sorted, Query.place, List.pairwise_append]
  refine ⟨hbefore, List.pairwise_cons.mpr ⟨hdrop, hafter⟩, fun a ha b hb ↦ ?_⟩
  rcases List.mem_cons.mp hb with rfl | hb
  · exact htake a ha
  · exact hcross a ha b hb

/-- Placing rows one after the other puts all of them among the rows there are. -/
theorem foldl_place_perm (row : EntityRef → Row) (es : List EntityRef) (rows : List Row) :
    (es.foldl (fun rows e ↦ q.place (row e) rows) rows).Perm (es.map row ++ rows) := by
  induction es generalizing rows with
  | nil => exact .refl rows
  | cons e rest ih =>
    refine (ih _).trans ?_
    exact ((place_perm (row e) rows).append_left _).trans List.perm_middle

theorem Sorted.foldl_place {row : EntityRef → Row} (hrow : ∀ e, (row e).entity = e)
    {es : List EntityRef} {rows : List Row} (h : q.Sorted rows)
    (hes : es.Pairwise fun a b ↦ a.serial < b.serial)
    (hnew : ∀ e ∈ es, ∀ r ∈ rows, r.entity.serial ≠ e.serial) :
    q.Sorted (es.foldl (fun rows e ↦ q.place (row e) rows) rows) := by
  induction es generalizing rows with
  | nil => exact h
  | cons e rest ih =>
    obtain ⟨hfirst, hrest⟩ := List.pairwise_cons.mp hes
    refine ih (h.place fun r hr ↦ ?_) hrest fun e' he' r hr ↦ ?_
    · rw [hrow]
      exact hnew e List.mem_cons_self r hr
    · rcases List.mem_cons.mp ((place_perm (row e) rows).mem_iff.mp hr) with rfl | hr
      · rw [hrow]
        exact Nat.ne_of_lt (hfirst e' he')
      · exact hnew e' (List.mem_cons_of_mem e he') r hr

end LiveGraph.Query

/-!
## Views and the store

Every view is subscribed to the store and has a row for each match, but for entities it was not told
of yet: those of which it is excused, and those with a property whose notification is put off.
-/

namespace LiveGraph

namespace World

/-- Which callbacks there may be for an event of the store. -/
def Fits (w : World) (event : StoreEvent) : Callback → Prop
  | .script _ _ _ => True
  | .forget _ => True
  | .view id what => what = event ∧ id < w.views.size
  | .property _ _ => False

/-- A view in being is named, and subscribed to what happens in the store. -/
structure Subscribed (w : World) (id : ViewId) : Prop where
  named : ∃ name : String, w.session.views[name]? = some id
  undisposed : (w.view id).disposed = false
  undropped : (w.view id).dropped = false
  kind_eq : ∀ kind predicates sort, (w.view id).query = .filter kind predicates sort →
    (w.view id).kind = kind
  scripts : ∀ entry ∈ (w.view id).watchers.entries, ∃ name filter reaction,
    entry.2 = .script name filter reaction
  listens : ∀ event ∈ [StoreEvent.added, .removed, .updated], ∃ n,
    (n, Callback.view id event) ∈ ((w.store 0).listeners.get event).entries

/-- The callbacks of the store and of the views are in place. -/
structure Hooked (w : World) : Prop where
  listeners : ∀ event, ∀ entry ∈ ((w.store 0).listeners.get event).entries, w.Fits event entry.2
  views : ∀ id < w.views.size, w.Subscribed id

/-- The rows of a view are right, but for entities of which it is excused. -/
structure Filed (w : World) (untold gone : EntityRef → Prop) (v : View) : Prop where
  sorted : v.query.Sorted v.rows
  nodup : (v.rows.map (·.entity)).Nodup
  current : ∀ row ∈ v.rows, row.entity.store = 0 ∧ w.kindOf row.entity = v.kind ∧
    (w.isCurrent row.entity ∨ gone row.entity)
  mem_iff : ∀ e : EntityRef, e.store = 0 → w.isCurrent e → w.kindOf e = v.kind → ¬untold e →
    ¬w.Pending e → (e ∈ v.rows.map (·.entity) ↔ v.query.admits w e)
  key_eq : ∀ row ∈ v.rows, w.isCurrent row.entity → ¬untold row.entity → ¬w.Pending row.entity →
    row.key = v.query.sortKey w row.entity
  window_eq : v.window = v.nextWindow

end World

/-- A view of a filter over a type that is not the wildcard. -/
def View.Filters (v : View) : Prop :=
  ∃ predicates sort, v.query = .filter v.kind predicates sort ∧ v.kind ≠ "*"

/-- Entities some views are excused of. -/
abbrev Excuse := ViewId → EntityRef → Prop

/-- The callbacks are in place, and every view of a filter is right but for what it is excused. -/
structure Arranged (untold gone : Excuse) (w : World) : Prop where
  tied : w.Tied
  hooked : w.Hooked
  filed : ∀ id < w.views.size, (w.view id).Filters → w.Filed (untold id) (gone id) (w.view id)

variable {w w' : World} {untold untold' gone gone' : Excuse}

theorem World.Hooked.congr (h : w.Hooked)
    (hlisteners : (w'.store 0).listeners = (w.store 0).listeners) (hviews : w'.views = w.views)
    (hnames : w'.session.views = w.session.views) : w'.Hooked where
  listeners event entry hentry := by
    rw [hlisteners] at hentry
    have hfits := h.listeners event entry hentry
    unfold World.Fits at hfits ⊢
    rw [hviews]
    exact hfits
  views id hid := by
    rw [hviews] at hid
    have hview : w'.view id = w.view id := by rw [World.view, hviews, World.view]
    obtain ⟨hnamed, hundisposed, hundropped, hkind, hscripts, hlistens⟩ := h.views id hid
    refine ⟨?_, ?_, ?_, ?_, ?_, ?_⟩
    · rwa [hnames]
    · rwa [hview]
    · rwa [hview]
    · rwa [hview]
    · rwa [hview]
    · rwa [hlisteners]

section Query

variable {q : Query} {kind : String} {predicates : List Predicate} {sort : Option SortKey}
variable {e : EntityRef}

/-- What a filter selects depends on the properties of an entity alone. -/
theorem Query.admits_congr (hq : q = .filter kind predicates sort)
    (h : ∀ prop, w'.property e prop = w.property e prop) : q.admits w' e = q.admits w e := by
  subst hq
  simp only [admits, h]

theorem Query.sortKey_congr (hq : q = .filter kind predicates sort)
    (h : ∀ prop, w'.property e prop = w.property e prop) : q.sortKey w' e = q.sortKey w e := by
  subst hq
  cases sort with
  | none => rfl
  | some key => exact h key.field

end Query

theorem World.Filed.mono {u u' g g' : EntityRef → Prop} {v : View} (h : w.Filed u g v)
    (hu : ∀ e, w.isCurrent e → u e → u' e) (hg : ∀ e, g e → g' e) : w.Filed u' g' v where
  sorted := h.sorted
  nodup := h.nodup
  current row hrow := by
    obtain ⟨hstore, hkind, hcurrent⟩ := h.current row hrow
    exact ⟨hstore, hkind, hcurrent.imp_right (hg row.entity)⟩
  mem_iff e he hcurrent hkind hnot := h.mem_iff e he hcurrent hkind fun hun ↦ hnot (hu e hcurrent hun)
  key_eq row hrow hcurrent hnot := h.key_eq row hrow hcurrent fun hun ↦ hnot (hu _ hcurrent hun)
  window_eq := h.window_eq

theorem World.Filed.unmoved {u u' g g' : EntityRef → Prop} {v : View} (hv : v.Filters)
    (h : w.Filed u g v) (hw : Unmoved w w' u u' g g') : w'.Filed u' g' v := by
  obtain ⟨predicates, sort, hquery, -⟩ := hv
  refine ⟨h.sorted, h.nodup, fun row hrow ↦ ?_, fun e he hcurrent hkind hu hp ↦ ?_,
    fun row hrow hcurrent hu hp ↦ ?_, h.window_eq⟩
  · obtain ⟨hstore, hkind, hcurrent⟩ := h.current row hrow
    obtain ⟨-, hkept, hcurrent'⟩ := hw.kept row.entity hstore hcurrent
    exact ⟨hstore, hkept.trans hkind, hcurrent'⟩
  · obtain ⟨hcurrent, hu, hp, hproperty⟩ := hw.same e he hcurrent hu hp
    rw [(hw.kept e he (.inl hcurrent)).2.1] at hkind
    rw [Query.admits_congr hquery fun prop ↦ World.property_congr (hproperty prop)]
    exact h.mem_iff e he hcurrent hkind hu hp
  · have hstore := (h.current row hrow).1
    obtain ⟨hcurrent, hu, hp, hproperty⟩ := hw.same row.entity hstore hcurrent hu hp
    rw [Query.sortKey_congr hquery fun prop ↦ World.property_congr (hproperty prop)]
    exact h.key_eq row hrow hcurrent hu hp

namespace Arranged

/-- A change that moves no rows, as far as the views are not excused. -/
theorem unmoved (h : Arranged untold gone w) (htied : w'.Tied) (hhooked : w'.Hooked)
    (hviews : w'.views = w.views)
    (hmoved : ∀ id, Unmoved w w' (untold id) (untold' id) (gone id) (gone' id)) :
    Arranged untold' gone' w' := by
  refine ⟨htied, hhooked, fun id hid hv ↦ ?_⟩
  have hview : w'.view id = w.view id := by rw [World.view, hviews, World.view]
  rw [hviews] at hid
  rw [hview] at hv ⊢
  exact (h.filed id hid hv).unmoved hv (hmoved id)

/-- More may be excused, and what is not found any more needs no excuse. -/
theorem mono (h : Arranged untold gone w)
    (hu : ∀ id < w.views.size, ∀ e, w.isCurrent e → untold id e → untold' id e)
    (hg : ∀ id < w.views.size, ∀ e, gone id e → gone' id e) : Arranged untold' gone' w :=
  ⟨h.tied, h.hooked, fun id hid hv ↦ (h.filed id hid hv).mono (hu id hid) (hg id hid)⟩

/-- A change that leaves the entities, the callbacks and the views as they are. -/
theorem steady (h : Arranged untold gone w) (hw : Steady w w')
    (hcurrent : ∀ e : EntityRef, e.store = 0 → w.isCurrent e → w.IsLive 0 e)
    (hlive : ∀ s, (w'.store s).live = (w.store s).live)
    (hlisteners : (w'.store 0).listeners = (w.store 0).listeners) (hviews : w'.views = w.views)
    (hnames : w'.session.views = w.session.views) : Arranged untold gone w' :=
  h.unmoved (hw.tied h.tied) (h.hooked.congr hlisteners hviews hnames) hviews fun _ ↦
    hw.unmoved h.tied hcurrent hlive

end Arranged

end LiveGraph

/-!
## Changes of an arranged world

What each change of the signals and of the store means for the views: most leave all rows right,
and the others excuse the views of the one entity they are about.
-/

namespace LiveGraph

variable {w : World}

section Entities

variable {hidden : Nat → Prop} {untold untold' gone gone' : Excuse} {e : EntityRef} {uri : Uri}
variable {kind prop : String} {v : Value}

/-- A new property is excused until its entity was told of. -/
theorem Arranged.addProperty (h : Arranged untold gone w) (hground : Ground hidden w)
    (he : w.IsLive 0 e) (hnone : (w.entity e).props.get? prop = none)
    (hgone : ∀ id e, gone id e → 0 < e.serial)
    (hu : ∀ id e', w.isCurrent e' → untold id e' ∨ e = e' → untold' id e') :
    Arranged untold' gone (w.addProperty e prop v).2 := by
  have hsize : 0 < w.stores.size := by
    rw [hground.stores_size]
    exact Nat.one_pos
  refine h.unmoved (h.tied.addProperty hsize he hnone) ?_ rfl fun id ↦
    h.tied.unmoved_addProperty hground he hnone (hgone id) (hu id)
  exact h.hooked.congr (w.part_modifyStore (·.listeners) (by intro; rfl) _ _) rfl rfl

/-- A new entity has no properties yet. -/
theorem Arranged.addIncarnation (h : Arranged untold gone w) (hground : Ground (fun _ ↦ False) w)
    (hfree : w.contains 0 uri = false) (hgone : ∀ id e, ¬gone id e) :
    Arranged untold gone (w.addIncarnation 0 uri kind).2 := by
  let w₁ := (w.addSignal (.int 0) .same (.entity ⟨0, (w.store 0).incarnations.size + 1⟩)).2
  have hnone : ∀ e : EntityRef, ¬(fun _ ↦ False) e := fun _ h ↦ h
  refine h.unmoved (h.tied.addIncarnation (u := fun _ ↦ False) hground hfree hnone).1 ?_ rfl fun id ↦
    (h.tied.addIncarnation hground hfree (hgone id)).2
  exact h.hooked.congr (w₁.part_modifyStore (·.listeners) (by intro; rfl) _ _) rfl rfl

/-- An entity that can be found from now on is excused until the views were told of it. -/
theorem Arranged.enlist (h : Arranged untold gone w) (hground : OnGround (.coming e uri kind) w)
    (hgone : ∀ id e, ¬gone id e) (hu : ∀ id e', untold id e' ∨ e = e' → untold' id e') :
    Arranged untold' gone (w.enlist e) :=
  h.unmoved ((w.steady_enlist e).tied h.tied)
    (h.hooked.congr (w.part_modifyStore (·.listeners) (by intro; rfl) _ _) rfl rfl) rfl fun id ↦
    h.tied.unmoved_enlist hground (hgone id) (hu id)

/-- An entity that was removed is gone until the views were told of it. -/
theorem Arranged.strike (h : Arranged untold gone w) (hground : Ground (fun _ ↦ False) w)
    (hfound : w.find? 0 uri = some e) (hgone : ∀ id e', gone id e' ∨ e = e' → gone' id e')
    (hpos : ∀ id e', gone id e' → 0 < e'.serial) :
    Arranged untold gone' ((w.strike e).2.retire e) := by
  have hhooked : (w.strike e).2.Hooked :=
    h.hooked.congr (w.part_modifyStore (·.listeners) (by intro; rfl) _ _) rfl rfl
  have hviews : (w.strike e).2.views = w.views := rfl
  have hstruck := World.struck_of_find? hground hfound
  have hended (id : ViewId) : ((w.strike e).2.retire e).Tied ∧ Unmoved w ((w.strike e).2.retire e)
      (untold id) (untold id) (gone id) (gone' id) :=
    h.tied.strike hground hfound (fun _ ↦ .inr) (hgone id) (hpos id)
  exact h.unmoved (hended 0).1 (hhooked.congr hstruck.listeners_eq hstruck.views_eq hstruck.names_eq)
    (hstruck.views_eq.trans hviews) fun id ↦ (hended id).2

end Entities

end LiveGraph
