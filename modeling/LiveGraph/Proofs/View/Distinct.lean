import LiveGraph.Proofs.Index.Filing
import LiveGraph.Proofs.View.Opening

/-!
# Rows without repetition

Whatever a view is over, it has one row of an entity at most, and shows no entity twice. For a view over
an index this comes from the index, where no entity stands twice under one key.
-/

namespace LiveGraph

variable {w w' : World}

namespace World

/-- In no index an entity stands twice under a key. -/
def Traced (w : World) : Prop :=
  ∀ (name : String) (x : Index), (w.store 0).indices[name]? = some x → x.Traced

namespace Traced

theorem congr (h : w.Traced) (hindices : (w'.store 0).indices = (w.store 0).indices) : w'.Traced := by
  unfold Traced
  rw [hindices]
  exact h

/-- A change of other parts of the stores. -/
theorem beside (h : w.Traced) (s : StoreId) {F : Store → Store} (hF : ∀ s, (F s).indices = s.indices) :
    (w.modifyStore s F).Traced :=
  h.congr (w.part_modifyStore (·.indices) hF s 0)

theorem addProperty (h : w.Traced) (e : EntityRef) (prop : String) (v : Value) :
    (w.addProperty e prop v).2.Traced :=
  h.congr (World.part_modifyStore _ (·.indices) (by intro; rfl) e.store 0)

theorem addIncarnation (h : w.Traced) (s : StoreId) (uri : Uri) (kind : String) :
    (w.addIncarnation s uri kind).2.Traced :=
  h.congr (World.part_modifyStore _ (·.indices) (by intro; rfl) s 0)

theorem retireClocks (h : w.Traced) (s : StoreId) (uri : Uri) : (w.retireClocks s uri).Traced := by
  unfold World.retireClocks
  dsimp only
  split <;> exact h.beside s fun _ ↦ rfl

theorem subscribe (h : w.Traced) (event : StoreEvent) (callback : Callback) :
    (w.subscribe (.store 0 event) callback).2.Traced :=
  h.beside 0 fun _ ↦ rfl

theorem attach (h : w.Traced) (id : ViewId) : (w.attach id).Traced :=
  ((h.subscribe .added _).subscribe .removed _).subscribe .updated _

theorem of_ne (h : w.Traced) {s : StoreId} (hs : ¬(s = 0 ∧ 0 < w.stores.size)) (F : Store → Store) :
    (w.modifyStore s F).Traced :=
  h.congr (by rw [w.store_modifyStore, if_neg hs])

theorem reindex (h : w.Traced) (e : EntityRef) : (w.reindex e).2.Traced := by
  by_cases hs : e.store = 0 ∧ 0 < w.stores.size
  · intro name x hx
    have hreindexed := w.indices_reindex e (hs.1 ▸ hs.2) name
    rw [hs.1] at hreindexed
    obtain ⟨x₀, hx₀, rfl⟩ := Option.map_eq_some_iff.mp (hreindexed.symm.trans hx)
    split
    · exact (h name x₀ hx₀).placed _ _ _
    · exact h name x₀ hx₀
  · exact h.of_ne hs _

theorem strike (h : w.Traced) (e : EntityRef) : (w.strike e).2.Traced := by
  by_cases hs : e.store = 0 ∧ 0 < w.stores.size
  · intro name x hx
    have hstruck := w.indices_strike e (hs.1 ▸ hs.2) name
    rw [hs.1] at hstruck
    obtain ⟨x₀, hx₀, rfl⟩ := Option.map_eq_some_iff.mp (hstruck.symm.trans hx)
    exact (h name x₀ hx₀).without _
  · exact h.of_ne hs _

theorem putIndex (h : w.Traced) (name kind : String) (extractor : Extractor) :
    (w.putIndex 0 name kind extractor).Traced := by
  have hbuilt (es : List EntityRef) {x : Index} (hx : x.Traced) : (es.foldl
      (fun x e ↦ (x.place? (w.uriOf e) e.serial (w.keyOf? extractor e)).getD x) x).Traced := by
    induction es generalizing x with
    | nil => exact hx
    | cons e rest ih => exact ih (hx.placed _ _ _)
  by_cases hs : 0 < w.stores.size
  · intro name' x hx
    rw [World.putIndex, w.store_modifyStore_self hs, Std.TreeMap.getElem?_insert] at hx
    split at hx
    · exact Option.some.inj hx ▸ hbuilt _ (Index.traced_new kind extractor)
    · exact h name' x hx
  · exact h.of_ne (fun hboth ↦ hs hboth.2) _

end Traced

theorem nodup_filed (hcoherent : (w.store 0).Coherent) (h : w.Traced) (name : String) (key : Value) :
    ((Store.filed 0 name key).value w).Nodup := by
  change (((w.store 0).indices[name]?).elim [] (·.all key) |>.filterMap (w.find? 0)).Nodup
  refine List.Nodup.filterMap (fun uri uri' e he he' ↦ ?_) ?_
  · have hlive := (World.live_of_find? he).2
    have hlive' := (World.live_of_find? he').2
    rw [hcoherent.live_iff] at hlive hlive'
    exact hlive.2.2.2.1.symm.trans hlive'.2.2.2.1
  · cases hx : (w.store 0).indices[name]? with
    | none => exact List.nodup_nil
    | some x => exact (h name x hx).nodup_all key

end World

/-- What a query may select from has no entity twice. -/
theorem Query.nodup_candidates (hcoherent : (w.store 0).Coherent) (h : w.Traced) (q : Query) :
    ((q.candidates 0).value w).Nodup := by
  match q with
  | .index name key => exact World.nodup_filed hcoherent h name key
  | .filter kind predicates sort =>
    exact (World.sorted_entitiesOf (s := 0) kind).imp fun hlt heq ↦ Nat.ne_of_lt hlt (congrArg EntityRef.serial heq)

theorem Query.nodup_rows (hcoherent : (w.store 0).Coherent) (h : w.Traced) (q : Query) :
    ((q.rows w 0).map (·.entity)).Nodup := by
  let es := ((q.candidates 0).value w).filter (q.admits w)
  have hplaced := Query.foldl_place_perm (q := q) (q.rowOf w) es []
  rw [List.append_nil] at hplaced
  have hentities : ((q.rows w 0).map (·.entity)).Perm es := by
    refine (hplaced.map _).trans ?_
    rw [List.map_map]
    exact .of_eq (List.map_id es)
  exact hentities.nodup_iff.mpr ((Query.nodup_candidates hcoherent h q).filter _)

namespace View

theorem nodup_nextWindow {v : View} (h : (v.rows.map (·.entity)).Nodup) : v.nextWindow.Nodup :=
  h.sublist (((List.take_sublist _ _).trans (List.drop_sublist _ _)).map _)

/-- No entity has two rows in a view, nor stands twice in its window. -/
structure Distinct (v : View) : Prop where
  rows : (v.rows.map (·.entity)).Nodup
  window : v.window.Nodup

theorem distinct_default : (default : View).Distinct := ⟨List.nodup_nil, List.nodup_nil⟩

theorem Distinct.withoutRow {v : View} (h : v.Distinct) (e : EntityRef) : ((v.withoutRow e).map (·.entity)).Nodup :=
  h.rows.sublist (List.filter_sublist.map _)

/-- An entity that is taken up anew has no row left from before. -/
theorem Distinct.rowsWith {id : ViewId} (h : (w.view id).Distinct) (e : EntityRef) :
    ((View.rowsWith w id e).map (·.entity)).Nodup := by
  unfold View.rowsWith
  dsimp only
  split
  · rw [((Query.place_perm _ _).map _).nodup_iff, List.map_cons, List.nodup_cons]
    refine ⟨fun hmem ↦ ?_, h.withoutRow e⟩
    obtain ⟨row, hrow, heq⟩ := List.mem_map.mp hmem
    exact of_decide_eq_true (List.mem_filter.mp hrow).2 heq
  · exact h.withoutRow e

end View

end LiveGraph
