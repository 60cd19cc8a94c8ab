import LiveGraph.Proofs.Store.Observation
import LiveGraph.Proofs.Store.Stages
import LiveGraph.Session.Basic

/-!
# The ground of a session

The first store of a session is coherent, but for an entity that is being added, and it is held.
Most changes leave the ground as it is: signals, views, indices, clocks and listeners are no part of
it. The others are the steps of an operation, and each leads from one stage to the next.
-/

namespace LiveGraph

/-- The first store of a world is coherent, but for what is hidden. -/
structure Ground (hidden : Nat → Prop) (w : World) : Prop where
  coherent : (w.store 0).CoherentBut hidden
  stores_size : w.stores.size = 1
  current : w.session.current < w.states.size ∧ (w.state w.session.current).store = 0

/-- A world without derived values. -/
structure Plain (w : World) : Prop where
  noDeriveds : w.deriveds = #[]
  queue_eq : w.queue = []

/-- Two worlds on the same ground. -/
structure SameGround (w w' : World) : Prop where
  store : (w.store 0).SameGraph (w'.store 0)
  stores_size : w'.stores.size = w.stores.size
  noDeriveds : w.deriveds = #[] → w'.deriveds = #[] ∧ w'.queue = w.queue
  states_eq : w'.states = w.states
  current_eq : w'.session.current = w.session.current
  depth_eq : w'.depth = w.depth
  flushing_eq : w'.flushing = w.flushing

/-- Where there are neither views nor derived values, nothing ends because nothing holds it any more. -/
theorem World.reap_eq_of_noViews {w : World} (hviews : w.views = #[]) (hderiveds : w.deriveds = #[]) : w.reap = w := by
  have hsame : w.reapViews = w := by
    rw [World.reapViews, hviews]
    rfl
  rw [World.reap, hsame, hderiveds]
  rfl

namespace SameGround

theorem refl (w : World) : SameGround w w := ⟨.refl _, rfl, fun h ↦ ⟨h, rfl⟩, rfl, rfl, rfl, rfl⟩

theorem trans {w w' w'' : World} (h : SameGround w w') (h' : SameGround w' w'') :
    SameGround w w'' where
  store := h.store.trans h'.store
  stores_size := h'.stores_size.trans h.stores_size
  noDeriveds hnone :=
    have hnone' := h.noDeriveds hnone
    ⟨(h'.noDeriveds hnone'.1).1, (h'.noDeriveds hnone'.1).2.trans hnone'.2⟩
  states_eq := h'.states_eq.trans h.states_eq
  current_eq := h'.current_eq.trans h.current_eq
  depth_eq := h'.depth_eq.trans h.depth_eq
  flushing_eq := h'.flushing_eq.trans h.flushing_eq

theorem foldl {α : Type} {F : World → α → World} (h : ∀ (w : World) x, SameGround w (F w x))
    (w : World) (xs : List α) : SameGround w (xs.foldl F w) := by
  induction xs generalizing w with
  | nil => exact refl w
  | cons x xs ih => exact (h w x).trans (ih (F w x))

variable (w : World)

/-- A change of parts of a store that are no ground. -/
theorem modifyStore (s : StoreId) (F : Store → Store) (h : ∀ s : Store, s.SameGraph (F s)) :
    SameGround w (w.modifyStore s F) where
  store := by
    rw [World.store_modifyStore]
    split
    · exact h _
    · exact .refl _
  stores_size := Array.size_modify
  noDeriveds h := ⟨h, rfl⟩
  states_eq := rfl
  current_eq := rfl
  depth_eq := rfl
  flushing_eq := rfl

theorem modifySignal (id : SignalId) (F : Signal → Signal) : SameGround w (w.modifySignal id F) :=
  ⟨.refl _, rfl, fun h ↦ ⟨h, rfl⟩, rfl, rfl, rfl, rfl⟩

theorem modifyView (id : ViewId) (F : View → View) : SameGround w (w.modifyView id F) :=
  ⟨.refl _, rfl, fun h ↦ ⟨h, rfl⟩, rfl, rfl, rfl, rfl⟩

theorem modifyDerived (id : DerivedId) (F : Derived → Derived) :
    SameGround w (w.modifyDerived id F) :=
  ⟨.refl _, rfl, fun h ↦ ⟨by rw [World.modifyDerived, h]; rfl, rfl⟩, rfl, rfl, rfl, rfl⟩

theorem deferSignal (id : SignalId) : SameGround w (w.deferSignal id) := by
  obtain ⟨_, _, h⟩ := w.deferSignal_eq id
  rw [h]
  exact ⟨.refl _, rfl, fun h ↦ ⟨h, rfl⟩, rfl, rfl, rfl, rfl⟩

theorem deferView (id : ViewId) : SameGround w (w.deferView id) := by
  unfold World.deferView
  split
  · exact refl w
  · exact ⟨.refl _, rfl, fun h ↦ ⟨h, rfl⟩, rfl, rfl, rfl, rfl⟩

theorem write (id : SignalId) (v : Value) : SameGround w (w.write id v) where
  store := by
    rw [World.store, World.store, World.stores_write]
    exact .refl _
  stores_size := by rw [World.stores_write]
  noDeriveds h := by
    rw [w.write_of_noDeriveds h]
    exact ((modifySignal w id _).trans (deferSignal _ id)).noDeriveds h
  states_eq := World.states_write w id v
  current_eq := by rw [World.session_write]
  depth_eq := w.depth_write id v
  flushing_eq := w.flushing_write id v

theorem counted (t : Topic) : SameGround w (w.counted t) := by
  obtain heq | ⟨id, v, -, heq⟩ := w.counted_cases t
  · rw [heq]
    exact refl w
  · rw [heq]
    exact write w id v

theorem modifyWatchers (channel : Channel) (F : Watchers → Watchers) :
    SameGround w (w.modifyWatchers channel F) := by
  match channel with
  | .signal id => exact modifySignal w id _
  | .derived id => exact modifyDerived w id _
  | .view id => exact modifyView w id _
  | .store s event =>
    exact modifyStore w s _ fun _ ↦ ⟨rfl, rfl, rfl, rfl, fun _ _ ↦ rfl, fun _ _ ↦ rfl, fun _ _ ↦ rfl⟩

theorem unsubscribe (sub : Subscription) : SameGround w (w.unsubscribe sub) := by
  match sub with
  | none => exact refl w
  | some (channel, id) => exact modifyWatchers w channel (·.remove id)

theorem shutView (id : ViewId) : SameGround w (w.shutView id) := by
  unfold World.shutView
  split
  · exact refl w
  · exact (foldl unsubscribe w _).trans (modifyView _ id _)

theorem reapViews : SameGround w w.reapViews := by
  refine foldl (fun w id ↦ ?_) w _
  split
  · exact refl w
  · exact (shutView w id).trans (modifyView _ id _)

/-- Where there are no derived values none of them ends. -/
theorem reap (h : w.deriveds = #[]) : SameGround w w.reap := by
  have hviews := reapViews w
  rw [World.reap, show w.deriveds.size = 0 by rw [h]; rfl]
  exact hviews

theorem disposeSignal (id : SignalId) : SameGround w (w.disposeSignal id) := by
  unfold World.disposeSignal
  split
  · exact refl w
  · exact modifySignal w id _

/-- Beyond its flag, to retire an entity changes signals only. -/
theorem retire (e : EntityRef) :
    SameGround (w.modifyEntity e fun x ↦ { x with live := false }) (w.retire e) :=
  (foldl disposeSignal _ _).trans (disposeSignal _ _)

theorem modifyProps (e : EntityRef) (F : Entity → Entity) (huri : ∀ x, (F x).uri = x.uri)
    (hkind : ∀ x, (F x).kind = x.kind) (hlive : ∀ x, (F x).live = x.live)
    (he : 0 < e.serial) : SameGround w (w.modifyEntity e F) := by
  refine modifyStore w e.store _ fun s ↦ ⟨rfl, rfl, rfl, Array.size_modify, fun n hn ↦ ?_,
    fun n hn ↦ ?_, fun n hn ↦ ?_⟩
  all_goals
    rw [Store.incarnation_modify s e.serial F n he hn]
    split
    · simp only [huri, hkind, hlive]
    · rfl

theorem addProperty (e : EntityRef) (prop : String) (v : Value) (he : 0 < e.serial) :
    SameGround w (w.addProperty e prop v).2 := by
  have hwatched : SameGround w ((w.addSignal v .same (.entity e)).2.subscribe
      (.signal w.signals.size) (.property e prop)).2 :=
    ⟨.refl _, rfl, fun h ↦ ⟨h, rfl⟩, rfl, rfl, rfl, rfl⟩
  exact hwatched.trans (modifyProps _ e _ (fun _ ↦ rfl) (fun _ ↦ rfl) (fun _ ↦ rfl) he)

theorem reindex (e : EntityRef) : SameGround w (w.reindex e).2 :=
  modifyStore w e.store _ fun _ ↦
    ⟨rfl, rfl, rfl, rfl, fun _ _ ↦ rfl, fun _ _ ↦ rfl, fun _ _ ↦ rfl⟩

theorem retireClocks (s : StoreId) (uri : Uri) : SameGround w (w.retireClocks s uri) := by
  unfold World.retireClocks
  dsimp only
  split
  all_goals exact modifyStore w s _ fun _ ↦
    ⟨rfl, rfl, rfl, rfl, fun _ _ ↦ rfl, fun _ _ ↦ rfl, fun _ _ ↦ rfl⟩

theorem putIndex (s : StoreId) (name kind : String) (x : Extractor) :
    SameGround w (w.putIndex s name kind x) :=
  modifyStore w s _ fun _ ↦ ⟨rfl, rfl, rfl, rfl, fun _ _ ↦ rfl, fun _ _ ↦ rfl, fun _ _ ↦ rfl⟩

end SameGround

namespace Plain

variable {w w' : World}

theorem same (h : Plain w) (hw : SameGround w w') : Plain w' where
  noDeriveds := (hw.noDeriveds h.noDeriveds).1
  queue_eq := (hw.noDeriveds h.noDeriveds).2.trans h.queue_eq

/-- Nothing is queued where there is nothing to compute. -/
theorem popQueued_eq (h : Plain w) : w.popQueued? = none := by
  simp [World.popQueued?, h.queue_eq]

end Plain

/-- An entity that is being added, under its URI and type. -/
structure Newcomer (w : World) (e : EntityRef) (uri : Uri) (kind : String) : Prop where
  store_eq : e.store = 0
  serial_pos : 0 < e.serial
  serial_le : e.serial ≤ (w.store 0).incarnations.size
  uri_eq : w.uriOf e = uri
  kind_eq : w.kindOf e = kind
  live : (w.entity e).live = true
  free : w.contains 0 uri = false

theorem World.live_of_find? {w : World} {s : StoreId} {uri : Uri} {e : EntityRef}
    (h : w.find? s uri = some e) : e.store = s ∧ (w.store s).live[uri]? = some e.serial := by
  obtain ⟨n, hn, rfl⟩ := Option.map_eq_some_iff.mp h
  exact ⟨rfl, hn⟩

/-- What is true of the ground at each stage of an operation. -/
def OnGround : Stage → World → Prop
  | .whole _, w => Ground (fun _ ↦ False) w
  | .filed _ _, w => Ground (fun _ ↦ False) w
  | .coming e uri kind, w => Ground (· = e.serial) w ∧ Newcomer w e uri kind
  | .gone _, w => Ground (fun _ ↦ False) w

namespace Ground

variable {hidden : Nat → Prop} {w w' : World}

theorem same (h : Ground hidden w) (hw : SameGround w w') : Ground hidden w' where
  coherent := h.coherent.sameGraph hw.store
  stores_size := hw.stores_size.trans h.stores_size
  current := by
    rw [hw.current_eq, World.state, hw.states_eq]
    exact h.current

theorem held (h : Ground hidden w) : w.isStoreHeld 0 := by
  obtain ⟨hlt, hstore⟩ := h.current
  have hstate : (List.range w.states.size).any
      (fun id ↦ w.isStateHeld id && (w.state id).store = 0) = true :=
    List.any_eq_true.mpr ⟨w.session.current, List.mem_range.mpr hlt,
      by simp [World.isStateHeld, hstore]⟩
  simp [World.isStoreHeld, hstate]

/-- There is nothing in any other store. -/
theorem store_default (h : Ground hidden w) {s : StoreId} (hs : s ≠ 0) : w.store s = default := by
  have hsize : w.stores.size ≤ s := by
    rw [h.stores_size]
    exact Nat.one_le_iff_ne_zero.mpr hs
  simp [World.store, Array.getD_eq_getD_getElem?, Array.getElem?_eq_none hsize]

theorem store_eq (h : Ground hidden w) {e : EntityRef} (he : w.knows e) : e.store = 0 := by
  by_contra hne
  have hsize : (default : Store).incarnations.size = 0 := rfl
  have hserial : 0 < e.serial ∧ e.serial ≤ 0 := by
    simpa only [World.knows, h.store_default hne, hsize, Bool.and_eq_true, decide_eq_true_eq]
      using he
  omega

theorem isCurrent_iff (h : Ground hidden w) {e : EntityRef} (he : e.store = 0) :
    w.isCurrent e ↔ 0 < e.serial ∧ e.serial ≤ (w.store 0).incarnations.size ∧
      ¬hidden e.serial ∧ (w.entity e).live = true := by
  rw [World.isCurrent, World.uriOf, World.entity, he, decide_eq_true_eq]
  exact (h.coherent.live_iff _ _).trans (by tauto)

theorem not_isCurrent (h : Ground hidden w) {e : EntityRef} (he : e.store ≠ 0) :
    w.isCurrent e = false := by
  have hlive : (default : Store).live.get? (w.uriOf e) = none := Std.TreeMap.getElem?_emptyc
  simp only [World.isCurrent, h.store_default he, hlive]
  rfl

theorem store_modifyStore (h : Ground hidden w) (F : Store → Store) :
    (w.modifyStore 0 F).store 0 = F (w.store 0) :=
  w.store_modifyStore_self (by rw [h.stores_size]; exact Nat.one_pos) F

theorem store_addIncarnation (h : Ground hidden w) (uri : Uri) (kind : String) :
    (w.addIncarnation 0 uri kind).2.store 0 = { w.store 0 with
      incarnations := (w.store 0).incarnations.push ⟨uri, kind, ∅, w.signals.size, true⟩ } := by
  let w₁ := (w.addSignal (.int 0) .same (.entity ⟨0, (w.store 0).incarnations.size + 1⟩)).2
  have hw₁ : Ground hidden w₁ := ⟨h.coherent, h.stores_size, h.current⟩
  exact hw₁.store_modifyStore _

theorem entity_addIncarnation (h : Ground hidden w) (uri : Uri) (kind : String) {e : EntityRef}
    (he : e.store = 0) (hpos : 0 < e.serial) : (w.addIncarnation 0 uri kind).2.entity e =
      if e.serial = (w.store 0).incarnations.size + 1 then ⟨uri, kind, ∅, w.signals.size, true⟩
      else w.entity e := by
  have hiff : e.serial - 1 = (w.store 0).incarnations.size ↔
      e.serial = (w.store 0).incarnations.size + 1 := by omega
  rw [World.entity, he, h.store_addIncarnation, Store.incarnation_push, World.entity, he]
  exact if_congr hiff rfl rfl

end Ground

namespace OnGround

variable {stage : Stage} {w w' : World}

theorem same (h : OnGround stage w) (hw : SameGround w w') : OnGround stage w' := by
  match stage with
  | .whole _ => exact Ground.same h hw
  | .filed _ _ => exact Ground.same h hw
  | .gone _ => exact Ground.same h hw
  | .coming e uri kind =>
    obtain ⟨hground, he⟩ := h
    have hentity : w.entity e = (w.store 0).incarnation e.serial := by rw [World.entity, he.store_eq]
    have hentity' : w'.entity e = (w'.store 0).incarnation e.serial := by
      rw [World.entity, he.store_eq]
    refine ⟨hground.same hw, he.store_eq, he.serial_pos, ?_, ?_, ?_, ?_, ?_⟩
    · rw [hw.store.size_eq]
      exact he.serial_le
    · rw [World.uriOf, hentity', hw.store.uri_eq _ he.serial_pos, ← hentity]
      exact he.uri_eq
    · rw [World.kindOf, hentity', hw.store.kind_eq _ he.serial_pos, ← hentity]
      exact he.kind_eq
    · rw [hentity', hw.store.flag_eq _ he.serial_pos, ← hentity]
      exact he.live
    · rw [World.contains, hw.store.live_eq]
      exact he.free

/-- Neither evaluations nor what is held by acts under way belong to the ground. -/
theorem context (h : OnGround stage w) (d : Nat) (f : Bool) (frames : List Frame) (pins : List Pin) :
    OnGround stage { w with depth := d, flushing := f, frames := frames, pins := pins } := by
  have hground {hidden : Nat → Prop} (h : Ground hidden w) : Ground hidden
      { w with depth := d, flushing := f, frames := frames, pins := pins } :=
    ⟨h.coherent, h.stores_size, h.current⟩
  match stage with
  | .whole _ => exact hground h
  | .filed _ _ => exact hground h
  | .gone _ => exact hground h
  | .coming _ _ _ =>
    exact ⟨hground h.1, h.2.store_eq, h.2.serial_pos, h.2.serial_le, h.2.uri_eq, h.2.kind_eq,
      h.2.live, h.2.free⟩

/-- At every stage there is a ground, whatever is hidden. -/
theorem exists_ground (h : OnGround stage w) : ∃ hidden, Ground hidden w := by
  match stage with
  | .whole _ => exact ⟨_, h⟩
  | .filed _ _ => exact ⟨_, h⟩
  | .gone _ => exact ⟨_, h⟩
  | .coming _ _ _ => exact ⟨_, h.1⟩

theorem held (h : OnGround stage w) : w.isStoreHeld 0 := by
  obtain ⟨_, hground⟩ := h.exists_ground
  exact hground.held

/-- An entity that is being added cannot be found yet. -/
theorem coming {e : EntityRef} {uri : Uri} {kind : String} (h : OnGround (.coming e uri kind) w) :
    e.store = 0 ∧ (w.entity e).live = true ∧ w.isCurrent e = false := by
  refine ⟨h.2.store_eq, h.2.live, ?_⟩
  have hhidden := mt (h.1.isCurrent_iff h.2.store_eq).mp fun hcurrent ↦ hcurrent.2.2.1 rfl
  simpa using hhidden

/-- A new incarnation is hidden at first. -/
theorem addIncarnation (h : Ground (fun _ ↦ False) w) (uri : Uri) (kind : String)
    (hfree : w.contains 0 uri = false) :
    OnGround (.coming ⟨0, (w.store 0).incarnations.size + 1⟩ uri kind)
      (w.addIncarnation 0 uri kind).2 := by
  have hstore := h.store_addIncarnation uri kind
  have hentity := h.entity_addIncarnation uri kind
    (e := ⟨0, (w.store 0).incarnations.size + 1⟩) rfl (Nat.succ_pos _)
  rw [if_pos rfl] at hentity
  refine ⟨⟨?_, Array.size_modify.trans h.stores_size, h.current⟩, rfl, Nat.succ_pos _, ?_, ?_, ?_,
    ?_, ?_⟩
  · rw [hstore]
    exact h.coherent.push _
  · rw [hstore]
    exact Nat.le_of_eq (Array.size_push _).symm
  · rw [World.uriOf, hentity]
  · rw [World.kindOf, hentity]
  · rw [hentity]
  · rw [World.contains, hstore]
    exact hfree

theorem enlist {e : EntityRef} {uri : Uri} {kind : String} (h : OnGround (.coming e uri kind) w) :
    Ground (fun _ ↦ False) (w.enlist e) ∧ (w.enlist e).isCurrent e := by
  obtain ⟨hground, he⟩ := h
  obtain ⟨s, n⟩ := e
  obtain rfl := he.store_eq
  have hstore := hground.store_modifyStore fun s ↦
    { s.setBucket (w.entity ⟨0, n⟩).kind ((s.bucket (w.entity ⟨0, n⟩).kind).insert n
      (w.entity ⟨0, n⟩).uri) with live := s.live.insert (w.entity ⟨0, n⟩).uri n }
  have huri : (w.entity ⟨0, n⟩).uri = uri := he.uri_eq
  have hcoherent := hground.coherent.enlist he.serial_pos he.serial_le he.uri_eq he.kind_eq he.live
    he.free
  have hnew : Ground (fun _ ↦ False) (w.enlist ⟨0, n⟩) := by
    refine ⟨?_, Array.size_modify.trans hground.stores_size, hground.current⟩
    change ((w.modifyStore 0 _).store 0).CoherentBut _
    rw [hstore, huri, show (w.entity ⟨0, n⟩).kind = kind from he.kind_eq]
    exact hcoherent
  refine ⟨hnew, (hnew.isCurrent_iff rfl).mpr ⟨he.serial_pos, ?_, not_false, ?_⟩⟩
  · change n ≤ ((w.modifyStore 0 _).store 0).incarnations.size
    rw [hstore]
    exact he.serial_le
  · change (((w.modifyStore 0 _).store 0).incarnation n).live = true
    rw [hstore]
    exact he.live

theorem link (h : Ground (fun _ ↦ False) w) {edge : Edge} {atFront : Bool} {edges : Adjacency}
    (hsource : w.contains 0 edge.source) (htarget : w.contains 0 edge.target)
    (hinsert : (w.store 0).edges.insert? edge atFront = some edges) :
    Ground (fun _ ↦ False) (w.modifyStore 0 fun s ↦ { s with edges := edges }) where
  coherent := by
    rw [h.store_modifyStore]
    exact h.coherent.link hsource htarget hinsert
  stores_size := Array.size_modify.trans h.stores_size
  current := h.current

theorem unlink (h : Ground (fun _ ↦ False) w) {edge : Edge} {edges : Adjacency}
    (hremove : (w.store 0).edges.remove? edge = some edges) :
    Ground (fun _ ↦ False) (w.modifyStore 0 fun s ↦ { s with edges := edges }) where
  coherent := by
    rw [h.store_modifyStore]
    exact h.coherent.unlink hremove
  stores_size := Array.size_modify.trans h.stores_size
  current := h.current

/-- Striking and retiring an entity takes it out of the store, with all its edges. -/
theorem sameGraph_strike (h : Ground (fun _ ↦ False) w) {uri : Uri} {e : EntityRef}
    (hfound : w.find? 0 uri = some e) :
    ((w.store 0).without uri e.serial).SameGraph (((w.strike e).2.retire e).store 0) := by
  obtain ⟨he, hlive⟩ := World.live_of_find? hfound
  obtain ⟨s, n⟩ := e
  obtain rfl := he
  have huri : (w.entity ⟨0, n⟩).uri = uri := h.coherent.uri_eq hlive
  let w₁ := (w.strike ⟨0, n⟩).2
  let w₂ := w₁.modifyEntity ⟨0, n⟩ fun x ↦ { x with live := false }
  have hsize : 0 < w.stores.size := by
    rw [h.stores_size]
    exact Nat.one_pos
  have hsize₁ : 0 < w₁.stores.size := by
    rw [show w₁.stores.size = w.stores.size from Array.size_modify]
    exact hsize
  have h₁ : w₁.store 0 = _ := w.store_modifyStore_self hsize _
  have h₂ : w₂.store 0 = _ := w₁.store_modifyStore_self hsize₁ _
  refine Store.SameGraph.trans ?_ (SameGround.retire w₁ ⟨0, n⟩).store
  rw [h₂, h₁, huri]
  exact ⟨rfl, rfl, rfl, rfl, fun _ _ ↦ rfl, fun _ _ ↦ rfl, fun _ _ ↦ rfl⟩

theorem strike (h : Ground (fun _ ↦ False) w) {uri : Uri} {e : EntityRef}
    (hfound : w.find? 0 uri = some e) :
    Ground (fun _ ↦ False) ((w.strike e).2.retire e) := by
  have hretired := SameGround.retire (w.strike e).2 e
  refine ⟨(h.coherent.strike (World.live_of_find? hfound).2).sameGraph (sameGraph_strike h hfound), ?_, ?_⟩
  · exact hretired.stores_size.trans (Array.size_modify.trans (Array.size_modify.trans h.stores_size))
  · rw [hretired.current_eq, World.state, hretired.states_eq]
    exact h.current

end OnGround

/-- New roles are signals and nothing else. -/
theorem World.addRoles_eq (w : World) (owner : Owner) (roles : List String) :
    ∃ signals, (w.addRoles owner roles).2 = { w with signals := signals } := by
  induction roles generalizing w with
  | nil => exact ⟨w.signals, rfl⟩
  | cons role rest ih =>
    obtain ⟨signals, hrest⟩ := ih (w.addSignal .nil .same owner).2
    exact ⟨signals, hrest⟩

/-- A session starts on the ground, with nothing to be done. -/
theorem ground_start (schema : Schema) (keepsFirst : Bool) :
    At (fun w ↦ Ground (fun _ ↦ False) w ∧ Plain w) 0 false (Session.start schema keepsFirst) := by
  let w₀ : World := { World.empty with stores := #[.empty] }
  obtain ⟨signals, hsignals⟩ := w₀.addRoles_eq (.state 0) schema.roles
  have hroles : w₀.addRoles (.state 0) schema.roles =
      ((w₀.addRoles (.state 0) schema.roles).1, { w₀ with signals := signals }) :=
    Prod.ext rfl hsignals
  unfold Session.start World.addState
  dsimp only
  rw [show ({ World.empty with stores := World.empty.stores.push .empty } : World).addRoles
    (.state World.empty.states.size) schema.roles = _ from hroles]
  have hempty := Store.CoherentBut.empty
  refine ⟨⟨⟨⟨hempty.sameGraph ?_, rfl, ?_⟩, rfl, rfl⟩, rfl, rfl⟩, fun _ _ ↦ ⟨rfl, rfl⟩⟩
  · exact ⟨rfl, rfl, rfl, rfl, fun _ _ ↦ rfl, fun _ _ ↦ rfl, fun _ _ ↦ rfl⟩
  · exact ⟨Nat.one_pos, rfl⟩

end LiveGraph
