import LiveGraph.Proofs.Store.Start
import LiveGraph.Proofs.View.Course
import LiveGraph.Proofs.View.Distinct
import LiveGraph.Proofs.View.Opening

/-!
# Views that are listened to

A view owes a change exactly as long as one waits to be told, and it waits once. Nobody watches the
counters of views, and there are no clocks, so only properties put anything off. What a listener has noted
of a view since some time is the course of its window since then.
-/

namespace LiveGraph

open Act

/-- The views owe what waits to be told of them, and have no entity twice. -/
structure Poised (w : World) : Prop where
  plain : Plain w
  tied : w.Tied
  hooked : w.Hooked
  versions : ∀ id < w.views.size, ∃ j, (w.signal (w.view id).version).owner = .view j
  noClocks : (w.store 0).clocks = ∅
  waiting : ∀ id, w.effects.count (.view id) = (w.view id).changing.toNat
  traced : w.Traced
  distinct : ∀ id, (w.view id).Distinct

/-- A name that listens to a view, with what had been told of it at some time and the window at that time. -/
structure Listener where
  id : ViewId
  name : String
  start : List EntityRef
  before : List Told

/-- What is claimed of the number of changes that were told, as long as some effects wait. -/
abbrev Tally := ViewId → Nat → List Effect → Prop

namespace Tally

/-- Nothing is claimed. -/
def any : Tally := fun _ _ _ ↦ True

/-- No change was told. -/
def zero : Tally := fun _ told _ ↦ told = 0

/-- So many changes will do, if there is to be room for some at least. -/
def within (most least : Nat) : Tally := fun id told effects ↦ told + max least (Effect.room id effects) ≤ most

/-- A claim that stays true when a view puts off the one change that it owes. -/
def Grows (P : Tally) : Prop :=
  ∀ id told effects j, (j = id → Effect.view id ∉ effects) → P id told effects →
    P id told (effects ++ [.view j])

/-- A claim that has nothing to do with what waits. -/
def Open (P : Tally) : Prop :=
  ∀ id told effects effects', P id told effects → P id told effects'

/-- A claim that stays true when what was put off is told, where another one is kept while the watchers of a
signal are told. -/
structure Drains (P P' : Tally) : Prop where
  grows : P'.Grows
  signal : ∀ id told j rest, P id told (.signal j :: rest) → P' id told rest
  after : ∀ id told effects, P' id told effects → P id told effects
  view : ∀ id told rest, P id told (.view id :: rest) → P id (told + 1) rest
  other : ∀ id told j rest, j ≠ id → P id told (.view j :: rest) → P id told rest
  derived : ∀ id told j rest, P id told (.derived j :: rest) → P id told rest

theorem Open.grows {P : Tally} (h : P.Open) : P.Grows := fun id told effects _ _ ↦ h id told effects _

theorem open_any : any.Open := fun _ _ _ _ h ↦ h

theorem open_zero : zero.Open := fun _ _ _ _ h ↦ h

theorem drains_any : any.Drains any :=
  ⟨open_any.grows, fun _ _ _ _ h ↦ h, fun _ _ _ h ↦ h, fun _ _ _ h ↦ h, fun _ _ _ _ _ h ↦ h, fun _ _ _ _ h ↦ h⟩

theorem grows_within (most : Nat) : (within most 1).Grows := by
  intro id told effects j hj h
  unfold within at h ⊢
  by_cases heq : j = id
  · subst heq
    rw [Effect.room_append_self j effects (hj rfl)]
    omega
  · rwa [Effect.room_append_other id effects heq]

theorem drains_within (most : Nat) : (within most 0).Drains (within most 1) where
  grows := grows_within most
  signal id told j rest h := by
    rwa [within, Effect.room, Nat.zero_max] at h
  after id told effects h := by
    unfold within at h ⊢
    omega
  view id told rest h := by
    rw [within, Effect.room, if_pos rfl] at h
    unfold within
    omega
  other id told j rest hj h := by
    rwa [within, Effect.room, if_neg hj] at h
  derived id told j rest h := h

end Tally

/-- What was noted of the view since then is the course of its window. -/
structure Follows (x : Listener) (P : Tally) (w : World) : Prop where
  hears : w.Hears x.name x.id
  course : ∃ events, w.told x.name = x.before ++ events ∧
    Course x.start events (w.view x.id).window (w.view x.id).changing ∧
    P x.id (events.count (.change, none)) w.effects

/-- A poised world with a number of views, one of which may be listened to. -/
structure Attended (n : Nat) (x : Option Listener) (P : Tally) (w : World) : Prop where
  poised : Poised w
  size_eq : w.views.size = n
  follows : ∀ y ∈ x, Follows y P w

variable {w w' : World} {n : Nat} {x : Option Listener} {y : Listener} {P P' : Tally}

theorem World.view_of_size_le {id : ViewId} (h : w.views.size ≤ id) : w.view id = default := by
  simp [World.view, h]

theorem World.modifyView_of_size_le {id : ViewId} (h : w.views.size ≤ id) (F : View → View) :
    w.modifyView id F = w := by
  have hviews : w.views.modify id F = w.views := Array.ext (by simp) fun i hi hi' ↦ by
    rw [Array.getElem_modify, if_neg (Nat.ne_of_gt (Nat.lt_of_lt_of_le hi' h))]
  exact congrArg (fun views ↦ { w with views := views }) hviews

theorem World.effects_write (hnone : w.deriveds = #[]) (id : SignalId) (v : Value) :
    (w.write id v).effects = w.effects ∨
      (w.signal id).watchers.entries ≠ [] ∧ (w.write id v).effects = w.effects ++ [.signal id] := by
  let w₁ := w.modifySignal id fun s ↦ { s with value := v }
  have hwatchers : (w₁.signal id).watchers = (w.signal id).watchers := by
    rw [World.signal_modifySignal]
    split <;> rfl
  rw [w.write_of_noDeriveds hnone]
  by_cases htold : ((w₁.signal id).watchers.isEmpty || (w₁.signal id).notifying) = true
  · exact .inl (congrArg (·.effects) (w₁.deferSignal_of_told htold) |>.trans rfl)
  · refine .inr ⟨fun hentries ↦ htold ?_, congrArg (·.effects) (w₁.deferSignal_of_untold htold)⟩
    rw [hwatchers, Watchers.isEmpty, hentries]
    rfl

/-- Signals are tied to the properties of entities, and to what was put off, alone. -/
theorem World.Tied.of_eq (h : w.Tied) (hsignals : w'.signals = w.signals) (heffects : w'.effects = w.effects)
    (hincarnations : ∀ s, (w'.store s).incarnations = (w.store s).incarnations) : w'.Tied :=
  (Steady.of_eq hsignals heffects hincarnations).tied h

namespace World

variable {id : ViewId}

theorem view_modifyView_of_lt (hid : id < w.views.size) (F : View → View) (j : ViewId) :
    (w.modifyView id F).view j = if id = j then F (w.view j) else w.view j := by
  rw [view_modifyView]
  exact if_congr ⟨fun h ↦ h.1, fun heq ↦ ⟨heq, heq ▸ hid⟩⟩ rfl rfl

theorem view_deferView (hid : id < w.views.size) (j : ViewId) :
    (w.deferView id).view j = if id = j then { w.view j with changing := true } else w.view j := by
  unfold deferView
  split
  · rename_i hchanging
    split
    · rename_i heq
      rw [← heq, ← hchanging]
    · rfl
  · exact view_modifyView_of_lt hid _ j

theorem effects_deferView : (w.deferView id).effects =
    if (w.view id).changing then w.effects else w.effects ++ [.view id] := by
  unfold deferView
  split <;> rfl

theorem size_deferView : (w.deferView id).views.size = w.views.size := by
  unfold deferView
  split
  · rfl
  · exact w.size_modifyView id _

theorem signals_deferView : (w.deferView id).signals = w.signals := by
  unfold deferView
  split <;> rfl

theorem stores_deferView : (w.deferView id).stores = w.stores := by
  unfold deferView
  split <;> rfl

end World

namespace Poised

variable (h : Poised w)
include h

theorem version_lt {id : ViewId} (hid : id < w.views.size) : (w.view id).version < w.signals.size := by
  obtain ⟨j, hj⟩ := h.versions id hid
  by_contra hle
  rw [World.signal_of_size_le _ (Nat.le_of_not_lt hle)] at hj
  exact Owner.noConfusion hj

theorem congr (hplain : Plain w') (htied : w'.Tied) (hhooked : w'.Hooked) (hviews : w'.views = w.views)
    (howner : ∀ id < w.signals.size, (w'.signal id).owner = (w.signal id).owner)
    (hclocks : (w.store 0).clocks = ∅ → (w'.store 0).clocks = ∅)
    (hwaiting : ∀ id, w'.effects.count (.view id) = w.effects.count (.view id)) (htraced : w.Traced → w'.Traced) :
    Poised w' := by
  have hview : ∀ id, w'.view id = w.view id := fun id ↦ by rw [World.view, hviews, World.view]
  refine ⟨hplain, htied, hhooked, fun id hid ↦ ?_, hclocks h.noClocks, fun id ↦ ?_, htraced h.traced, fun id ↦ ?_⟩
  · rw [hviews] at hid
    rw [hview, howner _ (h.version_lt hid)]
    exact h.versions id hid
  · rw [hwaiting, h.waiting, hview]
  · rw [hview]
    exact h.distinct id

/-- What is noted, and what goes on around, is nothing to the views. -/
theorem context (d : Nat) (f : Bool) (frames : List Frame) (pins : List Pin) :
    Poised { w with depth := d, flushing := f, frames := frames, pins := pins } :=
  h.congr ⟨h.plain.noDeriveds, h.plain.queue_eq⟩ (h.tied.of_eq rfl rfl fun _ ↦ rfl)
    (h.hooked.congr rfl rfl rfl) rfl (fun _ _ ↦ rfl) (fun h ↦ h) (fun _ ↦ rfl) fun h ↦ h

theorem noted {events : String → List Told} (hw : Noted events w w') : Poised w' := by
  obtain ⟨notes, rfl⟩ := hw.notes
  exact h.congr ⟨h.plain.noDeriveds, h.plain.queue_eq⟩ (h.tied.of_eq rfl rfl fun _ ↦ rfl)
    (h.hooked.congr rfl rfl rfl) rfl (fun _ _ ↦ rfl) (fun h ↦ h) (fun _ ↦ rfl) fun h ↦ h

/-- To file an entity anew concerns neither the entities nor the listeners of the store. -/
theorem reindex (e : EntityRef) : Poised (w.reindex e).2 := by
  refine h.congr ⟨h.plain.noDeriveds, h.plain.queue_eq⟩ (h.tied.of_eq rfl rfl ?_)
    (h.hooked.congr (w.part_modifyStore (·.listeners) (by intro; rfl) e.store 0) rfl rfl) rfl (fun _ _ ↦ rfl)
    (Aloof.modifyStore w e.store _ fun h ↦ h).noClocks (fun _ ↦ rfl) fun h ↦ h.reindex e
  exact w.part_modifyStore (·.incarnations) (by intro; rfl) e.store

theorem write (id : SignalId) (v : Value) : Poised (w.write id v) := by
  have haloof := Aloof.write w h.plain.noDeriveds id v
  refine h.congr (h.plain.same (.write w id v)) ((Steady.write h.tied h.plain.noDeriveds id v).tied h.tied)
    (h.hooked.congr (by rw [World.store, w.stores_write]; rfl) (w.views_write id v) (by rw [w.session_write]))
    (w.views_write id v) haloof.owner_eq haloof.noClocks (fun j ↦ ?_) fun h ↦ h.congr ?_
  · rcases World.effects_write h.plain.noDeriveds id v with heffects | ⟨-, heffects⟩
    · rw [heffects]
    · rw [heffects, List.count_append, List.count_singleton]
      rfl
  · rw [World.store, w.stores_write]
    rfl

/-- A signal that is not of a property is watched by nobody. -/
theorem unwatched {id : SignalId} (howner : ∀ e, (w.signal id).owner ≠ .entity e) :
    (w.signal id).watchers.entries = [] := by
  by_contra hentries
  obtain ⟨e, prop, hid⟩ := h.tied.only id hentries
  exact howner e (h.tied.property e prop id hid).owner_eq

/-- Nobody is to be told that a view has counted a move. -/
theorem effects_version {id : ViewId} (hid : id < w.views.size) (v : Value) :
    (w.write (w.view id).version v).effects = w.effects := by
  refine (World.effects_write h.plain.noDeriveds _ v).resolve_right fun hwatched ↦ hwatched.1 ?_
  obtain ⟨j, hj⟩ := h.versions id hid
  exact h.unwatched fun e he ↦ Owner.noConfusion (hj.symm.trans he)

theorem counted_clock (s : StoreId) (hs : s = 0) (key : ClockKey) :
    w.counted (.clock s key) = w := by
  have hnone : (w.store s).clocks.get? key = none := by
    rw [hs, h.noClocks]
    rfl
  simp only [World.counted, hnone]

/-- A change of a view that has nothing to do with what it owes. -/
theorem modifyView (id : ViewId) {f : View → View} (hf : View.Keeps f)
    (hversion : ∀ v, (f v).version = v.version) (hchanging : ∀ v, (f v).changing = v.changing)
    (hdistinct : (w.view id).Distinct → (f (w.view id)).Distinct) : Poised (w.modifyView id f) := by
  have hview : ∀ j, ((w.modifyView id f).view j).version = (w.view j).version ∧
      ((w.modifyView id f).view j).changing = (w.view j).changing := fun j ↦ by
    rw [World.view_modifyView]
    split
    · exact ⟨hversion _, hchanging _⟩
    · exact ⟨rfl, rfl⟩
  refine ⟨⟨h.plain.noDeriveds, h.plain.queue_eq⟩, h.tied.of_eq rfl rfl fun _ ↦ rfl,
    h.hooked.modifyView id hf, fun j hj ↦ ?_, h.noClocks, fun j ↦ ?_, h.traced, fun j ↦ ?_⟩
  · rw [w.size_modifyView] at hj
    rw [(hview j).1]
    exact h.versions j hj
  · rw [(hview j).2]
    exact h.waiting j
  · rw [World.view_modifyView]
    split
    · rename_i hj
      exact hj.1 ▸ hdistinct (h.distinct id)
    · exact h.distinct j

/-- A view owes one change at most. -/
theorem deferView {id : ViewId} (hid : id < w.views.size) : Poised (w.deferView id) := by
  have hview := World.view_deferView hid
  refine ⟨h.plain.same (.deferView w id), ?_, ?_, fun j hj ↦ ?_, ?_, fun j ↦ ?_, ?_, fun j ↦ ?_⟩
  · unfold World.deferView
    split
    · exact h.tied
    · have htied : (w.modifyView id fun v ↦ { v with changing := true }).Tied := h.tied.of_eq rfl rfl fun _ ↦ rfl
      exact (Steady.defer _ (.view id)).tied htied
  · unfold World.deferView
    split
    · exact h.hooked
    · have hkeeps : View.Keeps fun v ↦ { v with changing := true } :=
        ⟨fun _ ↦ rfl, fun _ ↦ rfl, fun _ ↦ rfl, fun _ ↦ rfl, fun _ h ↦ h⟩
      exact (h.hooked.modifyView id hkeeps).congr rfl rfl rfl
  · rw [World.size_deferView] at hj
    obtain ⟨k, hk⟩ := h.versions j hj
    refine ⟨k, ?_⟩
    rw [World.signal, World.signals_deferView, hview]
    split <;> exact hk
  · rw [World.store, World.stores_deferView]
    exact h.noClocks
  · rw [World.effects_deferView, hview]
    by_cases hj : id = j
    · subst hj
      have hwaiting := h.waiting id
      rw [if_pos rfl]
      split
      · rename_i hchanging
        rw [hwaiting, hchanging]
      · rename_i hchanging
        rw [List.count_append, hwaiting, Bool.eq_false_iff.mpr hchanging, List.count_singleton_self]
        rfl
    · rw [if_neg hj]
      split
      · exact h.waiting j
      · rw [List.count_append, h.waiting, List.count_singleton, if_neg (by simpa using hj), Nat.add_zero]
  · exact h.traced.congr (by rw [World.store, World.stores_deferView]; rfl)
  · rw [hview]
    split
    · exact ⟨(h.distinct j).rows, (h.distinct j).window⟩
    · exact h.distinct j

/-- What a view does not owe does not wait. -/
theorem notMem {id : ViewId} (hchanging : (w.view id).changing = false) : Effect.view id ∉ w.effects := by
  have hnone := h.waiting id
  rw [hchanging] at hnone
  exact List.count_eq_zero.mp hnone

end Poised

namespace Follows

/-- What has nothing to do with views leaves their course as it is. -/
theorem congr (h : Follows y P w) (hviews : w'.views = w.views) (hsession : w'.session = w.session)
    (hP : ∀ told, P y.id told w.effects → P' y.id told w'.effects) : Follows y P' w' := by
  have hview : ∀ id, w'.view id = w.view id := fun id ↦ by rw [World.view, hviews, World.view]
  obtain ⟨events, htold, hcourse, hbound⟩ := h.course
  refine ⟨fun j event ↦ ?_, events, ?_, ?_, hP _ hbound⟩
  · rw [World.hearers, hview, ← World.hearers]
    exact h.hears j event
  · rw [World.told, hsession]
    exact htold
  · rw [hview]
    exact hcourse

theorem noted (h : Follows y P w) (hw : Noted (fun _ ↦ []) w w') : Follows y P w' := by
  obtain ⟨events, htold, hrest⟩ := h.course
  have htold' := hw.told_eq y.name
  obtain ⟨notes, rfl⟩ := hw.notes
  exact ⟨h.hears, events, by rw [htold', List.append_nil, htold], hrest⟩

end Follows

namespace Attended

variable (h : Attended n x P w)
include h

theorem congr (hpoised : Poised w') (hviews : w'.views = w.views) (hsession : w'.session = w.session)
    (hP : ∀ id told, P id told w.effects → P' id told w'.effects) : Attended n x P' w' :=
  ⟨hpoised, (congrArg Array.size hviews).trans h.size_eq, fun y hy ↦
    (h.follows y hy).congr hviews hsession (hP y.id)⟩

theorem context (d : Nat) (f : Bool) (frames : List Frame) (pins : List Pin) :
    Attended n x P { w with depth := d, flushing := f, frames := frames, pins := pins } :=
  h.congr (h.poised.context d f frames pins) rfl rfl fun _ _ h ↦ h

omit h

theorem robust : Robust (Attended n x P) where
  plain _ h := h.poised.plain
  context _ d f frames pins h := h.context d f frames pins
  reap w h := by rwa [World.reap_eq h.poised.hooked h.poised.plain.noDeriveds]

theorem depthFree : DepthFree (Attended n x P) := robust.depthFree

end Attended

/-- A view has taken its window anew, and nothing was told of that yet. -/
structure Retaken (id : ViewId) (w u : World) : Prop where
  poised : Poised u
  views_eq : u.views = (w.modifyView id fun v ↦ { v with window := (w.view id).nextWindow }).views
  session_eq : u.session = w.session
  effects_eq : u.effects = w.effects

namespace Retaken

variable {id : ViewId} {u : World}

theorem start (h : Poised w) (id : ViewId) :
    Retaken id w (w.modifyView id fun v ↦ { v with window := (w.view id).nextWindow }) :=
  ⟨h.modifyView id ⟨fun _ ↦ rfl, fun _ ↦ rfl, fun _ ↦ rfl, fun _ ↦ rfl, fun _ h ↦ h⟩ (fun _ ↦ rfl) (fun _ ↦ rfl)
    fun h ↦ ⟨h.rows, View.nodup_nextWindow h.rows⟩, rfl, rfl, rfl⟩

theorem depthFree : DepthFree (Retaken id w) := fun u d h ↦
  ⟨h.poised.context d u.flushing u.frames u.pins, h.views_eq, h.session_eq, h.effects_eq⟩

theorem size_eq (h : Retaken id w u) : u.views.size = w.views.size :=
  (congrArg Array.size h.views_eq).trans (w.size_modifyView id _)

theorem view_eq (h : Retaken id w u) (hid : id < w.views.size) (j : ViewId) :
    u.view j = if id = j then { w.view j with window := (w.view id).nextWindow } else w.view j := by
  rw [World.view, h.views_eq]
  exact World.view_modifyView_of_lt hid _ j

theorem hearers_eq (h : Retaken id w u) (hid : id < w.views.size) (j : ViewId) (event : WindowEvent)
    (name : String) : u.hearers j event name = w.hearers j event name := by
  rw [World.hearers, h.view_eq hid, World.hearers]
  split <;> rfl

/-- While the move is counted nothing else happens, as nobody watches the counter. -/
theorem writeFreeAt (hid : id < w.views.size) : WriteFreeAt (Retaken id w) (w.view id).version := by
  intro u v h _
  have heffects := h.poised.effects_version (h.size_eq.symm ▸ hid) v
  rw [h.view_eq hid, if_pos rfl] at heffects
  exact ⟨h.poised.write _ v, (u.views_write _ v).trans h.views_eq, (u.session_write _ v).trans h.session_eq,
    heffects.trans h.effects_eq⟩

/-- A window that is the same as before has not moved. -/
theorem views_eq_of_still (h : Retaken id w u) (hstill : (w.view id).nextWindow = (w.view id).window) :
    u.views = w.views := by
  have hmodify : w.modifyView id (fun v ↦ { v with window := (w.view id).nextWindow }) =
      w.modifyView id fun v ↦ v := World.modifyView_congr (by rw [hstill])
  have hviews : w.views.modify id (fun v ↦ v) = w.views :=
    Array.ext (by simp) fun i hi hi' ↦ by rw [Array.getElem_modify, ite_self]
  rw [h.views_eq, hmodify, World.modifyView, hviews]

end Retaken

/-- After a move was told, the view owes a change. -/
theorem Attended.moved (h : Attended n x P w) (hP : P.Grows) {id : ViewId} (hid : id < n) {u u' : World}
    (hu : Retaken id w u) (hmoved : (w.view id).window ≠ (w.view id).nextWindow)
    (hnoted : Noted (fun name ↦
      (((w.view id).window.filter fun e ↦ !(w.view id).nextWindow.contains e).flatMap fun e ↦
        List.replicate (u.hearers id .leave name) (.leave, some e)) ++
      (((w.view id).nextWindow.filter fun e ↦ !(w.view id).window.contains e).flatMap fun e ↦
        List.replicate (u.hearers id .enter name) (.enter, some e))) u u') :
    Attended n x P (u'.deferView id) := by
  let next := (w.view id).nextWindow
  have hlt : id < w.views.size := h.size_eq.symm ▸ hid
  have hview : ∀ j, u'.view j = if id = j then { w.view j with window := next } else w.view j := fun j ↦ by
    rw [hnoted.view_eq, hu.view_eq hlt]
  obtain ⟨hsize, heffects⟩ : u'.views.size = n ∧ u'.effects = w.effects := by
    obtain ⟨notes, rfl⟩ := hnoted.notes
    exact ⟨hu.size_eq.trans h.size_eq, hu.effects_eq⟩
  have hlt' : id < u'.views.size := hsize.symm ▸ hid
  refine ⟨(hu.poised.noted hnoted).deferView hlt', World.size_deferView.trans hsize, fun y hy ↦ ?_⟩
  obtain ⟨hhears, events, htold, hcourse, hbound⟩ := h.follows y hy
  have hdeferred := World.view_deferView hlt'
  have htold' : (u'.deferView id).told y.name = w.told y.name ++
      if id = y.id then WindowEvent.ofMove (w.view id).window next else [] := by
    rw [World.told, World.session_deferView, ← World.told, hnoted.told_eq, World.told, hu.session_eq, ← World.told,
      hu.hearers_eq hlt, hu.hearers_eq hlt, hhears, hhears]
    split
    · rw [WindowEvent.ofMove, List.map_eq_flatMap, List.map_eq_flatMap]
      rfl
    · simp
  have hbound' : P y.id (events.count (.change, none)) (u'.deferView id).effects := by
    rw [World.effects_deferView, hview, if_pos rfl, heffects]
    split
    · exact hbound
    · rename_i hchanging
      refine hP _ _ _ id (fun heq ↦ ?_) hbound
      rw [← heq]
      exact h.poised.notMem (Bool.eq_false_iff.mpr hchanging)
  refine ⟨fun j event ↦ ?_, ?_⟩
  · rw [← hhears j event, World.hearers, hdeferred, hview, World.hearers]
    split <;> rfl
  · rw [htold', htold, hdeferred, hview]
    by_cases heq : id = y.id
    · subst heq
      rw [if_pos rfl, if_pos rfl, if_pos rfl]
      have hnodup := View.nodup_nextWindow (h.poised.distinct y.id).rows
      refine ⟨_, List.append_assoc .., hcourse.move hmoved hnodup, ?_⟩
      rwa [List.count_append, WindowEvent.count_change_ofMove, Nat.add_zero]
    · rw [if_neg heq, if_neg heq, if_neg heq, List.append_nil]
      exact ⟨events, rfl, hcourse, hbound'⟩

end LiveGraph
