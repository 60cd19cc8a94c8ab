import LiveGraph.Proofs.Focus.Calls
import LiveGraph.Proofs.Store.Lifetimes

/-!
# What a focus lies beside

A session in which the signals of the focus belong to its debug state, those of entities to their entities, and
the first listener of removals is the one that clears roles. Operations on the store leave the focus alone: they
lead from one stage of such a session to the next, and what is held in a role stays what it was.
-/

namespace LiveGraph

/-- Callbacks of a session without views and with one debug state. -/
def Callback.Usual : Callback → Prop
  | script _ _ _ => True
  | property _ _ => True
  | forget id => id = 0
  | view _ _ => False

namespace Focus

open World Act

/-- The signals of an entity are its own, and nobody watches the one that counts its properties. -/
structure Parted (w : World) (e : EntityRef) : Prop where
  owner_eq : ∀ id, w.PartOf e id → (w.signal id).owner = .entity e
  unwatched : (w.signal (w.entity e).shape).watchers.entries = []

/-- The first listener of removals clears the roles of what is removed. -/
def ClearsFirst (w : World) : Prop :=
  ∃ rest, (w.store 0).listeners.removed.entries = (1, .forget 0) :: rest

/-- A signal that code cannot watch: it counts the scopes, or is of an entity. -/
def Private (w : World) (j : SignalId) : Prop :=
  j = (w.state 0).scopes ∨ ∃ e, (w.signal j).owner = .entity e

/-- A session without derived values and views, at a stage of an operation on its store. -/
structure Setting (stage : Stage) (w : World) : Prop where
  ground : OnGround stage w
  plain : Plain w
  noViews : w.views = #[]
  noClocks : (w.store 0).clocks = ∅
  current_eq : w.session.current = 0
  store_eq : (w.state 0).store = 0
  sound : Sound w 0
  owner_eq : ∀ j, IsSlot w 0 j → (w.signal j).owner = .state 0
  unwatched : (w.signal (w.state 0).scopes).watchers.entries = []
  parted : ∀ e, w.IsLive 0 e → Parted w e
  usual : ∀ channel, ∀ entry ∈ (w.watchers channel).entries, entry.2.Usual
  hook : ClearsFirst w

/-- A step that leaves the focus alone, but for what its signals hold. -/
structure Beside (w w' : World) : Prop extends Aloof w w' where
  deriveds_eq : w'.deriveds = w.deriveds
  queue_eq : w'.queue = w.queue
  views_eq : w'.views = w.views
  slot_eq : ∀ j, (w.signal j).owner = .state 0 → (w'.signal j).disposed = (w.signal j).disposed ∧
    (w'.signal j).equality = (w.signal j).equality
  unwatched : ∀ j < w.signals.size, Private w j → (w.signal j).watchers.entries = [] →
    (w'.signal j).watchers.entries = []
  usual : ∀ channel, ∀ entry ∈ (w'.watchers channel).entries, entry ∈ (w.watchers channel).entries ∨ entry.2.Usual
  hook : ClearsFirst w → ClearsFirst w'

namespace Beside

variable {w w' w'' : World}

theorem refl (w : World) : Beside w w :=
  ⟨.refl w, rfl, rfl, rfl, fun _ _ ↦ ⟨rfl, rfl⟩, fun _ _ _ h ↦ h, fun _ _ h ↦ .inl h, id⟩

/-- There is a signal that has an owner. -/
theorem lt_of_owner {j : SignalId} {owner : Owner} (h : (w.signal j).owner = owner) (howner : owner ≠ .handles) :
    j < w.signals.size := by
  refine Nat.lt_of_not_le fun hle ↦ howner ?_
  rw [← h, w.signal_of_size_le hle]
  rfl

theorem trans (h : Beside w w') (h' : Beside w' w'') : Beside w w'' where
  toAloof := h.toAloof.trans h'.toAloof
  deriveds_eq := h'.deriveds_eq.trans h.deriveds_eq
  queue_eq := h'.queue_eq.trans h.queue_eq
  views_eq := h'.views_eq.trans h.views_eq
  slot_eq j hj := by
    have howner := (h.owner_eq j (lt_of_owner hj nofun)).trans hj
    exact ⟨(h'.slot_eq j howner).1.trans (h.slot_eq j hj).1, (h'.slot_eq j howner).2.trans (h.slot_eq j hj).2⟩
  unwatched j hj hprivate hnone := by
    refine h'.unwatched j (Nat.lt_of_lt_of_le hj h.signals_le) ?_ (h.unwatched j hj hprivate hnone)
    rw [Private, World.state, h.states_eq, h.owner_eq j hj]
    exact hprivate
  usual channel entry hmem := by
    rcases h'.usual channel entry hmem with hmem | husual
    · exact h.usual channel entry hmem
    · exact .inr husual
  hook hfirst := h'.hook (h.hook hfirst)

theorem state_eq (h : Beside w w') (id : StateId) : w'.state id = w.state id := by
  rw [World.state, h.states_eq, World.state]

theorem isSlot_iff (h : Beside w w') (j : SignalId) : IsSlot w' 0 j ↔ IsSlot w 0 j := by
  rw [IsSlot, h.state_eq, IsSlot]

variable (w)

/-- A change of one signal, be it of what it holds or of who watches it. -/
theorem modifySignal (id : SignalId) (F : Signal → Signal) (howner : ∀ s, (F s).owner = s.owner)
    (hslot : (w.signal id).owner = .state 0 → ∀ s, (F s).disposed = s.disposed ∧ (F s).equality = s.equality)
    (hunwatched : Private w id → ∀ s, s.watchers.entries = [] → (F s).watchers.entries = [])
    (husual : ∀ s, ∀ entry ∈ (F s).watchers.entries, entry ∈ s.watchers.entries ∨ entry.2.Usual) :
    Beside w (w.modifySignal id F) := by
  refine ⟨.modifySignal w id F howner, rfl, rfl, rfl, fun j hj ↦ ?_, fun j _ hprivate hnone ↦ ?_,
    fun channel entry hmem ↦ ?_, fun h ↦ h⟩
  · rw [World.signal_modifySignal]
    split
    · rename_i hid
      exact hslot (hid.1 ▸ hj) _
    · exact ⟨rfl, rfl⟩
  · rw [World.signal_modifySignal]
    split
    · rename_i hid
      exact hunwatched (hid.1 ▸ hprivate) _ hnone
    · exact hnone
  · match channel with
    | .signal j =>
      change entry ∈ ((w.modifySignal id F).signal j).watchers.entries at hmem
      rw [World.signal_modifySignal] at hmem
      split at hmem
      · exact husual _ entry hmem
      · exact .inl hmem
    | .derived _ => exact .inl hmem
    | .store _ _ => exact .inl hmem
    | .view _ => exact .inl hmem

/-- What a signal holds, and whether its watchers are to be told. -/
theorem modifyHeld (id : SignalId) (F : Signal → Signal)
    (hF : ∀ s, { F s with value := .nil, notifying := false } = { s with value := .nil, notifying := false }) :
    Beside w (w.modifySignal id F) := by
  have hwatchers : ∀ s, (F s).watchers = s.watchers := fun s ↦ (congrArg Signal.watchers (hF s) :)
  refine modifySignal w id F (fun s ↦ (congrArg Signal.owner (hF s) :))
    (fun _ s ↦ ⟨(congrArg Signal.disposed (hF s) :), (congrArg Signal.equality (hF s) :)⟩) (fun _ s hnone ↦ ?_)
    fun s entry hmem ↦ ?_
  · rwa [hwatchers]
  · exact .inl (hwatchers s ▸ hmem)

theorem write (hnone : w.deriveds = #[]) (id : SignalId) (v : Value) : Beside w (w.write id v) := by
  have hvalue : Beside w (w.modifySignal id fun s ↦ { s with value := v }) :=
    modifyHeld w id _ fun _ ↦ rfl
  rw [w.write_of_noDeriveds hnone]
  refine hvalue.trans ?_
  generalize w.modifySignal id (fun s ↦ { s with value := v }) = w₁
  by_cases htold : ((w₁.signal id).watchers.isEmpty || (w₁.signal id).notifying) = true
  · rw [w₁.deferSignal_of_told htold]
    exact refl w₁
  · rw [w₁.deferSignal_of_untold htold]
    obtain ⟨haloof, -, -, -, hslot, hunwatched, husual, -⟩ : Beside w₁
        (w₁.modifySignal id fun s ↦ { s with notifying := true }) := modifyHeld w₁ id _ fun _ ↦ rfl
    exact ⟨⟨haloof.session_eq, haloof.states_eq, haloof.signals_le, haloof.owner_eq, haloof.noClocks⟩, rfl, rfl, rfl,
      hslot, hunwatched, husual, fun h ↦ h⟩

theorem assigned (hnone : w.deriveds = #[]) (id : SignalId) (v : Value) : Beside w (w.assigned id v) := by
  rcases w.assigned_cases id v with heq | ⟨-, heq⟩
  · rw [heq]
    exact refl w
  · rw [heq]
    exact write w hnone id v

/-- A signal that is not of the focus ends. -/
theorem disposeSignal {id : SignalId} (h : (w.signal id).owner ≠ .state 0) : Beside w (w.disposeSignal id) := by
  unfold World.disposeSignal
  split
  · exact refl w
  · exact modifySignal w id _ (fun _ ↦ rfl) (fun howner ↦ absurd howner h) (fun _ _ _ ↦ rfl) fun _ entry hmem ↦
      absurd hmem List.not_mem_nil

theorem addSignal (v : Value) (equality : Equality) (owner : Owner) :
    Beside w (w.addSignal v equality owner).2 := by
  have hold : ∀ j < w.signals.size, (w.addSignal v equality owner).2.signal j = w.signal j := fun j hj ↦ by
    rw [World.signal_addSignal, if_neg (Nat.ne_of_lt hj)]
  refine ⟨.addSignal w v equality owner, rfl, rfl, rfl, fun j hj ↦ ?_, fun j hj _ hnone ↦ ?_,
    fun channel entry hmem ↦ .inl ?_, fun h ↦ h⟩
  · rw [hold j (lt_of_owner hj nofun)]
    exact ⟨rfl, rfl⟩
  · rwa [hold j hj]
  · match channel with
    | .signal j =>
      change entry ∈ ((w.addSignal v equality owner).2.signal j).watchers.entries at hmem
      rw [World.signal_addSignal] at hmem
      split at hmem
      · exact absurd hmem List.not_mem_nil
      · exact hmem
    | .derived _ => exact hmem
    | .store _ _ => exact hmem
    | .view _ => exact hmem

/-- A change of a store that is told to the same listeners. -/
theorem modifyStore (s : StoreId) (F : Store → Store) (hlisteners : ∀ s, (F s).listeners = s.listeners)
    (hclocks : (w.store s).clocks = ∅ → (F (w.store s)).clocks = ∅) : Beside w (w.modifyStore s F) := by
  have hsame : ∀ s', ((w.modifyStore s F).store s').listeners = (w.store s').listeners := fun s' ↦
    w.part_modifyStore (·.listeners) hlisteners s s'
  refine ⟨.modifyStore w s F hclocks, rfl, rfl, rfl, fun _ _ ↦ ⟨rfl, rfl⟩, fun _ _ _ h ↦ h,
    fun channel entry hmem ↦ .inl ?_, fun h ↦ ?_⟩
  on_goal 2 => rwa [ClearsFirst, hsame]
  match channel with
  | .signal _ => exact hmem
  | .derived _ => exact hmem
  | .store s' event =>
    change entry ∈ (((w.modifyStore s F).store s').listeners.get event).entries at hmem
    rwa [hsame] at hmem
  | .view _ => exact hmem

theorem addProperty (e : EntityRef) (prop : String) (v : Value) : Beside w (w.addProperty e prop v).2 := by
  have hold : ∀ j < w.signals.size, (w.addProperty e prop v).2.signal j = w.signal j := fun j hj ↦ by
    rw [World.signal_addProperty, if_neg (Nat.ne_of_lt hj)]
  have hlisteners : ∀ s, ((w.addProperty e prop v).2.store s).listeners = (w.store s).listeners := fun s ↦
    ((w.addSignal v .same (.entity e)).2.subscribe (.signal w.signals.size) (.property e prop)).2.part_modifyStore
      (·.listeners) (by intro; rfl) e.store s
  refine ⟨.addProperty w e prop v, rfl, rfl, rfl, fun j hj ↦ ?_, fun j hj _ hnone ↦ ?_,
    fun channel entry hmem ↦ ?_, fun h ↦ ?_⟩
  · rw [hold j (lt_of_owner hj nofun)]
    exact ⟨rfl, rfl⟩
  · rwa [hold j hj]
  · match channel with
    | .signal j =>
      change entry ∈ ((w.addProperty e prop v).2.signal j).watchers.entries at hmem
      rw [World.signal_addProperty] at hmem
      split at hmem
      · obtain rfl := List.mem_singleton.mp hmem
        exact .inr trivial
      · exact .inl hmem
    | .derived _ => exact .inl hmem
    | .store s event =>
      change entry ∈ (((w.addProperty e prop v).2.store s).listeners.get event).entries at hmem
      rw [hlisteners] at hmem
      exact .inl hmem
    | .view _ => exact .inl hmem
  · rwa [ClearsFirst, hlisteners]

theorem retireClocks (s : StoreId) (uri : Uri) : Beside w (w.retireClocks s uri) := by
  unfold World.retireClocks
  dsimp only
  split
  all_goals
    refine modifyStore w s _ (fun _ ↦ rfl) fun hnone ↦ ?_
    simp only [hnone]
    rfl

/-- A signal that is not of the focus ends with its entity. -/
theorem retire (e : EntityRef) (hparts : ∀ id, w.PartOf e id → (w.signal id).owner = .entity e) :
    Beside w (w.retire e) := by
  let w₁ := w.modifyEntity e fun x ↦ { x with live := false }
  have hflag : Beside w w₁ := modifyStore w e.store _ (fun _ ↦ rfl) fun h ↦ h
  have hdispose : ∀ (ids : List SignalId) (w₂ : World), Beside w w₂ → (∀ id ∈ ids, w.PartOf e id) →
      Beside w (ids.foldl World.disposeSignal w₂) := by
    intro ids
    induction ids with
    | nil => exact fun w₂ h₂ _ ↦ h₂
    | cons id rest ih =>
      intro w₂ h₂ hids
      have howner := hparts id (hids id List.mem_cons_self)
      have howner₂ := (h₂.owner_eq id (lt_of_owner howner nofun)).trans howner
      refine ih _ (h₂.trans (disposeSignal w₂ ?_)) fun id hid ↦ hids id (List.mem_cons_of_mem _ hid)
      rw [howner₂]
      exact nofun
  rw [w.retire_eq]
  refine hdispose _ w₁ hflag fun id hid ↦ ?_
  rcases List.mem_append.mp hid with hid | hid
  · obtain ⟨prop, hprop⟩ := (Tables.mem_values _ id).mp hid
    exact .inr ⟨prop, hprop⟩
  · exact .inl (List.mem_singleton.mp hid)

end Beside

/-- What has to do neither with evaluations nor with what acts under way hold. -/
theorem Setting.context {stage : Stage} {w : World} (h : Setting stage w) (d : Nat) (f : Bool) (frames : List Frame)
    (pins : List Pin) : Setting stage { w with depth := d, flushing := f, frames := frames, pins := pins } :=
  ⟨h.ground.context d f frames pins, ⟨h.plain.noDeriveds, h.plain.queue_eq⟩, h.noViews, h.noClocks, h.current_eq,
    h.store_eq, ⟨h.sound.state_lt, h.sound.lt_size, h.sound.undisposed, h.sound.equality_eq, h.sound.injective⟩,
    h.owner_eq, h.unwatched, fun e he ↦ ⟨(h.parted e he).owner_eq, (h.parted e he).unwatched⟩, h.usual, h.hook⟩

namespace Setting

variable {stage stage' : Stage} {w w' : World}

/-- A part of an entity is no signal of the focus. -/
theorem not_isSlot (h : Setting stage w) {e : EntityRef} (he : w.IsLive 0 e) {id : SignalId} (hid : w.PartOf e id) :
    ¬IsSlot w 0 id := fun hslot ↦
  Owner.noConfusion (((h.parted e he).owner_eq id hid).symm.trans (h.owner_eq id hslot))

theorem stores_pos (h : Setting stage w) : 0 < w.stores.size := by
  obtain ⟨_, hground⟩ := h.ground.exists_ground
  rw [hground.stores_size]
  exact Nat.one_pos

/-- Nothing ends where nothing can. -/
theorem reap_eq (h : Setting stage w) : w.reap = w :=
  World.reap_eq_of_noViews h.noViews h.plain.noDeriveds

theorem beside (h : Setting stage w) (hb : Beside w w') (hground : OnGround stage' w')
    (hparted : ∀ e, w'.IsLive 0 e → Parted w' e) : Setting stage' w' where
  ground := hground
  plain := ⟨hb.deriveds_eq.trans h.plain.noDeriveds, hb.queue_eq.trans h.plain.queue_eq⟩
  noViews := hb.views_eq.trans h.noViews
  noClocks := hb.noClocks h.noClocks
  current_eq := by rw [hb.session_eq, h.current_eq]
  store_eq := by rw [hb.state_eq, h.store_eq]
  sound := by
    have hpart {slot : Slot} {j : SignalId} (hj : (w'.state 0).slot? slot = some j) : (w.state 0).slot? slot = some j ∧
        (w'.signal j).disposed = (w.signal j).disposed ∧ (w'.signal j).equality = (w.signal j).equality := by
      rw [hb.state_eq] at hj
      exact ⟨hj, hb.slot_eq j (h.owner_eq j ⟨slot, hj⟩)⟩
    refine ⟨hb.states_eq ▸ h.sound.state_lt, fun slot j hj ↦ ?_, fun slot j hj ↦ ?_, fun slot j hj ↦ ?_,
      fun slot slot' j hj hj' ↦ h.sound.injective slot slot' j (hpart hj).1 (hpart hj').1⟩
    · exact Nat.lt_of_lt_of_le (h.sound.lt_size slot j (hpart hj).1) hb.signals_le
    · exact (hpart hj).2.1.trans (h.sound.undisposed slot j (hpart hj).1)
    · exact (hpart hj).2.2.trans (h.sound.equality_eq slot j (hpart hj).1)
  owner_eq j hj := by
    have hj := (hb.isSlot_iff j).mp hj
    exact (hb.owner_eq j (Beside.lt_of_owner (h.owner_eq j hj) nofun)).trans (h.owner_eq j hj)
  unwatched := by
    rw [hb.state_eq]
    exact hb.unwatched _ (h.sound.lt_size .scopes _ rfl) (.inl rfl) h.unwatched
  parted := hparted
  usual channel entry hmem := (hb.usual channel entry hmem).elim (h.usual channel entry) id
  hook := hb.hook h.hook

/-- Entities whose properties stay where they are keep their signals. -/
theorem parted_beside (h : Setting stage w) (hb : Beside w w') {e : EntityRef} (he : w.IsLive 0 e)
    (hentity : (w'.entity e).props = (w.entity e).props ∧ (w'.entity e).shape = (w.entity e).shape) :
    Parted w' e := by
  have hpart : ∀ id, w'.PartOf e id ↔ w.PartOf e id := fun id ↦ by
    rw [World.PartOf, hentity.1, hentity.2, World.PartOf]
  have hlt : ∀ id, w.PartOf e id → id < w.signals.size := fun id hid ↦
    Beside.lt_of_owner ((h.parted e he).owner_eq id hid) nofun
  refine ⟨fun id hid ↦ ?_, ?_⟩
  · have hid := (hpart id).mp hid
    exact (hb.owner_eq id (hlt id hid)).trans ((h.parted e he).owner_eq id hid)
  · rw [hentity.2]
    exact hb.unwatched _ (hlt _ (.inl rfl)) (.inr ⟨e, (h.parted e he).owner_eq _ (.inl rfl)⟩)
      (h.parted e he).unwatched

/-- A step on the same ground that leaves the entities alone. -/
theorem same (h : Setting stage w) (hb : Beside w w') (hsame : SameGround w w')
    (hentity : ∀ e, (w'.entity e).props = (w.entity e).props ∧ (w'.entity e).shape = (w.entity e).shape) :
    Setting stage w' :=
  h.beside hb (h.ground.same hsame) fun e he ↦ h.parted_beside hb ((hsame.isLive_iff e).mp he) (hentity e)

/-- Values have nothing to do with it. -/
theorem write (h : Setting stage w) (id : SignalId) (v : Value) : Setting stage (w.write id v) := by
  refine h.same (.write w h.plain.noDeriveds id v) (.write w id v) fun e ↦ ?_
  rw [World.entity, World.store, World.stores_write]
  exact ⟨rfl, rfl⟩

theorem assigned (h : Setting stage w) (id : SignalId) (v : Value) : Setting stage (w.assigned id v) := by
  rcases w.assigned_cases id v with heq | ⟨-, heq⟩
  · rwa [heq]
  · rw [heq]
    exact h.write id v

/-- A change of tables of a store that leaves the incarnations alone. -/
theorem modifyStore (h : Setting stage w) (s : StoreId) (F : Store → Store)
    (hlisteners : ∀ s, (F s).listeners = s.listeners)
    (hincarnations : ∀ s, (F s).incarnations = s.incarnations)
    (hclocks : (w.store s).clocks = ∅ → (F (w.store s)).clocks = ∅) (hground : OnGround stage' (w.modifyStore s F)) :
    Setting stage' (w.modifyStore s F) := by
  have hsame : ∀ s', ((w.modifyStore s F).store s').incarnations = (w.store s').incarnations := fun s' ↦
    w.part_modifyStore (·.incarnations) hincarnations s s'
  have hentity : ∀ e, (w.modifyStore s F).entity e = w.entity e := fun e ↦ by
    rw [World.entity, Store.incarnation, hsame, World.entity, Store.incarnation]
  refine h.beside (.modifyStore w s F hlisteners hclocks) hground fun e he ↦ ?_
  have hlive : w.IsLive 0 e := by
    rwa [World.IsLive, World.knows, hsame, hentity] at he
  refine h.parted_beside (.modifyStore w s F hlisteners hclocks) hlive ?_
  rw [hentity]
  exact ⟨rfl, rfl⟩

theorem addProperty (h : Setting stage w) {e : EntityRef} (he : w.IsLive 0 e) (prop : String) (v : Value) :
    Setting stage (w.addProperty e prop v).2 := by
  have hb := Beside.addProperty w e prop v
  have hserial := ((World.isLive_iff e).mp he).2.1
  have hsame := SameGround.addProperty w e prop v hserial
  refine h.beside hb (h.ground.same hsame) fun e' he' ↦ ?_
  have he' := (hsame.isLive_iff e').mp he'
  have hentity : (w.addProperty e prop v).2.entity e' = _ := World.entity_addProperty h.stores_pos he he'
  by_cases heq : e = e'
  · subst heq
    rw [if_pos rfl] at hentity
    have hold : ∀ id, w.PartOf e id → id < w.signals.size ∧ (w.signal id).owner = .entity e := fun id hid ↦
      have howner := (h.parted e he).owner_eq id hid
      ⟨Beside.lt_of_owner howner nofun, howner⟩
    refine ⟨fun id hid ↦ ?_, ?_⟩
    · have hcases : id = w.signals.size ∨ w.PartOf e id := by
        rcases hid with rfl | ⟨prop', hprop'⟩
        · refine .inr (.inl ?_)
          rw [hentity]
        · rw [hentity, Std.TreeMap.get?_eq_getElem?, Std.TreeMap.getElem?_insert] at hprop'
          split at hprop'
          · exact .inl (Option.some.inj hprop').symm
          · exact .inr (.inr ⟨prop', hprop'⟩)
      rcases hcases with rfl | hid
      · rw [World.signal_addProperty, if_pos rfl]
      · exact (hb.owner_eq id (hold id hid).1).trans (hold id hid).2
    · rw [hentity]
      exact hb.unwatched _ (hold _ (.inl rfl)).1 (.inr ⟨e, (hold _ (.inl rfl)).2⟩) (h.parted e he).unwatched
  · rw [if_neg heq] at hentity
    exact h.parted_beside hb he' ⟨congrArg _ hentity, congrArg _ hentity⟩

theorem addIncarnation (h : Setting (.whole ∅) w) (uri : Uri) (kind : String) (hfree : w.contains 0 uri = false) :
    Setting (.coming ⟨0, (w.store 0).incarnations.size + 1⟩ uri kind) (w.addIncarnation 0 uri kind).2 := by
  let e : EntityRef := ⟨0, (w.store 0).incarnations.size + 1⟩
  have hground : Ground (fun _ ↦ False) w := h.ground
  have hb : Beside w (w.addIncarnation 0 uri kind).2 :=
    (Beside.addSignal w (.int 0) .same (.entity e)).trans (.modifyStore _ 0 _ (fun _ ↦ rfl) fun h ↦ h)
  refine h.beside hb (OnGround.addIncarnation hground uri kind hfree) fun e' he' ↦ ?_
  obtain ⟨hstore, hpos, hle, hlive⟩ := (World.isLive_iff_entity e').mp he'
  have hentity := hground.entity_addIncarnation uri kind hstore hpos
  by_cases hnew : e'.serial = (w.store 0).incarnations.size + 1
  · rw [if_pos hnew] at hentity
    obtain rfl : e = e' := EntityRef.eq_of_serial hstore.symm hnew.symm
    have hsignal : (w.addIncarnation 0 uri kind).2.signal w.signals.size =
        ⟨.int 0, .same, .entity e, .empty, [], false, false⟩ := by
      refine (w.signal_addSignal (.int 0) .same (.entity e) w.signals.size).trans ?_
      rw [if_pos rfl]
    refine ⟨fun id hid ↦ ?_, ?_⟩
    · rw [World.PartOf, hentity] at hid
      rcases hid with rfl | ⟨prop, hprop⟩
      · rw [hsignal]
      · have hnone : (∅ : Std.TreeMap String SignalId).get? prop = none := Std.TreeMap.getElem?_emptyc
        exact absurd (hprop.symm.trans hnone) (Option.some_ne_none _)
    · rw [hentity, hsignal]
      rfl
  · rw [if_neg hnew] at hentity
    have hsize := congrArg (·.incarnations.size) (hground.store_addIncarnation uri kind)
    dsimp only at hsize
    rw [hsize, Array.size_push] at hle
    have hold : w.IsLive 0 e' :=
      (World.isLive_iff_entity e').mpr ⟨hstore, hpos, by omega, hentity ▸ hlive⟩
    exact h.parted_beside hb hold ⟨congrArg _ hentity, congrArg _ hentity⟩

theorem enlist {e : EntityRef} {uri : Uri} {kind : String} (h : Setting (.coming e uri kind) w) (U : Set EntityRef) :
    Setting (.whole U) (w.enlist e) :=
  h.modifyStore e.store _ (fun _ ↦ rfl) (fun _ ↦ rfl) (fun h ↦ h) (OnGround.enlist h.ground).1

/-- What ends with an entity is its own. -/
theorem beside_strike (h : Setting (.whole ∅) w) {e : EntityRef} (he : w.IsLive 0 e) :
    Beside w ((w.strike e).2.retire e) := by
  have hstruck : Beside w (w.strike e).2 := .modifyStore w e.store _ (fun _ ↦ rfl) fun h ↦ h
  refine hstruck.trans (.retire (w.strike e).2 e fun id hid ↦ ?_)
  rw [World.PartOf, (w.steady_strike e).entity_eq] at hid
  exact (h.parted e he).owner_eq id hid

theorem strike (h : Setting (.whole ∅) w) {uri : Uri} {e : EntityRef} (hfound : w.find? 0 uri = some e) :
    Setting (.gone e) ((w.strike e).2.retire e) := by
  have hground : Ground (fun _ ↦ False) w := h.ground
  obtain ⟨hstore, hfind⟩ := World.live_of_find? hfound
  have he := ((World.live_iff_isLive hground.coherent e hstore uri).mp hfind).1
  have hsteady := w.steady_strike e
  have hstruck := World.struck_of_find? hground hfound
  have hb := h.beside_strike he
  refine h.beside hb (OnGround.strike hground hfound) fun e' he' ↦ ?_
  obtain ⟨hlive, hne⟩ := (hstruck.isLive_iff e').mp he'
  have hlive := (hsteady.isLive_iff e').mp hlive
  obtain ⟨hstore', hpos', -⟩ := (World.isLive_iff e').mp hlive
  have hentity := (hstruck.entity_eq e' hstore' hpos' hne).trans (hsteady.entity_eq e')
  exact h.parted_beside hb hlive ⟨congrArg _ hentity, congrArg _ hentity⟩

section Watchers

variable (h : Setting stage w) (F : Watchers → Watchers)
  (husual : ∀ ws : Watchers, ∀ entry ∈ (F ws).entries, entry ∈ ws.entries ∨ entry.2.Usual)
include h husual

/-- Whoever else listens to the store. -/
theorem beside_listeners (event : StoreEvent)
    (hhook : event = .removed → ∀ ws : Watchers, (∃ rest, ws.entries = (1, .forget 0) :: rest) →
      ∃ rest, (F ws).entries = (1, .forget 0) :: rest) : Beside w (w.modifyWatchers (.store 0 event) F) := by
  have haloof : Aloof w (w.modifyWatchers (.store 0 event) F) := .modifyStore w 0 _ fun h ↦ h
  refine ⟨haloof, rfl, rfl, rfl, fun _ _ ↦ ⟨rfl, rfl⟩, fun _ _ _ h ↦ h, fun channel entry hmem ↦ ?_, fun hfirst ↦ ?_⟩
  · match channel with
    | .signal _ => exact .inl hmem
    | .derived _ => exact .inl hmem
    | .view _ => exact .inl hmem
    | .store s event' =>
      change entry ∈ (((w.modifyStore 0 _).store s).listeners.get event').entries at hmem
      rw [World.store_modifyStore] at hmem
      split at hmem
      · cases event <;> cases event' <;> first | exact husual _ entry hmem | exact .inl hmem
      · exact .inl hmem
  · change ∃ rest, ((w.modifyStore 0 _).store 0).listeners.removed.entries = _
    rw [World.store_modifyStore_self _ h.stores_pos]
    cases event with
    | removed => exact hhook rfl _ hfirst
    | added => exact hfirst
    | updated => exact hfirst
    | edgeAdded => exact hfirst
    | edgeRemoved => exact hfirst

theorem modifyListeners (event : StoreEvent)
    (hhook : event = .removed → ∀ ws : Watchers, (∃ rest, ws.entries = (1, .forget 0) :: rest) →
      ∃ rest, (F ws).entries = (1, .forget 0) :: rest) : Setting stage (w.modifyWatchers (.store 0 event) F) := by
  refine h.same (h.beside_listeners F husual event hhook) (.modifyWatchers w _ F) fun e ↦ ?_
  have hsame := w.part_modifyStore (f := fun s ↦ { s with listeners := s.listeners.modify event F })
    (·.incarnations) (by intro; rfl) 0 e.store
  rw [World.entity, Store.incarnation, modifyWatchers, hsame, World.entity, Store.incarnation]
  exact ⟨rfl, rfl⟩

/-- Whoever watches a role. -/
theorem beside_roleWatchers {j : SignalId} {scope : Option String} {name : String}
    (hj : (w.state 0).slot? (.role scope name) = some j) : Beside w (w.modifyWatchers (.signal j) F) := by
  refine .modifySignal w j _ (fun _ ↦ rfl) (fun _ _ ↦ ⟨rfl, rfl⟩) (fun hprivate ↦ ?_)
    fun s entry hmem ↦ husual s.watchers entry hmem
  rcases hprivate with hscopes | ⟨e, howner⟩
  · exact Slot.noConfusion (h.sound.injective (.role scope name) .scopes j hj (congrArg some hscopes.symm))
  · exact Owner.noConfusion (howner.symm.trans (h.owner_eq j ⟨_, hj⟩))

theorem modifyRoleWatchers {j : SignalId} {scope : Option String} {name : String}
    (hj : (w.state 0).slot? (.role scope name) = some j) : Setting stage (w.modifyWatchers (.signal j) F) :=
  h.same (h.beside_roleWatchers F husual hj) (.modifyWatchers w _ F) fun _ ↦ ⟨rfl, rfl⟩

end Watchers

/-- A scope gets roles of its own. -/
theorem widened (h : Setting (.whole ∅) w) {scope : String} {own : Override} (hw : Widened 0 scope own w w') :
    Setting (.whole ∅) w' := by
  have hground : Ground (fun _ ↦ False) w := h.ground
  have hstores : w'.stores = w.stores := hw.part_eq World.stores fun _ _ _ ↦ rfl
  have hstore : ∀ s, w'.store s = w.store s := fun s ↦ by rw [World.store, hstores, World.store]
  have hsession : w'.session = w.session := hw.part_eq World.session fun _ _ _ ↦ rfl
  have hderiveds : w'.deriveds = w.deriveds := hw.part_eq World.deriveds fun _ _ _ ↦ rfl
  have hviews : w'.views = w.views := hw.part_eq World.views fun _ _ _ ↦ rfl
  have hqueue : w'.queue = w.queue := hw.part_eq World.queue fun _ _ _ ↦ rfl
  have hentity : ∀ e, w'.entity e = w.entity e := fun e ↦ by rw [World.entity, hstore, World.entity]
  have hstate : (w'.state 0).store = 0 := by rw [hw.state_eq, h.store_eq]
  have hscopes : (w'.state 0).scopes = (w.state 0).scopes := by rw [hw.state_eq]
  refine ⟨⟨?_, ?_, ?_⟩, ⟨hderiveds.trans h.plain.noDeriveds, hqueue.trans h.plain.queue_eq⟩, hviews.trans h.noViews,
    ?_, by rw [hsession, h.current_eq], hstate, hw.sound h.sound, fun j hj ↦ ?_, ?_, fun e he ↦ ?_,
    fun channel entry hmem ↦ ?_, ?_⟩
  · rw [hstore]
    exact hground.coherent
  · rw [hstores]
    exact hground.stores_size
  · rw [hsession, h.current_eq]
    exact ⟨hw.states_size ▸ h.sound.state_lt, hstate⟩
  · rw [hstore]
    exact h.noClocks
  · obtain ⟨slot, hslot⟩ := hj
    exact hw.part_slot h.sound (·.owner = .state 0) hslot (fun hold ↦ h.owner_eq j ⟨slot, hold⟩) rfl
  · rw [hscopes, hw.signal_eq _ (h.sound.lt_size .scopes _ rfl)]
    exact h.unwatched
  · have hold : w.IsLive 0 e := by
      rwa [World.IsLive, World.knows, hstore, hentity] at he
    have hlt : ∀ id, w.PartOf e id → id < w.signals.size := fun id hid ↦
      Beside.lt_of_owner ((h.parted e hold).owner_eq id hid) fun howner ↦ Owner.noConfusion howner
    refine ⟨fun id hid ↦ ?_, ?_⟩
    · rw [World.PartOf, hentity] at hid
      rw [hw.signal_eq id (hlt id hid)]
      exact (h.parted e hold).owner_eq id hid
    · rw [hentity, hw.signal_eq _ (hlt _ (.inl rfl))]
      exact (h.parted e hold).unwatched
  · cases channel with
    | derived id =>
      refine h.usual (.derived id) entry ?_
      rwa [World.watchers, World.derived, hderiveds] at hmem
    | store s event =>
      refine h.usual (.store s event) entry ?_
      rwa [World.watchers, hstore] at hmem
    | view id =>
      refine h.usual (.view id) entry ?_
      rwa [World.watchers, World.view, hviews] at hmem
    | signal j =>
      change entry ∈ (w'.signal j).watchers.entries at hmem
      by_cases hold : j < w.signals.size
      · rw [hw.signal_eq j hold] at hmem
        exact h.usual (.signal j) entry hmem
      · by_cases hlt : j < w'.signals.size
        · rw [hw.fresh j (Nat.le_of_not_lt hold) hlt] at hmem
          exact absurd hmem List.not_mem_nil
        · rw [w'.signal_of_size_le (Nat.le_of_not_lt hlt)] at hmem
          exact absurd hmem List.not_mem_nil
  · rw [ClearsFirst, hstore]
    exact h.hook

end Setting

end Focus

end LiveGraph
