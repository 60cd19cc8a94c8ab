import LiveGraph.Proofs.View.Operations
import LiveGraph.Proofs.View.Reporting

/-!
# What a flush tells of windows

A flush tells the changes that views owe, and of the properties that have changed, which may move windows
again. So it tells of each view two changes at most, and nothing is owed after it.
-/

namespace LiveGraph

open Act

variable {D : Dispatch} {C : World → Prop} {w w' : World} {effect : Effect} {rest : List Effect}
variable {n : Nat} {x : Option Listener} {P P' : Tally} {U : Set EntityRef}

/-- What is taken up and has nothing to do with views leaves them as they are. -/
theorem Attended.popped (h : Attended n x P w) (hpopped : Popped w w' effect) (hother : ∀ id, effect ≠ .view id)
    (hP : ∀ id told, P id told (effect :: w'.effects) → P' id told w'.effects) : Attended n x P' w' := by
  have hpoised : Poised w' := by
    refine h.poised.congr (hpopped.plain h.poised.plain) (hpopped.tied h.poised.tied)
      (h.poised.hooked.congr (by rw [hpopped.store_eq]) hpopped.views_eq (by rw [hpopped.session_eq]))
      hpopped.views_eq (fun id _ ↦ (hpopped.signal_kept id).2.1) (fun hnone ↦ ?_) (fun id ↦ ?_) fun h ↦ h.congr ?_
    · rwa [hpopped.store_eq]
    · rw [hpopped.effects_eq, List.count_cons_of_ne (hother id)]
    · rw [hpopped.store_eq]
  refine h.congr hpoised hpopped.views_eq hpopped.session_eq fun id told hp ↦ hP id told ?_
  rwa [← hpopped.effects_eq]

/-- A view owes the change that is taken up, and no other. -/
theorem Poised.owes (h : Poised w) {id : ViewId} (heffects : w.effects = .view id :: rest) :
    id < w.views.size ∧ (w.view id).changing = true ∧ Effect.view id ∉ rest := by
  have hwaiting := h.waiting id
  rw [heffects, List.count_cons_self] at hwaiting
  cases hchanging : (w.view id).changing with
  | false =>
    rw [hchanging] at hwaiting
    exact absurd hwaiting (Nat.succ_ne_zero _)
  | true =>
    rw [hchanging] at hwaiting
    refine ⟨?_, rfl, List.count_eq_zero.mp (Nat.succ.inj hwaiting)⟩
    by_contra hle
    rw [World.view_of_size_le (Nat.le_of_not_lt hle)] at hchanging
    exact Bool.noConfusion hchanging

/-- A view that tells its change owes nothing any more. -/
theorem Poised.told (h : Poised w) {id : ViewId} (heffects : w.effects = .view id :: rest)
    (frames : List Frame) (pins : List Pin) :
    Poised (World.modifyView { w with queue := [], effects := rest, frames := frames, pins := pins } id
      fun v ↦ { v with changing := false }) := by
  let w₁ : World := { w with queue := [], effects := rest, frames := frames, pins := pins }
  obtain ⟨hlt, hchanging, hnot⟩ := h.owes heffects
  have hpopped : Popped w w₁ (.view id) := ⟨heffects, rfl, rfl, fun _ ↦ .inl rfl, nofun, rfl, rfl, rfl, rfl, rfl⟩
  have hlt₁ : id < w₁.views.size := hlt
  have hview := World.view_modifyView_of_lt hlt₁ fun v ↦ { v with changing := false }
  have hplain := hpopped.plain h.plain
  have hhooked : w₁.Hooked := h.hooked.congr rfl rfl rfl
  have hkeeps : View.Keeps fun v ↦ { v with changing := false } :=
    ⟨fun _ ↦ rfl, fun _ ↦ rfl, fun _ ↦ rfl, fun _ ↦ rfl, fun _ h ↦ h⟩
  refine ⟨⟨hplain.noDeriveds, hplain.queue_eq⟩, (hpopped.tied h.tied).of_eq rfl rfl fun _ ↦ rfl,
    hhooked.modifyView id hkeeps, fun j hj ↦ ?_, h.noClocks, fun j ↦ ?_, h.traced, fun j ↦ ?_⟩
  · obtain ⟨k, hk⟩ := h.versions j (w₁.size_modifyView id _ ▸ hj)
    refine ⟨k, ?_⟩
    rw [hview]
    split <;> exact hk
  · change rest.count (.view j) = _
    rw [hview]
    by_cases hj : id = j
    · subst hj
      rw [if_pos rfl, List.count_eq_zero.mpr hnot]
      rfl
    · have hwaiting := h.waiting j
      rw [heffects, List.count_cons_of_ne (by simpa using hj)] at hwaiting
      rw [if_neg hj, hwaiting]
      rfl
  · rw [hview]
    split
    · exact ⟨(h.distinct j).rows, (h.distinct j).window⟩
    · exact h.distinct j

/-- After its change was told, a view that is listened to owes nothing. -/
theorem Attended.changed (h : Attended n x P w) (hP : P.Drains P') {id : ViewId}
    (heffects : w.effects = .view id :: rest) {frames : List Frame} {pins : List Pin} {u u' : World}
    (hu : u = World.modifyView { w with queue := [], effects := rest, frames := frames, pins := pins } id
      fun v ↦ { v with changing := false })
    (hnoted : Noted (fun name ↦ List.replicate (u.hearers id .change name) (.change, none)) u u') :
    Attended n x P u' := by
  obtain ⟨hlt, hchanging, -⟩ := h.poised.owes heffects
  have hview : ∀ j, u.view j = if id = j then { w.view j with changing := false } else w.view j := fun j ↦ by
    rw [hu]
    exact World.view_modifyView_of_lt hlt _ j
  have hhearers : ∀ j event name, u.hearers j event name = w.hearers j event name := fun j event name ↦ by
    rw [World.hearers, hview, World.hearers]
    split <;> rfl
  have hpoised : Poised u := hu ▸ h.poised.told heffects frames pins
  have hsize : u.views.size = n := by
    rw [hu, World.size_modifyView]
    exact h.size_eq
  obtain ⟨heffects', hsize'⟩ : u'.effects = rest ∧ u'.views.size = n := by
    obtain ⟨notes, rfl⟩ := hnoted.notes
    exact ⟨congrArg (·.effects) hu, hsize⟩
  refine ⟨hpoised.noted hnoted, hsize', fun y hy ↦ ?_⟩
  obtain ⟨hhears, events, htold, hcourse, hbound⟩ := h.follows y hy
  have htold' : u'.told y.name = y.before ++ (events ++ if id = y.id then [(.change, none)] else []) := by
    have hfrom : u.told y.name = w.told y.name := by rw [hu]; rfl
    rw [hnoted.told_eq, hfrom, htold, hhearers, hhears, List.append_assoc]
    split <;> rfl
  refine ⟨fun j event ↦ ?_, _, htold', ?_⟩
  · rw [World.hearers, hnoted.view_eq, ← World.hearers, hhearers]
    exact hhears j event
  rw [hnoted.view_eq, hview, heffects']
  rw [heffects] at hbound
  by_cases heq : id = y.id
  · subst heq
    rw [hchanging] at hcourse
    rw [if_pos rfl, if_pos rfl]
    refine ⟨hcourse.change, ?_⟩
    rw [List.count_append, List.count_singleton_self]
    exact hP.view y.id _ rest hbound
  · rw [if_neg heq, if_neg heq, List.append_nil]
    exact ⟨hcourse, hP.other y.id _ id rest heq hbound⟩

section Effects

variable (hD : Attentive D) (hP : P.Drains P')
include hD hP

/-- A change is told to those who listen to the view, after a move. -/
theorem agree_effect_change {id : ViewId} (hw : Held (Attended n x P) 0 true w)
    (heffects : w.effects = .view id :: rest) (frames : List Frame) :
    Agree (· = { w with queue := [], effects := rest, frames := frames }) (@Effect.run D (.view id))
      (@Effect.run D (.view id)) (fun _ ↦ Held (Attended n x P) 0 true) fun _ ↦ False := by
  have h := hw.holds
  let w₁ : World := { w with queue := [], effects := rest, frames := frames }
  obtain ⟨hlt, -, -⟩ := h.poised.owes heffects
  have hsubscribed := h.poised.hooked.views id hlt
  have hview₁ : w₁.view id = w.view id := rfl
  refine agree_get fun w' hw' ↦ ?_
  subst hw'
  refine agree_ite (fun _ ↦ ?_) fun hdropped ↦ ?_
  swap
  · rw [hview₁, hsubscribed.undropped] at hdropped
    exact absurd rfl hdropped
  let Q : World → Prop := fun u ↦ ∃ pins, u = { w₁ with pins := pins }
  refine (Attended.robust.agree_holding (P := Q) (fun u hu ↦ ?_) ?_).pre fun u hu ↦
    hu ▸ ⟨⟨w.pins, rfl⟩, hw.depth_eq, hw.flushing_eq⟩
  · obtain ⟨pins, rfl⟩ := hu
    exact ⟨_, rfl⟩
  intro u hu
  obtain ⟨pins, rfl⟩ := hu.holds
  let u := World.modifyView { w₁ with pins := pins } id fun v ↦ { v with changing := false }
  suffices htold : Agree (· = u) (do
      if !((← get).view id).disposed then @notify D (.view id) (.window .change none)) _
      (fun _ ↦ Held (Attended n x P) 0 true) fun _ ↦ False from htold u rfl
  refine agree_get fun u' hu' ↦ ?_
  subst hu'
  refine agree_ite (fun _ ↦ ?_) fun hdisposed ↦ ?_
  swap
  · have hundisposed : (u.view id).disposed = false := by
      rw [World.view_modifyView, if_pos ⟨rfl, hlt⟩]
      exact hsubscribed.undisposed
    rw [hundisposed] at hdisposed
    exact absurd rfl hdisposed
  have hpoised : Poised u := h.poised.told heffects frames pins
  refine (hD.reports.agree_notify (hpoised.scripts id) .change none).post fun _ u' hu' ↦ ?_
  obtain ⟨hdepth, hflushing⟩ : u'.depth = 0 ∧ u'.flushing = true := by
    obtain ⟨notes, rfl⟩ := hu'.notes
    exact ⟨hw.depth_eq, hw.flushing_eq⟩
  exact ⟨h.changed hP heffects rfl hu', hdepth, hflushing⟩

/-- A property that has changed is told to the store, by which windows may move. -/
theorem agree_effect_property {id : SignalId} (hw : Held (Attended n x P) 0 true w)
    (heffects : w.effects = .signal id :: rest) (frames : List Frame)
    (hheld : World.isStoreHeld { w with queue := [], effects := rest, frames := frames } 0 = true) :
    Agree (· = { w with queue := [], effects := rest, frames := frames }) (@Effect.run D (.signal id))
      (@Effect.run D (.signal id)) (fun _ ↦ Held (Attended n x P) 0 true) fun _ ↦ False := by
  have hpop {w' : World} (hw' : Held (fun w' ↦ Popped w w' (.signal id)) w.depth w.flushing w') :
      Held (Attended n x P') 0 true w' :=
    ⟨hw.holds.popped hw'.holds nofun fun j told ↦ hP.signal j told id _, hw'.depth_eq.trans hw.depth_eq,
      hw'.flushing_eq.trans hw.flushing_eq⟩
  have hafter {w' : World} (hw' : Held (Attended n x P') 0 true w') : Held (Attended n x P) 0 true w' :=
    hw'.mono fun w' hw' ↦ hw'.congr hw'.poised rfl rfl fun j told ↦ hP.after j told _
  exact Act.agree_effect_signal frames hw.holds.poised.tied heffects hheld
    (fun e prop event hid ↦ (hD.property prop event hP.grows hid.1.1).mono (fun _ ↦ hpop) (fun _ _ ↦ hafter)
      fun _ h ↦ h) fun _ w' hw' ↦ hafter (hpop hw')

/-- Whatever was put off, telling it keeps what is owed in order. -/
theorem agree_effect_attended (hw : Held (Attended n x P) 0 true w) (heffects : w.effects = effect :: rest)
    (frames : List Frame)
    (hheld : World.isStoreHeld { w with queue := [], effects := rest, frames := frames } 0 = true) :
    Agree (· = { w with queue := [], effects := rest, frames := frames }) (@Effect.run D effect)
      (@Effect.run D effect) (fun _ ↦ Held (Attended n x P) 0 true) fun _ ↦ False := by
  match effect with
  | .signal id => exact agree_effect_property hD hP hw heffects frames hheld
  | .view id => exact agree_effect_change hD hP hw heffects frames
  | .derived id =>
    refine (Attended.robust.agree_effect_derived id).pre fun w' hw' ↦ ?_
    have hpopped := World.popped frames heffects nofun
    exact hw' ▸ ⟨hw.holds.popped hpopped nofun fun j told ↦ hP.derived j told id _, hw.depth_eq, hw.flushing_eq⟩

end Effects

/-- The views show what they should, and what a listener has noted of one of them is the course of its window. -/
def Followed (stage : Stage) (n : Nat) (x : Option Listener) (P : Tally) (w : World) : Prop :=
  Viewed stage w ∧ Attended n x P w

namespace Followed

variable {stage : Stage} {d : Nat} {f : Bool}

theorem robust : Robust (Followed stage n x P) where
  plain _ h := h.1.plain
  context _ d f frames pins h := ⟨h.1.context d f frames pins, h.2.context d f frames pins⟩
  reap w h := by rwa [World.reap_eq h.2.poised.hooked h.1.plain.noDeriveds]

theorem held_iff : Held (Followed stage n x P) d f w ↔
    Held (Viewed stage) d f w ∧ Held (Attended n x P) d f w :=
  ⟨fun h ↦ ⟨h.mono fun _ h ↦ h.1, h.mono fun _ h ↦ h.2⟩,
    fun h ↦ ⟨⟨h.1.holds, h.2.holds⟩, h.1.depth_eq, h.1.flushing_eq⟩⟩

/-- What keeps the views right, and what is owed in order, keeps both. -/
theorem agree {stage' : Stage} {a : Act Unit} {C' I I' : World → Prop}
    (h : Agree (Held I' d f) a a (fun _ ↦ Held (Viewed stage') d f) C)
    (h' : Agree (Held (Attended n x P) d f) a a (fun _ ↦ Held (Attended n x P') d f) C')
    (hI : ∀ w, I w → I' w ∧ Attended n x P w) :
    Agree (Held I d f) a a (fun _ ↦ Held (Followed stage' n x P') d f) C :=
  (h.and h').mono (fun _ hw ↦ ⟨hw.mono fun w hw ↦ (hI w hw).1, hw.mono fun w hw ↦ (hI w hw).2⟩)
    (fun _ _ ↦ held_iff.mpr) fun _ hw ↦ hw.1

end Followed

/-- A flush tells what is owed and keeps the views right. -/
theorem agree_flush_followed (htame : Tame D) (hD : Attentive D) (hP : P.Drains P') :
    Agree (Held (Followed (.whole U) n x P) 0 false) (@flush D) (@flush D)
      (fun _ ↦ At (Followed (.whole U) n x P) 0 false) fun _ ↦ False := by
  refine Followed.robust.agree_flush (Followed.robust.rounds rfl fun w effect rest frames hw heffects ↦ ?_)
  obtain ⟨hviewed, hattended⟩ := Followed.held_iff.mp hw
  have hground : Ground (fun _ ↦ False) w := hviewed.holds.ground
  have hheld : World.isStoreHeld { w with queue := [], effects := rest, frames := frames } 0 = true :=
    Ground.held ⟨hground.coherent, hground.stores_size, hground.current⟩
  have hright : Agree _ (@Effect.run D effect) (@Effect.run D effect) _ _ :=
    Viewed.excusing.agree_effect (fun _ prop event he ↦ htame.agree_told_property he prop event)
      htame.agree_effect_view hviewed heffects frames
  exact (hright.and (agree_effect_attended hD hP hattended heffects frames hheld)).mono
    (fun _ hw' ↦ ⟨hw', hw'⟩) (fun _ _ ↦ Followed.held_iff.mpr) fun _ h ↦ h.1

end LiveGraph
