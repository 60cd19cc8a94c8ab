import LiveGraph.Proofs.Client.Run
import LiveGraph.Proofs.Network.Glancing
import LiveGraph.Proofs.Reactive.Write

/-!
# Histories of networks

Whatever code was carried out, in batches and in callbacks, the network it leaves is sound. This is by
induction on the depth of calls: a flush at one depth tells callbacks whose code is carried out one call
further down.
-/

namespace LiveGraph.Network

open Act

variable {net : Network} {w w' : World} {pins : List Pin} {n : Nat} {d : Nat} {f : Bool} {C : World → Prop}

/-- What acts lead to where everything is accepted. -/
theorem agree_of_leads {α : Type} {act : Acceptance → Nat → Act α} {a : α} {p : Prop}
    {Q : α → World → Prop} (h : Leads act w (.ok a w') (Good p w')) (hQ : Q a w') (n : Nat) :
    Agree (· = w) (act acceptAll n) (act acceptAll n) Q C := by
  intro w₀ hw₀
  subst hw₀
  refine ⟨rfl, ?_⟩
  obtain ⟨bound, hbound⟩ := h
  rcases hbound acceptAll n with hrun | ⟨⟨w'', hrun⟩, -⟩
  · rw [hrun]
    exact hQ
  · rw [hrun]
    exact trivial

theorem at_eq (hw : At (net.Kept pins) d f w) : At (· = w) d f w :=
  ⟨⟨rfl, hw.depth_eq, hw.flushing_eq⟩, hw.idle⟩

/-- Between acts a batch or a flush is under way, or nothing is queued. -/
theorem busy_or_done (hw : At (net.Kept pins) d f w) : w.Busy ∨ w.queue = [] := by
  by_cases hdepth : w.depth = 0
  · cases hflushing : w.flushing with
    | true => exact .inl (.inr hflushing)
    | false => exact .inr (hw.idle hdepth hflushing).1
  · exact .inl (.inl (Nat.pos_of_ne_zero hdepth))

section Code

variable {react : String → Event → Client Use}

/-- What code can do keeps the network sound, if flushes do. -/
theorem agree_perform
    (hflush : Agree (Held (net.Kept pins) 0 false) (@flush (net.dispatch react acceptAll n))
      (@flush (net.dispatch react acceptAll n)) (fun _ ↦ At (net.Kept pins) 0 false) fun _ ↦ False)
    (u : Use) (d : Nat) (f : Bool) :
    Agree (At (net.Kept pins) d f) (@Use.perform (net.dispatch react acceptAll n) u)
      (@Use.perform (net.dispatch react acceptAll n) u) (fun _ ↦ At (net.Kept pins) d f) fun _ ↦ False := by
  cases u with
  | write id v =>
    refine agree_get fun w hw ↦ agree_ite (fun _ ↦ ?_) fun _ ↦ agree_pure fun w' hw' ↦ hw' ▸ hw
    have hwrite : net.Kept pins (w.write id v) := by
      obtain ⟨_, _, _, _, heq⟩ := w.write_eq id v
      refine ⟨hw.holds.sound.write id v, ?_, ?_⟩
      · rw [heq]
        exact hw.holds.owners_eq
      · rw [heq]
        exact hw.holds.pins_eq
    have hassign : net.Kept pins (w.assigned id v) := by
      unfold World.assigned
      dsimp only
      split
      · exact hw.holds
      · exact hwrite
    refine agree_bind (agree_assign Kept.depthFree (at_eq hw) hassign fun hd hf ↦ ?_) fun _ ↦
      agree_pure fun _ h ↦ h
    subst hd hf
    exact hflush
  | glance g =>
    intro w hw
    obtain ⟨w', hleads, hsound, hlevel, hquiet⟩ :=
      glance_leads react hw.holds.sound hw.holds.owners_eq (busy_or_done hw) g
    have hdone : At (net.Kept pins) d f w' := by
      refine ⟨⟨hw.holds.level hsound hlevel, hlevel.depth_eq.trans hw.depth_eq,
        hlevel.flushing_eq.trans hw.flushing_eq⟩, fun hdepth hflushing ↦ ?_⟩
      obtain ⟨hqueue, heffects⟩ :=
        hw.idle (hlevel.depth_eq ▸ hdepth) (hlevel.flushing_eq ▸ hflushing)
      exact ⟨(hquiet hqueue).queue_eq.trans hqueue, (hquiet hqueue).effects_eq.trans heffects⟩
    exact agree_of_leads (Q := fun _ ↦ At (net.Kept pins) d f) hleads hdone n w rfl

/-- Callbacks keep the network sound at a depth of calls. -/
def CallsKeep (net : Network) (react : String → Event → Client Use) (n : Nat) : Prop :=
  ∀ pins, net.handles ⊆ pins → ∀ name event, Agree (Held (net.Kept pins) 0 true)
    ((net.dispatch react acceptAll n).call (.script name .every []) event)
    ((net.dispatch react acceptAll n).call (.script name .every []) event)
    (fun _ ↦ Held (net.Kept pins) 0 true) (Held (net.Kept pins) 0 true)

/-- Telling callbacks of scripts keeps the network sound, if callbacks do. -/
theorem agree_notifyEach_scripts (hcall : net.CallsKeep react n) (hheld : net.handles ⊆ pins) (channel : Channel)
    (event : Event) (callbacks : List (Nat × Callback))
    (hscripts : ∀ e ∈ callbacks, ∃ name, e.2 = .script name .every []) :
    Agree (Held (net.Kept pins) 0 true) (@notifyEach (net.dispatch react acceptAll n) channel event callbacks)
      (@notifyEach (net.dispatch react acceptAll n) channel event callbacks)
      (fun _ ↦ Held (net.Kept pins) 0 true) C := by
  induction callbacks with
  | nil => exact agree_pure fun _ h ↦ h
  | cons entry rest ih =>
    obtain ⟨id, callback⟩ := entry
    obtain ⟨name, hname⟩ := hscripts _ List.mem_cons_self
    obtain rfl : callback = .script name .every [] := hname
    have hrest := ih fun e he ↦ hscripts e (List.mem_cons_of_mem _ he)
    refine agree_get fun w hw ↦ agree_ite (fun _ ↦ ?_) fun _ ↦ hrest.pre fun w' hw' ↦ hw' ▸ hw
    have hfirst := (hcall pins hheld name event).pre fun w' (hw' : w' = w) ↦ hw' ▸ hw
    exact agree_bind (agree_contained hfirst fun _ h ↦ h) fun _ ↦ hrest

theorem agree_notify_scripts (hcall : net.CallsKeep react n) (hheld : net.handles ⊆ pins) (s : Source)
    (event : Event) :
    Agree (Held (net.Kept pins) 0 true) (@notify (net.dispatch react acceptAll n) s.channel event)
      (@notify (net.dispatch react acceptAll n) s.channel event) (fun _ ↦ Held (net.Kept pins) 0 true) C :=
  agree_get fun _ hw ↦ (agree_notifyEach_scripts hcall hheld s.channel event _
    (hw.holds.sound.pending.tidy s).script).pre fun _ hw' ↦ hw' ▸ hw

variable (n react) in
/-- Computing what was queued first keeps the network sound. -/
theorem agree_turn {id : DerivedId} (h : net.Sound (some id) w) (hid : id < net.count) (howners : w.owners = [])
    (hpins : w.pins = pins) (hdepth : w.depth = 0) (hflushing : w.flushing = true) :
    Agree (· = w) (do let _ ← @Derived.recompute (net.dispatch react acceptAll n) id)
      (do let _ ← @Derived.recompute (net.dispatch react acceptAll n) id)
      (fun _ ↦ Held (net.Kept pins) 0 true) C := by
  refine agree_bind (Q := fun _ ↦ Held (net.Kept pins) 0 true) ?_ fun _ ↦ agree_pure fun _ h ↦ h
  by_cases hstale : (w.derived id).stale = true
  · have hunder : ∀ o ∈ w.owners, Relation.TransGen net.Below id o := by
      rw [howners]
      exact fun _ ho ↦ absurd ho List.not_mem_nil
    obtain ⟨b, w', hleads, hsound, -, hbeside, hframes, -, -⟩ :=
      computes react id w h hid hunder hstale (.inl (.inr hflushing))
    have hlevel := World.Level.of_beside hbeside hframes
    refine agree_of_leads hleads ?_ n
    exact ⟨⟨hsound, hlevel.owners_eq.trans howners, hlevel.pins_eq.trans hpins⟩, hlevel.depth_eq.trans hdepth,
      hlevel.flushing_eq.trans hflushing⟩
  · rw [Bool.not_eq_true] at hstale
    refine agree_get fun w₀ hw₀ ↦ ?_
    subst hw₀
    rw [if_pos (by simp [hstale])]
    refine agree_pure fun w' hw' ↦ ?_
    subst hw'
    exact ⟨⟨h.of_fresh hstale, howners, hpins⟩, hdepth, hflushing⟩

section

variable (hcall : net.CallsKeep react n)
include hcall

/-- Telling what is to be told first keeps the network sound, if callbacks do. -/
theorem agree_effect {effect : Effect} {rest : List Effect} (hheld : net.handles ⊆ pins)
    (hw : Held (net.Kept pins) 0 true w) (heffects : w.effects = effect :: rest) :
    Agree (· = { w with effects := rest }) (@Effect.run (net.dispatch react acceptAll n) effect)
      (@Effect.run (net.dispatch react acceptAll n) effect) (fun _ ↦ Held (net.Kept pins) 0 true) C := by
  have hmem : effect ∈ w.effects := heffects ▸ List.mem_cons_self
  let _ : Dispatch := net.dispatch react acceptAll n
  intro w₀ hw₀
  subst hw₀
  refine ⟨rfl, ?_⟩
  cases effect with
  | signal id =>
    have hpin := hw.holds.sound.standing.pinned_signal (hw.holds.sound.signal_lt hmem)
    have htold : Held (net.Kept pins) 0 true (({ w with effects := rest } : World).modifySignal id fun s ↦
        { s with notifying := false }) :=
      ⟨⟨hw.holds.sound.toldSignal heffects, hw.holds.owners_eq, hw.holds.pins_eq⟩, hw.depth_eq, hw.flushing_eq⟩
    rw [run_signal (w := { w with effects := rest }) hpin (hw.holds.sound.standing.undisposed id)]
    exact (agree_notify_scripts hcall hheld (.signal id) _ _ htold).2
  | derived id =>
    have hid := hw.holds.sound.derived_lt hmem
    have hpinned : net.handles ⊆ .derived id :: pins := List.subset_cons_of_subset _ hheld
    have htold : Held (net.Kept (.derived id :: pins)) 0 true ((({ w with effects := rest } : World).modifyDerived id
        fun d ↦ { d with notifying := false }).pin (.derived id)) :=
      ⟨Kept.pin ⟨hw.holds.sound.toldDerived heffects, hw.holds.owners_eq, hw.holds.pins_eq⟩ _, hw.depth_eq,
        hw.flushing_eq⟩
    rw [run_derived (w := { w with effects := rest }) (hw.holds.sound.standing.undropped hid)
      (hw.holds.sound.standing.undisposed_derived hid)]
    have hend (w' : World) (hw' : Held (net.Kept (.derived id :: pins)) 0 true w') :
        Held (net.Kept pins) 0 true (w'.unpin (.derived id)) := by
      have hunpin := hw'.holds.sound.unpin_eq hw'.holds.pins_eq hheld
      refine ⟨hw'.holds.unpin hheld, ?_, ?_⟩
      · rw [hunpin]
        exact hw'.depth_eq
      · rw [hunpin]
        exact hw'.flushing_eq
    have htell (value : Option Datum) : Agree (Held (net.Kept (.derived id :: pins)) 0 true)
        (value.elim (pure ()) fun v ↦ notify (.derived id) (.value v) : Act Unit)
        (value.elim (pure ()) fun v ↦ notify (.derived id) (.value v))
        (fun _ ↦ Held (net.Kept (.derived id :: pins)) 0 true) fun _ ↦ False := by
      cases value with
      | none => exact agree_pure fun _ h ↦ h
      | some v => exact agree_notify_scripts hcall hpinned (.derived id) _
    exact (agree_followedBy (htell _) (fun _ w' hw' ↦ hend w' hw') (fun _ h ↦ h.elim) _ htold).2
  | view id => exact absurd hmem (hw.holds.sound.pending.noView id)

/-- Each round of a flush keeps the network sound, if callbacks do. -/
theorem rounds (hheld : net.handles ⊆ pins) : Rounds (net.dispatch react acceptAll n)
    (net.dispatch react acceptAll n) (net.Kept pins) fun _ ↦ False where
  rounds_eq := rfl
  compute w id w' hw hpop := by
    cases hqueue : w.queue with
    | nil =>
      rw [popQueued?_nil hqueue] at hpop
      cases hpop
    | cons entry rest =>
      rw [hw.holds.sound.popQueued?_cons hqueue, Option.some.injEq, Prod.mk.injEq] at hpop
      obtain ⟨rfl, rfl⟩ := hpop
      have hevaluated := (hw.holds.sound.queued.sound entry (hqueue ▸ List.mem_cons_self)).1
      have hsound := (hw.holds.sound.pop hqueue).context w.depth w.flushing w.session
        (List.subset_cons_of_subset (.derived entry.2) hw.holds.sound.standing.held)
      have hturn := agree_turn n react (C := fun _ ↦ False) hsound
        (hw.holds.sound.standing.lt_count hevaluated) hw.holds.owners_eq
        (congrArg (Pin.derived entry.2 :: ·) hw.holds.pins_eq) hw.depth_eq hw.flushing_eq
      refine agree_holding (fun w' hw' ↦ by subst hw'; rfl) hturn (fun _ w' hw' ↦ ?_) fun _ h ↦ h
      have hunpin := hw'.holds.sound.unpin_eq hw'.holds.pins_eq hheld
      refine ⟨hw'.holds.unpin hheld, ?_, ?_⟩
      · rw [hunpin]
        exact hw'.depth_eq
      · rw [hunpin]
        exact hw'.flushing_eq
  tell w effect rest hw hpop heffects := by
    have hqueue : w.queue = [] := by
      cases hqueue : w.queue with
      | nil => rfl
      | cons entry rest =>
        rw [hw.holds.sound.popQueued?_cons hqueue] at hpop
        cases hpop
    have hpush : Held (net.Kept pins) 0 true (w.pushFrame none) :=
      ⟨hw.holds.pushFrame, hw.depth_eq, hw.flushing_eq⟩
    refine agree_untracked (fun w' hw' ↦ ?_) (agree_effect hcall hheld hpush heffects) (fun _ w' hw' ↦ ?_)
      fun _ h ↦ h
    · subst hw'
      rw [← hqueue]
      rfl
    · obtain ⟨hpop', hreap⟩ := hw'.holds.popFrame
      rw [hreap]
      exact ⟨hpop', hw'.depth_eq, hw'.flushing_eq⟩
  settled w hw hpop heffects := by
    cases hqueue : w.queue with
    | nil =>
      rw [← hqueue]
      exact hw.holds.context w.depth false w.session
    | cons entry rest =>
      rw [hw.holds.sound.popQueued?_cons hqueue] at hpop
      cases hpop

end

end Code

section Start

variable (net)

theorem signal_start (id : SignalId) : net.start.signal id = default ∨
    ∃ v equality, net.start.signal id = ⟨v, equality, .handles, .empty, [], false, false⟩ := by
  unfold World.signal start
  dsimp only
  rw [Array.getD_eq_getD_getElem?, List.getElem?_toArray, List.getElem?_map]
  cases net.initial[id]? with
  | none => exact .inl rfl
  | some s => exact .inr ⟨s.1, s.2, rfl⟩

end Start

end LiveGraph.Network
