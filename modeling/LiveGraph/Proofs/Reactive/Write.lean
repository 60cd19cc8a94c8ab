import LiveGraph.Proofs.Reactive.Batch
import LiveGraph.Proofs.World.Access

/-!
# What a write comes to

A write to a signal is refused, or changes nothing, or is one change of the world with what follows
from it. Within a batch it is that change alone, and nothing follows before the batch ends.
-/

namespace LiveGraph

namespace World

variable (w : World)

/-- The world after a write, before anything follows from it. -/
def assigned (id : SignalId) (v : Value) : World :=
  let s := w.signal id
  if s.disposed || s.equality.holds (.value s.value) (.value v) then w else w.write id v

/-- The world after a counter has been raised. -/
def advanced (id : SignalId) : World :=
  w.assigned id (.int ((w.valueOf id).asInt?.getD 0 + 1))

/-- The world after a change has been counted for those who read a topic. -/
def counted : Topic → World
  | .signal id => w.advanced id
  | .clock s key =>
    match (w.store s).clocks.get? key with
    | some id => w.advanced id
    | none => w

/-- Nothing is marked where there are no derived values. -/
theorem markObservers_of_noDeriveds (h : w.deriveds = #[]) (s : Source) : w.markObservers s = w := by
  have hmark : ∀ id, w.markStale id = w := fun id ↦
    markStale_of_stale w (by simp [derived, h, default])
  unfold markObservers
  induction w.observersOf s with
  | nil => rfl
  | cons id rest ih => rw [List.foldl_cons, hmark, ih]

theorem write_of_noDeriveds (h : w.deriveds = #[]) (id : SignalId) (v : Value) :
    w.write id v = (w.modifySignal id fun s ↦ { s with value := v }).deferSignal id :=
  congrArg (·.deferSignal id) (markObservers_of_noDeriveds (w.modifySignal id _) h _)

/-- A write changes the value of one signal only. -/
theorem valueOf_write_of_ne (h : w.deriveds = #[]) {id j : SignalId} (hne : id ≠ j) (v : Value) :
    (w.write id v).valueOf j = w.valueOf j := by
  let w₁ := w.modifySignal id fun s ↦ { s with value := v }
  have hvalue : w₁.valueOf j = w.valueOf j := by
    rw [valueOf, signal_modifySignal, if_neg fun hid ↦ hne hid.1, valueOf]
  rw [w.write_of_noDeriveds h, ← hvalue]
  by_cases htold : ((w₁.signal id).watchers.isEmpty || (w₁.signal id).notifying) = true
  · rw [w₁.deferSignal_of_told htold]
  · have hsignal := w₁.signal_modifySignal id (fun s ↦ { s with notifying := true }) j
    rw [if_neg fun hid ↦ hne hid.1] at hsignal
    rw [w₁.deferSignal_of_untold htold]
    exact congrArg Signal.value hsignal

theorem assigned_cases (id : SignalId) (v : Value) :
    w.assigned id v = w ∨ (w.signal id).disposed = false ∧ w.assigned id v = w.write id v := by
  unfold assigned
  dsimp only
  split
  · exact .inl rfl
  · rename_i h
    rw [Bool.or_eq_true, not_or, Bool.not_eq_true] at h
    exact .inr ⟨h.1, rfl⟩

theorem advanced_cases (id : SignalId) :
    w.advanced id = w ∨ (w.signal id).disposed = false ∧ ∃ v, w.advanced id = w.write id v :=
  (w.assigned_cases id _).imp_right fun h ↦ ⟨h.1, _, h.2⟩

/-- Where nothing is computed and nobody watches, a write is nothing more. -/
theorem write_of_unwatched (h : w.deriveds = #[]) {id : SignalId} (hid : (w.signal id).watchers.entries = [])
    (v : Value) : w.write id v = w.modifySignal id fun s ↦ { s with value := v } := by
  let w₁ := w.modifySignal id fun s ↦ { s with value := v }
  have hwatchers : (w₁.signal id).watchers.isEmpty = true := by
    rw [signal_modifySignal]
    split <;> simp [Watchers.isEmpty, hid]
  rw [w.write_of_noDeriveds h, w₁.deferSignal_of_told (by rw [hwatchers]; rfl)]

/-- To raise a counter that nobody watches changes its value. -/
theorem advanced_of_unwatched (h : w.deriveds = #[]) {id : SignalId} (hid : (w.signal id).watchers.entries = []) :
    ∃ v, w.advanced id = w ∨ w.advanced id = w.modifySignal id fun s ↦ { s with value := v } := by
  rcases w.advanced_cases id with heq | ⟨-, v, heq⟩
  · exact ⟨.nil, .inl heq⟩
  · exact ⟨v, .inr (heq.trans (w.write_of_unwatched h hid v))⟩

/-- Where nobody watches a counter, nobody is to be told that it was raised. -/
theorem effects_advanced (h : w.deriveds = #[]) {id : SignalId}
    (hid : (w.signal id).watchers.entries = []) : (w.advanced id).effects = w.effects := by
  obtain ⟨v, heq | heq⟩ := w.advanced_of_unwatched h hid
  · rw [heq]
  · rw [heq]
    rfl

/-- Counting is a write or nothing. -/
theorem counted_cases (t : Topic) :
    w.counted t = w ∨ ∃ id v, (w.signal id).disposed = false ∧ w.counted t = w.write id v := by
  match t with
  | .signal id => exact (w.advanced_cases id).imp_right fun ⟨h, v, hv⟩ ↦ ⟨id, v, h, hv⟩
  | .clock s key =>
    cases hkey : (w.store s).clocks.get? key with
    | none => exact .inl (by simp only [counted, hkey])
    | some id =>
      have hcounted : w.counted (.clock s key) = w.advanced id := by simp only [counted, hkey]
      rw [hcounted]
      exact (w.advanced_cases id).imp_right fun ⟨h, v, hv⟩ ↦ ⟨id, v, h, hv⟩

@[simp] theorem depth_counted (t : Topic) : (w.counted t).depth = w.depth := by
  obtain h | ⟨id, v, -, h⟩ := w.counted_cases t <;> simp [h]

@[simp] theorem flushing_counted (t : Topic) : (w.counted t).flushing = w.flushing := by
  obtain h | ⟨id, v, -, h⟩ := w.counted_cases t <;> simp [h]

@[simp] theorem stores_counted (t : Topic) : (w.counted t).stores = w.stores := by
  obtain h | ⟨id, v, -, h⟩ := w.counted_cases t <;> simp [h]

theorem isCurrent_counted (t : Topic) (e : EntityRef) :
    (w.counted t).isCurrent e = w.isCurrent e := by
  have hstore : ∀ s, (w.counted t).store s = w.store s := fun s ↦ by
    rw [store, stores_counted, store]
  rw [isCurrent, hstore, uriOf, entity, hstore]
  rfl

theorem assigned_setDepth (id : SignalId) (v : Value) (d : Nat) :
    (w.setDepth d).assigned id v = (w.assigned id v).setDepth d := by
  have hsignal : (w.setDepth d).signal id = w.signal id := rfl
  unfold assigned
  dsimp only
  rw [write_setDepth, hsignal]
  split <;> rfl

end World

variable {I : World → Prop} {d : Nat} {f : Bool} {w : World}

namespace Act

variable {D D' : Dispatch} {C : World → Prop} {s : StoreId}

/-- A write establishes what its change establishes, once the flush after it keeps that. It is refused
only where the signal was disposed. -/
theorem agree_assign_result {id : SignalId} {v : Value} (hI : DepthFree I) (hw : At (· = w) d f w)
    (hassign : I (w.assigned id v))
    (hflush : d = 0 → f = false →
      Agree (Held I 0 false) (@flush D) (@flush D') (fun _ ↦ At I 0 false) C) :
    Agree (· = w) (@Signal.set D id v) (@Signal.set D' id v)
      (fun r w' ↦ ((w.signal id).disposed = false → r = .ok ()) ∧ At I d f w') C := by
  have hdone : w.assigned id v = w → At I d f w := fun h ↦
    hw.mono fun w' hw' ↦ by rw [hw', ← h]; exact hassign
  refine agree_get fun w' hw' ↦ ?_
  subst hw'
  refine agree_ite (fun hdisposed ↦ ?_) fun hdisposed ↦ ?_
  · have hsame : At I d f w' := hdone (if_pos (by simp [hdisposed]))
    refine agree_pure fun w'' hw'' ↦ ⟨fun hnot ↦ ?_, hw'' ▸ hsame⟩
    exact absurd (hdisposed.symm.trans hnot) (by decide)
  · refine agree_ite (fun hsame ↦ ?_) fun hsame ↦ ?_
    · have hunchanged : At I d f w' := hdone (if_pos (by simp [hsame]))
      exact agree_pure fun w'' hw'' ↦ ⟨fun _ ↦ rfl, hw'' ▸ hunchanged⟩
    · have hwrite : w'.assigned id v = w'.write id v := if_neg (by simp [hdisposed, hsame])
      rw [hwrite] at hassign
      have hbatch : Agree (Held (fun w ↦ ∃ d, w = w'.setDepth d) d f)
          (@batch D _ (modify (·.write id v))) (@batch D' _ (modify (·.write id v)))
          (fun _ ↦ At I d f) C := by
        refine agree_batch ?_ hI (agree_modify (C := fun _ ↦ False) fun w'' hw'' ↦ ?_) hflush
          fun _ h ↦ h.elim
        · rintro w'' d'' ⟨d', rfl⟩
          exact ⟨d'', rfl⟩
        · obtain ⟨⟨d', rfl⟩, hdepth, hflushing⟩ := hw''
          rw [World.write_setDepth]
          rw [World.depth_setDepth] at hdepth
          rw [World.flushing_setDepth] at hflushing
          refine ⟨hI _ _ hassign, ?_, ?_⟩
          · rw [World.depth_setDepth, hdepth]
          · rw [World.flushing_setDepth, World.flushing_write, hflushing]
      refine agree_bind (hbatch.pre fun w'' hw'' ↦ ?_) fun _ ↦ agree_pure fun _ h ↦ ⟨fun _ ↦ rfl, h⟩
      subst hw''
      exact ⟨⟨w''.depth, rfl⟩, hw.depth_eq, hw.flushing_eq⟩

theorem agree_assign {id : SignalId} {v : Value} (hI : DepthFree I) (hw : At (· = w) d f w)
    (hassign : I (w.assigned id v))
    (hflush : d = 0 → f = false →
      Agree (Held I 0 false) (@flush D) (@flush D') (fun _ ↦ At I 0 false) C) :
    Agree (· = w) (@Signal.set D id v) (@Signal.set D' id v) (fun _ ↦ At I d f) C :=
  (agree_assign_result hI hw hassign hflush).post fun _ _ h ↦ h.2

theorem agree_advance {id : SignalId} (hI : DepthFree I) (hw : At (· = w) d f w)
    (hadvance : I (w.advanced id))
    (hflush : d = 0 → f = false →
      Agree (Held I 0 false) (@flush D) (@flush D') (fun _ ↦ At I 0 false) C) :
    Agree (· = w) (@Signal.advance D id) (@Signal.advance D' id) (fun _ ↦ At I d f) C := by
  refine agree_get fun w' hw' ↦ ?_
  subst hw'
  exact agree_bind (agree_assign hI hw hadvance hflush) fun _ ↦ agree_pure fun _ h ↦ h

/-- A counter that nobody watches is raised, and nothing follows from that. -/
theorem agree_advance_unwatched {id : SignalId} (hrounds : D.rounds = D'.rounds) (hI : DepthFree I)
    (hcontext : ∀ w f, I w → I { w with flushing := f }) (hqueue : ∀ w, I w → w.queue = [])
    (hnone : w.deriveds = #[]) (hid : (w.signal id).watchers.entries = []) (hw : At (· = w) d f w)
    (hadvance : I (w.advanced id)) :
    Agree (· = w) (@Signal.advance D id) (@Signal.advance D' id) (fun _ ↦ At I d f) C := by
  by_cases hidle : d = 0 ∧ f = false
  · obtain ⟨rfl, rfl⟩ := hidle
    have heffects := (w.effects_advanced hnone hid).trans (hw.idle hw.depth_eq hw.flushing_eq).2
    have hdepth : DepthFree fun w ↦ I w ∧ w.effects = [] := fun w d hw ↦ ⟨hI w d hw.1, hw.2⟩
    exact (agree_advance hdepth hw ⟨hadvance, heffects⟩ fun _ _ ↦ agree_flush_quiet hrounds
      (fun w hw ↦ ⟨hqueue w hw.1, hw.2⟩) fun w f hw ↦ ⟨hcontext w f hw.1, hw.2⟩).post
        fun _ _ hw ↦ hw.mono fun _ hw ↦ hw.1
  · exact agree_advance hI hw hadvance fun hd hf ↦ absurd ⟨hd, hf⟩ hidle

theorem agree_bump {key : ClockKey} (hI : DepthFree I) (hw : At (· = w) d f w)
    (hcount : I (w.counted (.clock s key)))
    (hflush : d = 0 → f = false →
      Agree (Held I 0 false) (@flush D) (@flush D') (fun _ ↦ At I 0 false) C) :
    Agree (· = w) (@Store.bump D s key) (@Store.bump D' s key) (fun _ ↦ At I d f) C := by
  refine agree_get fun w' hw' ↦ ?_
  subst hw'
  unfold World.counted at hcount
  dsimp only at hcount
  split
  · rename_i id hid
    rw [hid] at hcount
    exact agree_advance hI hw hcount hflush
  · rename_i hnone
    rw [hnone] at hcount
    exact agree_pure fun w'' hw'' ↦ hw'' ▸ hw.mono fun w' hw' ↦ hw' ▸ hcount

/-- Bumping clocks one after the other counts their topics. -/
theorem agree_bumpAll {J : List Topic → World → Prop} (hJ : ∀ ks, DepthFree (J ks))
    (hcount : ∀ key ks w, J (.clock s key :: ks) w → J ks (w.counted (.clock s key)))
    (keys : List ClockKey) (ks : List Topic) :
    Agree (Held (J (keys.map (.clock s) ++ ks)) (d + 1) f) (@Store.bumpAll D s keys)
      (@Store.bumpAll D' s keys) (fun _ ↦ Held (J ks) (d + 1) f) C := by
  induction keys with
  | nil => exact agree_pure fun _ h ↦ h
  | cons key rest ih =>
    refine agree_bind (Q := fun _ ↦ Held (J (rest.map (.clock s) ++ ks)) (d + 1) f)
      (fun w hw ↦ ?_) fun _ ↦ ih
    have hat : At (· = w) (d + 1) f w :=
      (show Held (· = w) (d + 1) f w from ⟨rfl, hw.depth_eq, hw.flushing_eq⟩).at_busy
        (.inl (Nat.succ_pos d))
    have hbump : Agree (· = w) (@Store.bump D s key) (@Store.bump D' s key) (fun _ ↦ At _ _ _) C :=
      agree_bump (hJ _) hat (hcount _ _ w hw.holds) fun h ↦ absurd h (Nat.succ_ne_zero d)
    exact ⟨(hbump w rfl).1, (hbump w rfl).2.mono (fun _ _ h ↦ h.toHeld) fun _ h ↦ h⟩

end Act

end LiveGraph
