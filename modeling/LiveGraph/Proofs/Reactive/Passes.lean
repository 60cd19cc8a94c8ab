import LiveGraph.Proofs.Reactive.Batch
import LiveGraph.Proofs.World.Access
import LiveGraph.Session.Basic
import Mathlib.Tactic.Choose

/-!
# Passes over watchers

Telling the watchers of a channel goes through their list as it stood at first, while those that are called add to the
list, take from it, start passes of their own over it, or crash. Numbers grow and none is issued twice, so that a number
which is still in the list has been there all the time: what is called is what was in the list at first, without what
the calls before its turn took away.
-/

namespace LiveGraph

namespace Watchers

/-- What can be done to a list of watchers. -/
inductive Change
  | add (callback : Callback)
  | remove (id : Nat)
  | clear

def change (ws : Watchers) : Change → Watchers
  | .add callback => ws.add callback
  | .remove id => ws.remove id
  | .clear => ws.clear

/-- A list of watchers after some changes, one after the other. -/
def after (ws : Watchers) (changes : List Change) : Watchers :=
  changes.foldl change ws

/-- The change takes away what has the number, if that is there. -/
def Change.Takes (id : Nat) : Change → Prop
  | add _ => False
  | remove id' => id' = id
  | clear => True

instance (id : Nat) : DecidablePred (Change.Takes id)
  | .add _ => inferInstanceAs (Decidable False)
  | .remove id' => inferInstanceAs (Decidable (id' = id))
  | .clear => inferInstanceAs (Decidable True)

variable {ws : Watchers} {id : Nat}

theorem contains_iff : ws.contains id ↔ ∃ e ∈ ws.entries, e.1 = id := by
  simp [contains]

theorem after_append (changes changes' : List Change) :
    ws.after (changes ++ changes') = (ws.after changes).after changes' :=
  List.foldl_append

theorem issued_le_change (c : Change) : ws.issued ≤ (ws.change c).issued := by
  cases c with
  | add callback => exact Nat.le_succ _
  | remove id => exact Nat.le_refl _
  | clear => exact Nat.le_refl _

/-- What has an old number is in the list after a change if it was before, and the change does not take it away. -/
theorem contains_change (hid : id ≤ ws.issued) (c : Change) :
    (ws.change c).contains id ↔ ws.contains id ∧ ¬c.Takes id := by
  simp only [contains_iff]
  cases c with
  | add callback =>
    have hold : ws.issued + 1 ≠ id := by omega
    simp [change, add, Change.Takes, hold]
  | remove id' =>
    simp only [change, remove, Change.Takes, List.mem_filter, decide_eq_true_eq]
    constructor
    · rintro ⟨e, ⟨he, hne⟩, rfl⟩
      exact ⟨⟨e, he, rfl⟩, Ne.symm hne⟩
    · rintro ⟨⟨e, he, rfl⟩, hne⟩
      exact ⟨e, ⟨he, Ne.symm hne⟩, rfl⟩
  | clear => simp [change, clear, Change.Takes]

theorem contains_after (hid : id ≤ ws.issued) (changes : List Change) :
    (ws.after changes).contains id ↔ ws.contains id ∧ ∀ c ∈ changes, ¬c.Takes id := by
  induction changes generalizing ws with
  | nil => simp [after]
  | cons c changes ih =>
    have hlater := ih (Nat.le_trans hid (issued_le_change c))
    rw [show ws.after (c :: changes) = (ws.change c).after changes from rfl, hlater, contains_change hid, and_assoc,
      List.forall_mem_cons]

theorem issued_le_after (changes : List Change) : ws.issued ≤ (ws.after changes).issued := by
  induction changes generalizing ws with
  | nil => exact Nat.le_refl _
  | cons c changes ih => exact Nat.le_trans (issued_le_change c) ih

/-- Numbers that were issued, in the order in which they were. -/
structure Ordered (ws : Watchers) : Prop extends ws.Numbered where
  ascending : ws.entries.Pairwise (·.1 < ·.1)

namespace Ordered

theorem empty : Watchers.empty.Ordered :=
  ⟨.empty, .nil⟩

theorem change (h : ws.Ordered) (c : Change) : (ws.change c).Ordered := by
  cases c with
  | add callback =>
    refine ⟨h.toNumbered.add callback, List.pairwise_append.mpr ⟨h.ascending, List.pairwise_singleton _ _, ?_⟩⟩
    intro e he e' he'
    rw [List.mem_singleton.mp he']
    exact Nat.lt_succ_of_le (h.le_issued e he)
  | remove id => exact ⟨h.toNumbered.remove id, h.ascending.filter _⟩
  | clear => exact ⟨⟨List.nodup_nil, fun _ he ↦ absurd he List.not_mem_nil⟩, .nil⟩

theorem after (h : ws.Ordered) (changes : List Change) : (ws.after changes).Ordered := by
  induction changes generalizing ws with
  | nil => exact h
  | cons c changes ih => exact ih (h.change c)

end Ordered

end Watchers

/-! ## A pass on record -/

namespace Notification

/-- A watcher that was called, and the world as it was then. -/
structure Call where
  entry : Nat × Callback
  world : World

/-- Tells the listed callbacks as `notifyEach` does, and gives the calls that were made. -/
def each [Dispatch] (channel : Channel) (event : Event) : List (Nat × Callback) → Act (List Call)
  | [] => pure []
  | (id, callback) :: rest => do
    let w ← get
    if (w.watchers channel).contains id then
      (Dispatch.call callback event).contained
      let calls ← each channel event rest
      return ⟨(id, callback), w⟩ :: calls
    else each channel event rest

/-- Tells the callbacks of a channel as `notify` does, and gives the calls that were made. -/
def run [Dispatch] (channel : Channel) (event : Event) : Act (List Call) := do
  each channel event ((← get).watchers channel).entries

/-- The calls were made one after the other, from the first world to the last. -/
inductive Called [Dispatch] (event : Event) : World → List Call → World → Prop
  | none (w : World) : Called event w [] w
  | next {entry : Nat × Callback} {w w' w'' : World} {calls : List Call}
    (hcall : (Dispatch.call entry.2 event).contained w = .ok () w') (hrest : Called event w' calls w'') :
    Called event w (⟨entry, w⟩ :: calls) w''

end Notification

namespace Dispatch

/-- What the calls that come back do to the watchers of a channel comes to these changes. -/
def Rearranges (D : Dispatch) (channel : Channel) (changes : Callback → Event → World → List Watchers.Change) : Prop :=
  ∀ callback event w w', (D.call callback event).contained w = .ok () w' →
    w'.watchers channel = (w.watchers channel).after (changes callback event w)

/-- The same calls, some of which crash when all is done. -/
@[reducible]
def crashing (D : Dispatch) (crashes : Callback → Event → World → Bool) : Dispatch where
  rounds := D.rounds
  call callback event w :=
    match D.call callback event w with
    | .ok () w' => if crashes callback event w then .error .crash w' else .ok () w'
    | .error halt w' => .error halt w'
  compute := D.compute

end Dispatch

namespace Notification

variable {D : Dispatch} {channel : Channel} {event : Event} {w w' : World} {calls : List Call}
  {entry : Nat × Callback} {es : List (Nat × Callback)} {changes : Callback → Event → World → List Watchers.Change}

/-- The record changes nothing. -/
theorem notifyEach_eq (es : List (Nat × Callback)) :
    @notifyEach D channel event es = (do let _ ← @each D channel event es) := by
  induction es with
  | nil => rfl
  | cons entry es ih =>
    simp only [notifyEach, each, ih, bind_assoc]
    refine bind_congr fun w ↦ ?_
    split <;> simp only [bind_assoc, pure_bind]

theorem notify_eq : @notify D channel event = (do let _ ← @run D channel event) := by
  simp only [notify, run, bind_assoc, notifyEach_eq]

/-- A callback that is gone by then is passed over, and one that is still there is called. -/
theorem each_cons_eq_ok (hrun : @each D channel event (entry :: es) w = .ok calls w') :
    ((w.watchers channel).contains entry.1 = false ∧ @each D channel event es w = .ok calls w') ∨
    ∃ w₁ later, (w.watchers channel).contains entry.1 = true ∧ (D.call entry.2 event).contained w = .ok () w₁ ∧
      @each D channel event es w₁ = .ok later w' ∧ calls = ⟨entry, w⟩ :: later := by
  simp only [each, Act.bind_run, Act.get_run] at hrun
  split at hrun
  · rename_i hthere
    obtain ⟨⟨⟩, w₁, hcall, hrun⟩ := Act.of_bind_eq_ok hrun
    obtain ⟨later, w₂, hlater, hrun⟩ := Act.of_bind_eq_ok hrun
    cases hrun
    exact .inr ⟨w₁, later, hthere, hcall, hlater, rfl⟩
  · rename_i hgone
    exact .inl ⟨Bool.eq_false_iff.mpr hgone, hrun⟩

/-- A pass ends early where a call does. -/
theorem each_cons_eq_error {halt : Halt} (hrun : @each D channel event (entry :: es) w = .error halt w') :
    @each D channel event es w = .error halt w' ∨ (D.call entry.2 event).contained w = .error halt w' ∨
    ∃ w₁, (D.call entry.2 event).contained w = .ok () w₁ ∧ @each D channel event es w₁ = .error halt w' := by
  simp only [each, Act.bind_run, Act.get_run] at hrun
  split at hrun
  · obtain hcall | ⟨⟨⟩, w₁, hcall, hrun⟩ := Act.of_bind_eq_error hrun
    · exact .inr (.inl hcall)
    · obtain hlater | ⟨later, w₂, -, hrun⟩ := Act.of_bind_eq_error hrun
      · exact .inr (.inr ⟨w₁, hcall, hlater⟩)
      · cases hrun
  · exact .inl hrun

/-! ## What is called -/

theorem called_each (hrun : @each D channel event es w = .ok calls w') : @Called D event w calls w' := by
  induction es generalizing w calls with
  | nil =>
    cases hrun
    exact .none _
  | cons entry es ih =>
    obtain ⟨-, hrest⟩ | ⟨w₁, later, -, hcall, hrest, rfl⟩ := each_cons_eq_ok hrun
    · exact ih hrest
    · exact .next hcall (ih hrest)

/-- What a call did to the watchers of the channel. -/
def Call.did (changes : Callback → Event → World → List Watchers.Change) (event : Event) (call : Call) :
    List Watchers.Change :=
  changes call.entry.2 event call.world

/-- No call before its turn took away what has the number. -/
def Spared (changes : Callback → Event → World → List Watchers.Change) (event : Event) (calls : List Call)
    (id : Nat) : Prop :=
  ∀ call ∈ calls, call.entry.1 < id → ∀ c ∈ call.did changes event, ¬c.Takes id

instance : DecidablePred (Spared changes event calls) := fun id ↦
  inferInstanceAs (Decidable (∀ call ∈ calls, call.entry.1 < id → ∀ c ∈ call.did changes event, ¬c.Takes id))

/-- The watchers of the channel after some calls. -/
theorem watchers_of_called (hD : D.Rearranges channel changes) (h : @Called D event w calls w') :
    w'.watchers channel = (w.watchers channel).after (calls.flatMap (Call.did changes event)) := by
  induction h with
  | none => rfl
  | next hcall hrest ih => rw [List.flatMap_cons, Watchers.after_append, ih, hD _ _ _ _ hcall, Call.did]

/-- Each in its turn, and none twice. -/
theorem sublist_each (hrun : @each D channel event es w = .ok calls w') : (calls.map Call.entry).Sublist es := by
  induction es generalizing w calls with
  | nil =>
    cases hrun
    exact .slnil
  | cons entry es ih =>
    obtain ⟨-, hrest⟩ | ⟨w₁, later, -, -, hrest, rfl⟩ := each_cons_eq_ok hrun
    · exact (ih hrest).cons entry
    · exact (ih hrest).cons_cons entry

theorem map_entry_each (hD : D.Rearranges channel changes) (hes : es.Pairwise (·.1 < ·.1))
    (hissued : ∀ e ∈ es, e.1 ≤ (w.watchers channel).issued) (hrun : @each D channel event es w = .ok calls w') :
    calls.map Call.entry =
      es.filter fun e ↦ (w.watchers channel).contains e.1 ∧ Spared changes event calls e.1 := by
  induction es generalizing w calls with
  | nil =>
    cases hrun
    rfl
  | cons entry es ih =>
    obtain ⟨hfirst, hes⟩ := List.pairwise_cons.mp hes
    obtain ⟨-, hissued⟩ := List.forall_mem_cons.mp hissued
    obtain ⟨hgone, hrest⟩ | ⟨w₁, later, hthere, hcall, hrest, rfl⟩ := each_cons_eq_ok hrun
    · rw [ih hes hissued hrest, List.filter_cons_of_neg (by simp [hgone])]
    · have hw₁ := hD _ _ _ _ hcall
      have hissued₁ : ∀ e ∈ es, e.1 ≤ (w₁.watchers channel).issued := fun e he ↦
        hw₁ ▸ Nat.le_trans (hissued e he) (Watchers.issued_le_after _)
      have hlater : ∀ call ∈ later, entry.1 < call.entry.1 := fun call hcall ↦
        hfirst _ ((sublist_each hrest).subset (List.mem_map_of_mem hcall))
      -- the first call is made before the turn of all others: what it takes away counts against each of them
      have hspared : Spared changes event (⟨entry, w⟩ :: later) entry.1 := List.forall_mem_cons.mpr
        ⟨fun hlt ↦ absurd hlt (Nat.lt_irrefl _), fun call hcall hlt ↦ absurd hlt (Nat.lt_asymm (hlater call hcall))⟩
      have hsame : ∀ e ∈ es, ((w₁.watchers channel).contains e.1 ∧ Spared changes event later e.1) ↔
          (w.watchers channel).contains e.1 ∧ Spared changes event (⟨entry, w⟩ :: later) e.1 := by
        intro e he
        rw [hw₁, Watchers.contains_after (hissued e he), and_assoc, Spared, Spared, List.forall_mem_cons,
          forall_prop_of_true (hfirst e he), Call.did]
      rw [List.map_cons, ih hes hissued₁ hrest, List.filter_cons_of_pos (by simp [hthere, hspared]),
        List.filter_congr fun e he ↦ decide_eq_decide.mpr (hsame e he)]

/-! ## Calls that crash, and calls that do not come back -/

theorem contained_crashing (crashes : Callback → Event → World → Bool) (callback : Callback) (event : Event) :
    ((D.crashing crashes).call callback event).contained = (D.call callback event).contained := by
  funext w
  have hcall : (D.crashing crashes).call callback event w =
      match D.call callback event w with
      | .ok () w' => if crashes callback event w then .error .crash w' else .ok () w'
      | .error halt w' => .error halt w' := rfl
  rw [Act.contained_run, Act.contained_run, hcall]
  cases D.call callback event w with
  | error halt w₁ => rfl
  | ok _ w₁ => cases crashes callback event w <;> rfl

theorem each_crashing (crashes : Callback → Event → World → Bool) (es : List (Nat × Callback)) :
    @each (D.crashing crashes) channel event es = @each D channel event es := by
  induction es with
  | nil => rfl
  | cons entry es ih => simp only [each, ih, contained_crashing]

/-- The pass waits for one of those it calls. -/
def Waiting (D : Dispatch) (event : Event) (es : List (Nat × Callback)) (w w' : World) : Prop :=
  ∃ calls, ∃ e ∈ es, ∃ w₁, @Called D event w calls w₁ ∧ D.call e.2 event w₁ = .error .rounds w'

theorem waiting_of_each {halt : Halt} (hrun : @each D channel event es w = .error halt w') :
    halt = .rounds ∧ Waiting D event es w w' := by
  induction es generalizing w with
  | nil => cases hrun
  | cons entry es ih =>
    obtain hrest | hcall | ⟨w₁, hcall, hrest⟩ := each_cons_eq_error hrun
    · obtain ⟨hhalt, calls, e, he, w₁, hcalls, hends⟩ := ih hrest
      exact ⟨hhalt, calls, e, List.mem_cons_of_mem _ he, w₁, hcalls, hends⟩
    · obtain ⟨hhalt, hends⟩ := Act.of_contained_eq_error hcall
      exact ⟨hhalt, [], entry, List.mem_cons_self, w, .none w, hends⟩
    · obtain ⟨hhalt, calls, e, he, w₂, hcalls, hends⟩ := ih hrest
      exact ⟨hhalt, _, e, List.mem_cons_of_mem _ he, w₂, .next hcall hcalls, hends⟩

/-- A pass was made exactly as it has to be. -/
structure Exact (D : Dispatch) (channel : Channel) (changes : Callback → Event → World → List Watchers.Change)
    (event : Event) (w : World) (calls : List Call) (w' : World) : Prop where
  run_eq : @run D channel event w = .ok calls w'
  /-- The calls were made one after the other, and nothing else was done. -/
  called : @Called D event w calls w'
  /-- They were made in the order in which the callbacks were registered, and none was made twice. -/
  ascending : (calls.map Call.entry).Pairwise (·.1 < ·.1)
  /-- Called was what was in the list at first, without what was taken away before its turn. -/
  entries_eq : calls.map Call.entry = (w.watchers channel).entries.filter fun e ↦ Spared changes event calls e.1
  /-- Whoever was added meanwhile was given a later number, and was not called. -/
  le_issued : ∀ call ∈ calls, call.entry.1 ≤ (w.watchers channel).issued
  /-- The list is left as the calls have changed it. -/
  watchers_eq : w'.watchers channel = (w.watchers channel).after (calls.flatMap (Call.did changes event))
  /-- Had more of those that were called crashed, the same calls would have been made. -/
  crashing_eq (crashes : Callback → Event → World → Bool) :
    @run (D.crashing crashes) channel event w = .ok calls w'

theorem exact_of_ordered (hD : D.Rearranges channel changes) (hw : (w.watchers channel).Ordered)
    (hrun : @run D channel event w = .ok calls w') : Exact D channel changes event w calls w' where
  run_eq := hrun
  called := called_each hrun
  ascending := hw.ascending.sublist (sublist_each hrun)
  entries_eq := by
    rw [map_entry_each hD hw.ascending hw.le_issued hrun]
    refine List.filter_congr fun e he ↦ decide_eq_decide.mpr ⟨And.right, fun hspared ↦ ⟨?_, hspared⟩⟩
    exact Watchers.contains_iff.mpr ⟨e, he, rfl⟩
  le_issued call hcall := hw.le_issued _ ((sublist_each hrun).subset (List.mem_map_of_mem hcall))
  watchers_eq := watchers_of_called hD (called_each hrun)
  crashing_eq crashes := (congrFun (each_crashing crashes _) w).trans hrun

end Notification

/-! ## Any code that changes lists of watchers -/

namespace World

variable {w w' w'' : World} {channel : Channel}

/-- The watchers of a channel are what they were, but for some changes. -/
def Rearranged (channel : Channel) (w w' : World) : Prop :=
  ∃ changes, w'.watchers channel = (w.watchers channel).after changes

theorem Rearranged.refl : Rearranged channel w w :=
  ⟨[], rfl⟩

theorem Rearranged.trans (h : Rearranged channel w w') (h' : Rearranged channel w' w'') :
    Rearranged channel w w'' := by
  obtain ⟨changes, hw'⟩ := h
  obtain ⟨changes', hw''⟩ := h'
  exact ⟨changes ++ changes', by rw [hw'', hw', Watchers.after_append]⟩

theorem watchers_modifyWatchers (w : World) (channel channel' : Channel) (f : Watchers → Watchers) :
    (w.modifyWatchers channel f).watchers channel' = w.watchers channel' ∨
    (w.modifyWatchers channel f).watchers channel' = f (w.watchers channel') := by
  cases channel with
  | signal id =>
    cases channel' with
    | signal id' =>
      simp only [watchers, modifyWatchers, signal_modifySignal]
      split <;> simp
    | _ => exact .inl rfl
  | derived id =>
    cases channel' with
    | derived id' =>
      simp only [watchers, modifyWatchers, derived_modifyDerived]
      split <;> simp
    | _ => exact .inl rfl
  | store id event =>
    cases channel' with
    | store id' event' =>
      simp only [watchers, modifyWatchers, store_modifyStore]
      split
      · rw [Listeners.get_modify]
        split <;> simp
      · exact .inl rfl
    | _ => exact .inl rfl
  | view id =>
    cases channel' with
    | view id' =>
      simp only [watchers, modifyWatchers, view_modifyView]
      split <;> simp
    | _ => exact .inl rfl

theorem rearranged_modifyWatchers (w : World) (channel channel' : Channel) (c : Watchers.Change) :
    Rearranged channel' w (w.modifyWatchers channel (·.change c)) := by
  obtain hsame | hchanged := w.watchers_modifyWatchers channel channel' (·.change c)
  · exact ⟨[], hsame⟩
  · exact ⟨[c], hchanged⟩

end World

/-- Any code that looks at the world, changes lists of watchers, starts passes over them, crashes, and does what has
nothing to do with watchers, as a tree of what it does. -/
inductive Handler
  | done
  | crash
  | look (next : World → Handler)
  | change (channel : Channel) (c : Watchers.Change) (next : Handler)
  | notify (channel : Channel) (event : Event) (next : Handler)
  | aside (f : World → World) (hf : ∀ w channel, (f w).watchers channel = w.watchers channel) (next : Handler)

namespace Handler

/-- Carries out some code. -/
def run [Dispatch] : Handler → Act Unit
  | done => pure ()
  | crash => throw .crash
  | look next => do run (next (← get))
  | change channel c next => do
    modify (·.modifyWatchers channel (·.change c))
    run next
  | notify channel event next => do
    LiveGraph.notify channel event
    run next
  | aside f _ next => do
    modify f
    run next

/-- Calls to a given depth, where whoever is called carries out some code. -/
@[reducible]
def dispatch (react : Callback → Event → Handler) : Nat → Dispatch
  | 0 => ⟨0, fun _ _ ↦ throw .rounds, fun _ ↦ throw .rounds⟩
  | n + 1 =>
    { rounds := n
      call := fun callback event ↦
        letI := dispatch react n
        (react callback event).run
      compute := fun _ ↦ throw .rounds }

variable {D : Dispatch} {w₀ : World} {channel : Channel}

open Act World

theorem agree_run (hD : ∀ callback event, Agree (Rearranged channel w₀) (D.call callback event)
      (D.call callback event) (fun _ ↦ Rearranged channel w₀) (Rearranged channel w₀)) (handler : Handler) :
    Agree (Rearranged channel w₀) (@run D handler) (@run D handler) (fun _ ↦ Rearranged channel w₀)
      (Rearranged channel w₀) := by
  induction handler with
  | done => exact agree_pure fun _ h ↦ h
  | crash => exact agree_throw fun _ h ↦ h
  | look next ih => exact agree_get fun w hw ↦ (ih w).pre fun _ hw' ↦ hw' ▸ hw
  | change channel' c next ih =>
    exact agree_bind (agree_modify fun w hw ↦ hw.trans (w.rearranged_modifyWatchers channel' channel c)) fun _ ↦ ih
  | notify channel' event next ih => exact agree_bind (agree_notify fun callback ↦ hD callback event) fun _ ↦ ih
  | aside f hf next ih =>
    exact agree_bind (agree_modify fun w hw ↦ hw.trans ⟨[], hf w channel⟩) fun _ ↦ ih

theorem agree_call (react : Callback → Event → Handler) (n : Nat) (callback : Callback) (event : Event) :
    Agree (Rearranged channel w₀) ((dispatch react n).call callback event) ((dispatch react n).call callback event)
      (fun _ ↦ Rearranged channel w₀) (Rearranged channel w₀) := by
  induction n generalizing callback event with
  | zero => exact fun _ _ ↦ ⟨rfl, trivial⟩
  | succ n ih => exact agree_run ih (react callback event)

/-- Whatever code is carried out, what it does to the watchers of a channel comes to some changes. -/
theorem exists_rearranges (react : Callback → Event → Handler) (n : Nat) (channel : Channel) :
    ∃ changes, (dispatch react n).Rearranges channel changes := by
  have hcall : ∀ callback event w, ∃ changes, ∀ w', ((dispatch react n).call callback event).contained w = .ok () w' →
      w'.watchers channel = (w.watchers channel).after changes := by
    intro callback event w
    have hkept : Agree (Rearranged channel w) ((dispatch react n).call callback event).contained _
        (fun _ ↦ Rearranged channel w) (Rearranged channel w) :=
      agree_contained (agree_call react n callback event) fun _ h ↦ h
    have hout := (hkept w .refl).2
    cases hrun : ((dispatch react n).call callback event).contained w with
    | ok _ w₁ =>
      rw [hrun] at hout
      obtain ⟨changes, hw₁⟩ := hout
      refine ⟨changes, fun w' hw' ↦ ?_⟩
      cases hw'
      exact hw₁
    | error halt w₁ => exact ⟨[], fun w' hw' ↦ by cases hw'⟩
  choose changes hchanges using hcall
  exact ⟨changes, hchanges⟩

end Handler

/-- Passes over watchers are exact, whatever those that are called do to the list meanwhile. A pass that comes to its
end has made the calls that it has to make and no others, and one that does not waits for a callback. What is asked of
the callbacks here holds of any code that changes lists of watchers, starts passes over them, and crashes. -/
theorem notify_exact :
    (∀ (D : Dispatch) channel changes, D.Rearranges channel changes →
      ∀ event w history, w.watchers channel = Watchers.empty.after history →
        (∀ w', @notify D channel event w = .ok () w' →
          ∃ calls, Notification.Exact D channel changes event w calls w') ∧
        ∀ halt w', @notify D channel event w = .error halt w' →
          halt = .rounds ∧ Notification.Waiting D event (w.watchers channel).entries w w') ∧
    ∀ (react : Callback → Event → Handler) n channel,
      ∃ changes, (Handler.dispatch react n).Rearranges channel changes := by
  refine ⟨fun D channel changes hD event w history hw ↦ ?_, Handler.exists_rearranges⟩
  have hordered : (w.watchers channel).Ordered := hw ▸ Watchers.Ordered.empty.after history
  constructor
  · intro w' hnotify
    rw [Notification.notify_eq] at hnotify
    obtain ⟨calls, w₁, hrun, hend⟩ := Act.of_bind_eq_ok hnotify
    cases hend
    exact ⟨calls, Notification.exact_of_ordered hD hordered hrun⟩
  · intro halt w' hnotify
    rw [Notification.notify_eq] at hnotify
    obtain hrun | ⟨calls, w₁, -, hend⟩ := Act.of_bind_eq_error hnotify
    · exact Notification.waiting_of_each hrun
    · cases hend

namespace Handler

/-- The first of three watchers, told that something is so, takes the third away, adds a fourth, tells everybody that it
is not so, and crashes. -/
def unruly : Callback → Event → Handler
  | .script "first" _ _, .value (.value (.bool true)) =>
    .change (.signal 0) (.remove 3) <| .change (.signal 0) (.add (.script "fourth" .every [])) <|
      .notify (.signal 0) (.value (.value (.bool false))) .crash
  | _, _ => .done

/-- Three watchers were added to a signal. -/
def threefold : List Watchers.Change :=
  ["first", "second", "third"].map fun name ↦ .add (.script name .every [])

def attended : World :=
  (World.empty.addSignal .nil .same .handles).2.modifyWatchers (.signal 0) fun ws ↦ ws.after threefold

end Handler

theorem notify_exact_unruly : ∃ changes,
    (Handler.dispatch Handler.unruly 3).Rearranges (.signal 0) changes ∧
    Handler.attended.watchers (.signal 0) = Watchers.empty.after Handler.threefold ∧
    ∃ calls w', Notification.Exact (Handler.dispatch Handler.unruly 3) (.signal 0) changes
      (.value (.value (.bool true))) Handler.attended calls w' ∧ calls.map (·.entry.1) = [1, 2] := by
  obtain ⟨changes, hchanges⟩ := notify_exact.2 Handler.unruly 3 (.signal 0)
  have hlist : Handler.attended.watchers (.signal 0) = Watchers.empty.after Handler.threefold := rfl
  have hends : ∃ w', @notify (Handler.dispatch Handler.unruly 3) (.signal 0) (.value (.value (.bool true)))
      Handler.attended = .ok () w' := ⟨_, rfl⟩
  obtain ⟨w', hnotify⟩ := hends
  obtain ⟨calls, hexact⟩ := (notify_exact.1 _ _ _ hchanges _ _ _ hlist).1 w' hnotify
  have hcalled : (match @Notification.run (Handler.dispatch Handler.unruly 3) (.signal 0)
      (.value (.value (.bool true))) Handler.attended with
    | .ok calls _ => calls.map (·.entry.1)
    | .error _ _ => []) = [1, 2] := by decide +kernel
  rw [hexact.run_eq] at hcalled
  exact ⟨changes, hchanges, hlist, calls, w', hexact, hcalled⟩

end LiveGraph
