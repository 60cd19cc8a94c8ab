import LiveGraph.Proofs.View.Batches

/-!
# Replaying windows

A listener that is told who enters a window and who leaves it knows at any time which entities the window
shows: those that it showed at some time, with what was told since then replayed. Nobody leaves who is not
there, and nobody enters who is there already. Whenever the window is taken anew, all who leave do so before
anybody enters: they in the order they stood in, the others in the order they stand in.
-/

namespace LiveGraph

open Act

namespace Told

/-- Which entities a window shows after something was told of it, by which it showed before. -/
def replay (shown : Set EntityRef) : Told → Set EntityRef
  | (.leave, some e) => shown \ {e}
  | (.enter, some e) => insert e shown
  | _ => shown

/-- What may be told of a window by which entities it shows: who is there may leave, and who is not may enter. -/
def Fits (shown : Set EntityRef) : Told → Prop
  | (.leave, some e) => e ∈ shown
  | (.enter, some e) => e ∉ shown
  | (.change, none) => True
  | _ => False

/-- What may be told of a window one after the other. -/
def FitInTurn : Set EntityRef → List Told → Prop
  | _, [] => True
  | shown, told :: rest => told.Fits shown ∧ FitInTurn (told.replay shown) rest

variable {shown : Set EntityRef}

theorem fitInTurn_append (events events' : List Told) : FitInTurn shown (events ++ events') ↔
    FitInTurn shown events ∧ FitInTurn (events.foldl replay shown) events' := by
  induction events generalizing shown with
  | nil => rw [List.nil_append, FitInTurn, List.foldl_nil, true_and]
  | cons told rest ih => rw [List.cons_append, FitInTurn, ih, FitInTurn, List.foldl_cons, and_assoc]

/-- Entities that are there, each once, may leave one after the other. -/
theorem replay_leave {es : List EntityRef} (hnodup : es.Nodup) (hes : ∀ e ∈ es, e ∈ shown) :
    FitInTurn shown (es.map fun e ↦ (.leave, some e)) ∧
      (es.map fun e ↦ (.leave, some e)).foldl replay shown = shown \ {e | e ∈ es} := by
  induction es generalizing shown with
  | nil => exact ⟨trivial, by ext e; simp⟩
  | cons e rest ih =>
    obtain ⟨hnot, hrest⟩ := List.nodup_cons.mp hnodup
    have hthere : ∀ e' ∈ rest, e' ∈ shown \ {e} := fun e' he' ↦
      ⟨hes e' (List.mem_cons_of_mem e he'), fun heq ↦ hnot (heq ▸ he')⟩
    obtain ⟨hfit, hreplay⟩ := ih hrest hthere
    refine ⟨⟨hes e List.mem_cons_self, hfit⟩, hreplay.trans ?_⟩
    ext e'
    simp only [Set.mem_sdiff, Set.mem_singleton_iff, Set.mem_ofPred_eq, List.mem_cons, not_or, and_assoc]

/-- Entities that are not there, each once, may enter one after the other. -/
theorem replay_enter {es : List EntityRef} (hnodup : es.Nodup) (hes : ∀ e ∈ es, e ∉ shown) :
    FitInTurn shown (es.map fun e ↦ (.enter, some e)) ∧
      (es.map fun e ↦ (.enter, some e)).foldl replay shown = shown ∪ {e | e ∈ es} := by
  induction es generalizing shown with
  | nil => exact ⟨trivial, by simp⟩
  | cons e rest ih =>
    obtain ⟨hnot, hrest⟩ := List.nodup_cons.mp hnodup
    have hnotThere : ∀ e' ∈ rest, e' ∉ insert e shown := by
      intro e' he' hmem
      rcases Set.mem_insert_iff.mp hmem with heq | hmem
      · exact hnot (heq ▸ he')
      · exact hes e' (List.mem_cons_of_mem e he') hmem
    obtain ⟨hfit, hreplay⟩ := ih hrest hnotThere
    refine ⟨⟨hes e List.mem_cons_self, hfit⟩, hreplay.trans ?_⟩
    ext e'
    simp only [Set.mem_union, Set.mem_insert_iff, Set.mem_ofPred_eq, List.mem_cons]
    tauto

end Told

/-- A move of a window, replayed, leads from the entities that were shown to those that are. -/
theorem WindowEvent.replay_ofMove {before after : List EntityRef} (hbefore : before.Nodup) (hafter : after.Nodup) :
    Told.FitInTurn {e | e ∈ before} (ofMove before after) ∧
      (ofMove before after).foldl Told.replay {e | e ∈ before} = {e | e ∈ after} := by
  let left := before.filter fun e ↦ !after.contains e
  let entered := after.filter fun e ↦ !before.contains e
  have hleft : ∀ e, e ∈ left ↔ e ∈ before ∧ e ∉ after := fun e ↦ by simp [left]
  have hentered : ∀ e, e ∈ entered ↔ e ∈ after ∧ e ∉ before := fun e ↦ by simp [entered]
  have hthere : ∀ e ∈ left, e ∈ {e | e ∈ before} := fun e he ↦ ((hleft e).mp he).1
  have hnotThere : ∀ e ∈ entered, e ∉ {e | e ∈ before} \ {e | e ∈ left} := fun e he hmem ↦
    ((hentered e).mp he).2 hmem.1
  have hleftNodup : left.Nodup := hbefore.filter _
  have henteredNodup : entered.Nodup := hafter.filter _
  obtain ⟨hfit, hreplay⟩ := Told.replay_leave hleftNodup hthere
  obtain ⟨hfit', hreplay'⟩ := Told.replay_enter henteredNodup hnotThere
  refine ⟨(Told.fitInTurn_append _ _).mpr ⟨hfit, hreplay ▸ hfit'⟩, ?_⟩
  have hmove : ofMove before after = left.map (fun e ↦ (.leave, some e)) ++ entered.map fun e ↦ (.enter, some e) :=
    rfl
  rw [hmove, List.foldl_append, hreplay, hreplay']
  ext e
  simp only [Set.mem_union, Set.mem_sdiff, Set.mem_ofPred_eq, hleft, hentered]
  tauto

/-- What was told of a window on its way from one state to another, settling by settling: each time who left
and then who entered. After each settling, what was told since the start tells which entities are shown. -/
inductive Settlings (start : List EntityRef) : List Told → List EntityRef → Prop
  | still : Settlings start [] start
  | settle {events : List Told} {window next : List EntityRef} (h : Settlings start events window)
      (hreplay : (events ++ WindowEvent.ofMove window next).foldl Told.replay {e | e ∈ start} = {e | e ∈ next}) :
      Settlings start (events ++ WindowEvent.ofMove window next) next
  | change {events : List Told} {window : List EntityRef} (h : Settlings start events window) :
      Settlings start (events ++ [(.change, none)]) window

/-- What was told of a window can be replayed: it tells which entities the window shows, now and after each
settling, and it was told of nobody who could not leave or enter at that time. -/
structure Replays (start : List EntityRef) (events : List Told) (window : List EntityRef) : Prop where
  settlings : Settlings start events window
  fits : Told.FitInTurn {e | e ∈ start} events
  replay_eq : events.foldl Told.replay {e | e ∈ start} = {e | e ∈ window}

/-- The course of a window that shows no entity twice can be replayed. -/
theorem Course.replays {start window : List EntityRef} {events : List Told} {moved : Bool}
    (h : Course start events window moved) (hstart : start.Nodup) : window.Nodup ∧ Replays start events window := by
  induction h with
  | still => exact ⟨hstart, .still, trivial, rfl⟩
  | @move events window next moved h hne hnext ih =>
    obtain ⟨hwindow, hsettlings, hfits, hreplay⟩ := ih
    obtain ⟨hfits', hreplay'⟩ := WindowEvent.replay_ofMove hwindow hnext
    have hboth : (events ++ WindowEvent.ofMove window next).foldl Told.replay {e | e ∈ start} = {e | e ∈ next} := by
      rw [List.foldl_append, hreplay, hreplay']
    refine ⟨hnext, hsettlings.settle hboth, ?_, hboth⟩
    rw [Told.fitInTurn_append, hreplay]
    exact ⟨hfits, hfits'⟩
  | change h ih =>
    obtain ⟨hwindow, hsettlings, hfits, hreplay⟩ := ih
    refine ⟨hwindow, hsettlings.change, ?_, ?_⟩
    · rw [Told.fitInTurn_append]
      exact ⟨hfits, trivial, trivial⟩
    · rw [List.foldl_append]
      exact hreplay

/-- What can be replayed from the start can be replayed from any time in between. -/
theorem Replays.since {start window window' : List EntityRef} {events later : List Told}
    (h : Replays start events window) (h' : Replays start (events ++ later) window') :
    Told.FitInTurn {e | e ∈ window} later ∧ later.foldl Told.replay {e | e ∈ window} = {e | e ∈ window'} := by
  rw [← h.replay_eq, ← h'.replay_eq, List.foldl_append]
  exact ⟨((Told.fitInTurn_append _ _).mp h'.fits).2, rfl⟩

/-- What a name that listens to a view has been told since some time can be replayed from the window at
that time. -/
def World.Replayed (w : World) (name : String) (id : ViewId) (w' : World) : Prop :=
  w.Hears name id → ∃ events, w'.told name = w.told name ++ events ∧
    Replays (w.view id).window events (w'.view id).window

/-- What is claimed of the number of changes may be forgotten. -/
theorem Followed.forget {stage : Stage} {n : Nat} {x : Option Listener} {P : Tally} {w : World}
    (h : Followed stage n x P w) : Followed stage n x .any w :=
  ⟨h.1, h.2.congr h.2.poised rfl rfl fun _ _ _ ↦ trivial⟩

namespace Handling

/-- Runs code on what was laid out, with listeners that write down what they are told, to a given depth. -/
def run (depth : Nat) (c : Client Handling) : Act Unit :=
  @Client.run _ (Reporting.dispatch depth) (@perform (Reporting.dispatch depth)) c

/-- Runs code under observation: wherever it looks, what a name was told since the start can be replayed. -/
noncomputable def watched (depth : Nat) (name : String) (id : ViewId) (c : Client Handling) : Act Unit := do
  let w ← get
  run depth (c.checked (w.Replayed name id))

variable {n : Nat} {x : Option Listener}

/-- Whatever code does with the store and with windows keeps the course of a window that is listened to. -/
theorem agree_run_checked (depth : Nat) {P : World → Prop}
    (hP : ∀ d w, At (Followed (.whole ∅) n x .any) d false w → P w) (c : Client Handling) :
    Agree (At (Followed (.whole ∅) n x .any) 0 false) (run depth c) (run depth (c.checked P))
      (fun _ ↦ At (Followed (.whole ∅) n x .any) 0 false) (Held (Followed (.whole ∅) n x .any) 0 false) := by
  have htame := tame_report depth
  have hD := attentive_report depth
  have hflush {d : Nat} {f : Bool} : Flushes (fun stage _ ↦ Followed stage n x .any) (Reporting.dispatch depth)
      (Reporting.dispatch depth) (fun _ ↦ False) d f := fun _ _ ↦
    agree_flush_followed htame hD Tally.drains_any
  refine Client.agree_run_checked Followed.robust.depthFree (fun op d f ↦ ?_) (hflush rfl rfl) hP c 0
  match op with
  | .edit e => exact agree_edit_followed hD Tally.open_any htame hflush e
  | .move m => exact m.agree_perform fun id _ ↦ agree_moving_followed hD Tally.open_any htame hflush id

/-- Of two threads the first is shown: it is removed, and the other one moves up. When the URI is given again
and the window is moved, another entity enters under it. -/
example :
    let layout : Client Viewing :=
      .act (.edit (.add ⟨"a", "thread", []⟩)) <| .act (.edit (.add ⟨"b", "thread", []⟩)) <|
      .act (.openView "v" (.filter "thread" [] none) ⟨0, 1⟩) <|
      .act (.watch 0 .enter "n") <| .act (.watch 0 .leave "n") <| .act (.watch 0 .change "n") .done
    let edits : Client Handling :=
      .act (.edit (.remove "a")) <| .act (.edit (.add ⟨"a", "thread", []⟩)) <| .act (.move (.scroll 0 1)) .done
    let told : Act (List Told) := do
      Viewing.report 8 layout
      @Client.run _ (Reporting.dispatch 8) (@perform (Reporting.dispatch 8)) edits
      return (← get).told "n"
    (match told (Session.start default false) with
      | .ok events _ => events
      | .error _ _ => []) =
      [(.leave, some ⟨0, 1⟩), (.enter, some ⟨0, 2⟩), (.change, none),
        (.leave, some ⟨0, 2⟩), (.enter, some ⟨0, 3⟩), (.change, none)] := by
  decide +kernel

end Handling

end LiveGraph
