import LiveGraph.Proofs.View.Laid

/-!
# What a batch tells of windows

Code lays out a store and views over it, and has listeners write down what they are told of the windows. What
a batch then tells of a view is the course of its window: every move is told by who left and who entered, a
change is told only after a move, and the last thing told of a window that has moved is a change. There is no
change before the end of the batch and there are two at most: one for what was done in it, and one for the
properties that were written, which are told to the views later.
-/

namespace LiveGraph

open Act

variable {w w' : World}

/-- What code does with a store and with the windows over it. -/
inductive Handling
  | edit (e : Edit)
  | move (m : Move)

def Handling.perform [Dispatch] : Handling → Act Unit
  | edit e => e.perform 0
  | move m => m.perform

/-- Runs code that lays out views, with listeners that write down what they are told, to a given depth. -/
def Viewing.report (depth : Nat) (c : Client Viewing) : Act Unit :=
  @Client.run _ (Reporting.dispatch depth) (@perform (Reporting.dispatch depth)) c

namespace Handling

/-- Runs code as one batch, with listeners that write down what they are told, to a given depth. -/
def batch (depth : Nat) (c : Client Handling) : Act Unit :=
  let D := Reporting.dispatch depth
  @LiveGraph.batch D _ (@Client.run _ D (@perform D) c)

end Handling

/-- A session starts with nothing laid out. -/
theorem laid_start (schema : Schema) (keepsFirst : Bool) :
    At Laid 0 false (Session.start schema keepsFirst) := by
  have hstart := viewed_start schema keepsFirst
  obtain ⟨hstore, hviews⟩ := start_parts schema keepsFirst
  have hview : ∀ id, (Session.start schema keepsFirst).view id = default := fun id ↦
    World.view_of_size_le (by rw [hviews]; exact Nat.zero_le id)
  have hviewed := hstart.holds
  refine ⟨⟨⟨hviewed, hviewed.plain, hviewed.arranged.tied, hviewed.arranged.hooked, fun id hid ↦ ?_, ?_,
    fun id ↦ ?_, ?_, fun id ↦ ?_⟩, hstart.depth_eq, hstart.flushing_eq⟩, hstart.idle⟩
  · rw [hviews] at hid
    exact absurd hid (Nat.not_lt_zero id)
  · rw [hstore]
    rfl
  · rw [(hstart.idle hstart.depth_eq hstart.flushing_eq).2, hview]
    rfl
  · intro name x hx
    have hsource : (Store.empty.indices.insert Breakpoint.sourceIndex
        (.new Breakpoint.sourceKind Breakpoint.sourceExtractor))[name]? = some x := by rwa [hstore] at hx
    rw [Std.TreeMap.getElem?_insert] at hsource
    split at hsource
    · exact Option.some.inj hsource ▸ Index.traced_new _ _
    · exact nomatch Std.TreeMap.getElem?_emptyc.symm.trans hsource
  · rw [hview]
    exact View.distinct_default

/-- Before a batch, a view that is listened to owes nothing. -/
theorem Laid.listened (h : Laid w) (heffects : w.effects = []) {name : String} {id : ViewId}
    (hname : w.Hears name id) :
    Followed (.whole ∅) w.views.size (some ⟨id, name, (w.view id).window, w.told name⟩) .zero w := by
  refine ⟨h.1, h.2, rfl, fun y hy ↦ ?_⟩
  obtain rfl := Option.some.inj hy
  have hwaiting := h.2.waiting id
  have hchanging : (w.view id).changing = false := by
    rw [heffects] at hwaiting
    exact Bool.toNat_eq_zero.mp hwaiting.symm
  refine ⟨hname, [], (List.append_nil _).symm, ?_, rfl⟩
  rw [hchanging]
  exact .still

/-- Where no change was told yet, there is room for two at most. -/
theorem Followed.within_two {stage : Stage} {n : Nat} {x : Option Listener} (h : Followed stage n x .zero w) :
    Followed stage n x (.within 2 0) w := by
  refine ⟨h.1, h.2.congr h.2.poised rfl rfl fun id told hzero ↦ ?_⟩
  have hroom := Effect.room_le id w.effects
  have hwaiting : w.effects.count (.view id) ≤ 1 := by
    rw [h.2.poised.waiting id]
    exact Bool.toNat_le _
  rw [Tally.zero] at hzero
  rw [Tally.within]
  omega

section Layout

variable {D : Dispatch} (htame : Tame D) (hD : Attentive D)
include htame hD

theorem agree_flush_laid :
    Agree (Held Laid 0 false) (@flush D) (@flush D) (fun _ ↦ At Laid 0 false) fun _ ↦ False := by
  intro w hw
  obtain ⟨heq, hout⟩ := agree_flush_followed htame hD Tally.drains_any w
    ⟨hw.holds.followed, hw.depth_eq, hw.flushing_eq⟩
  exact ⟨heq, hout.mono (fun _ w hw ↦ hw.mono fun w hw ↦ ⟨hw.1, hw.2.poised⟩) fun _ h ↦ h⟩

/-- Code lays out views that owe nothing. -/
theorem agree_layout (layout : Client Viewing) :
    Agree (At Laid 0 false) (@Client.run _ D (@Viewing.perform D) layout)
      (@Client.run _ D (@Viewing.perform D) layout) (fun _ ↦ At Laid 0 false) (Held Laid 0 false) := by
  have hflush {n : Nat} {d : Nat} {f : Bool} :
      Flushes (fun stage _ ↦ Followed stage n none .any) D D (fun _ ↦ False) d f := fun _ _ ↦
    agree_flush_followed htame hD Tally.drains_any
  have hedit {d : Nat} {f : Bool} (e : Edit) : Agree (At Laid d f) (@Edit.perform D 0 e) (@Edit.perform D 0 e)
      (fun _ ↦ At Laid d f) fun _ ↦ False :=
    Laid.agree fun _ ↦ agree_edit_followed hD Tally.open_any htame hflush e
  have hmove {d : Nat} {f : Bool} (m : Move) : Agree (At Laid d f) (@Move.perform D m) (@Move.perform D m)
      (fun _ ↦ At Laid d f) fun _ ↦ False :=
    Laid.agree fun _ ↦ m.agree_perform fun id _ ↦ agree_moving_followed hD Tally.open_any htame hflush id
  exact (Client.agree_run_checked (P := fun _ ↦ True) Laid.depthFree
    (fun op d f ↦ Laid.laying.agree_viewing hedit hmove op) (agree_flush_laid htame hD)
    (fun _ _ _ ↦ trivial) layout 0).left

end Layout

namespace Handling

/-- Outside of the flush at its end a batch tells no change. -/
theorem agree_run {D : Dispatch} (htame : Tame D) (hD : Attentive D) {n : Nat} {x : Option Listener}
    (c : Client Handling) :
    Agree (Held (Followed (.whole ∅) n x .zero) 1 false) (@Client.run _ D (@perform D) c)
      (@Client.run _ D (@perform D) c) (fun _ ↦ Held (Followed (.whole ∅) n x .zero) 1 false)
      (Held (Followed (.whole ∅) n x .zero) 1 false) := by
  refine Client.agree_run_busy Followed.robust.depthFree (fun op d f hbusy ↦ ?_) c 1 false (.inl Nat.one_pos)
  have hflush : Flushes (fun stage _ ↦ Followed stage n x .zero) D D (fun _ ↦ False) d f := fun hd hf ↦ by
    subst hd hf
    simp at hbusy
  match op with
  | .edit e =>
    exact (agree_edit_followed hD Tally.open_zero htame hflush e).mono (fun _ hw ↦ Held.at_busy hw hbusy)
      (fun _ _ hw ↦ hw.toHeld) fun _ h ↦ h
  | .move m =>
    exact (m.agree_perform fun id _ ↦ agree_moving_followed hD Tally.open_zero htame hflush id).mono
      (fun _ hw ↦ Held.at_busy hw hbusy) (fun _ _ hw ↦ hw.toHeld) fun _ h ↦ h

/-- Whatever code does in a batch to a store and to windows over it, where callbacks write down what they are
told and do nothing else, what the batch tells of a view is the course of its window, with two changes at most
and nothing owed at the end. -/
theorem batch_course (depth : Nat) (layout : Client Viewing) (schema : Schema) (keepsFirst : Bool)
    (hlayout : Viewing.report depth layout (Session.start schema keepsFirst) = .ok () w)
    (c : Client Handling) (hbatch : batch depth c w = .ok () w') {name : String} {id : ViewId}
    (hname : w.Hears name id) :
    ∃ events, w'.told name = w.told name ++ events ∧
      Course (w.view id).window events (w'.view id).window false ∧ events.count (.change, none) ≤ 2 := by
  have htame := tame_report depth
  have hD := attentive_report depth
  have hlaid : At Laid 0 false w := by
    have hout := (agree_layout htame hD layout _ (laid_start schema keepsFirst)).2
    change Act.Outcome _ _ (Viewing.report depth layout (Session.start schema keepsFirst)) at hout
    rwa [hlayout] at hout
  have hlistened := hlaid.holds.listened (hlaid.idle hlaid.depth_eq hlaid.flushing_eq).2 hname
  have hbody := (agree_run htame hD (x := some ⟨id, name, (w.view id).window, w.told name⟩) (n := w.views.size)
    c).post fun _ w hw ↦ hw.mono fun w ↦ Followed.within_two
  have hrun := Act.agree_batch (C := fun _ ↦ True) Followed.robust.depthFree Followed.robust.depthFree hbody
    (fun _ _ ↦ (agree_flush_followed htame hD (Tally.drains_within 2)).mono (fun _ h ↦ h) (fun _ _ h ↦ h)
      fun _ _ ↦ trivial) fun _ _ ↦ trivial
  have hout := (hrun w ⟨hlistened, hlaid.depth_eq, hlaid.flushing_eq⟩).2
  change Act.Outcome _ _ (batch depth c w) at hout
  rw [hbatch] at hout
  obtain ⟨events, htold, hcourse, hbound⟩ := (hout.holds.2.follows _ rfl).course
  have hwaiting := hout.holds.2.poised.waiting id
  have hchanging : (w'.view id).changing = false := by
    rw [(hout.idle hout.depth_eq hout.flushing_eq).2] at hwaiting
    exact Bool.toNat_eq_zero.mp hwaiting.symm
  rw [hchanging] at hcourse
  exact ⟨events, htold, hcourse, Nat.le_trans (Nat.le_add_right _ _) hbound⟩

/-- There can be two changes: `b` enters when it is added, `a` only when its property is told to the view. -/
example :
    let layout : Client Viewing :=
      .act (.edit (.add ⟨"a", "thread", [("p", .int 0)]⟩)) <|
      .act (.openView "v" (.filter "thread" [⟨"p", .eq, .int 1⟩] none) ⟨0, 50⟩) <|
      .act (.watch 0 .enter "n") <| .act (.watch 0 .leave "n") <| .act (.watch 0 .change "n") .done
    let edits : Client Handling :=
      .act (.edit (.add ⟨"b", "thread", [("p", .int 1)]⟩)) <| .act (.edit (.update "a" [("p", .int 1)])) .done
    let told : Act (List Told) := do
      Viewing.report 8 layout
      batch 8 edits
      return (← get).told "n"
    (match told (Session.start default false) with
      | .ok events _ => events
      | .error _ _ => []) =
      [(.enter, some ⟨0, 2⟩), (.change, none), (.enter, some ⟨0, 1⟩), (.change, none)] := by
  decide +kernel

/-- Of a view whose window did not move a batch tells nothing; of any other the last thing told is a change. -/
theorem batch_change_last (depth : Nat) (layout : Client Viewing) (schema : Schema) (keepsFirst : Bool)
    (hlayout : Viewing.report depth layout (Session.start schema keepsFirst) = .ok () w)
    (c : Client Handling) (hbatch : batch depth c w = .ok () w') {name : String} {id : ViewId}
    (hname : w.Hears name id) :
    w'.told name = w.told name ∧ (w'.view id).window = (w.view id).window ∨
      ∃ events, w'.told name = w.told name ++ events ++ [(.change, none)] := by
  obtain ⟨events, htold, hcourse, -⟩ := batch_course depth layout schema keepsFirst hlayout c hbatch hname
  obtain ⟨rfl, hwindow⟩ | ⟨before, rfl⟩ := hcourse.eq_nil_or_concat
  · exact .inl ⟨htold.trans (List.append_nil _), hwindow⟩
  · exact .inr ⟨before, htold.trans (List.append_assoc ..).symm⟩

end Handling

end LiveGraph
