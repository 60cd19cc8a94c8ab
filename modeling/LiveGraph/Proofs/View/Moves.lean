import LiveGraph.Proofs.Client.Run
import LiveGraph.Proofs.View.Operations

/-!
# Moving windows

A window may be moved at any time, also by callbacks while the store changes. It leaves the views
right, and so do all calls by code that does nothing but look at the world and move windows.
-/

namespace LiveGraph

open Act

/-- The operations that move windows. -/
inductive Move
  | scroll (id : ViewId) (offset : Nat)
  | setLimit (id : ViewId) (limit : Nat)

namespace Move

def perform [Dispatch] : Move → Act Unit
  | scroll id offset => do let _ ← View.scroll id offset
  | setLimit id limit => do let _ ← View.setLimit id limit

end Move

variable {D : Dispatch} {d : Nat} {f : Bool} {I C : World → Prop}

/-- A condition that implies what is kept between calls and does not say more of the views. -/
def CalmAt (I : World → Prop) : Prop :=
  ∀ w, I w → ∃ stores untold gone, Calm stores untold gone w ∧
    ∀ w', Calm stores untold gone w' → I w'

theorem calmAt_calm (stores : Array Store) (untold gone : Excuse) :
    CalmAt (Calm stores untold gone) := fun _ hw ↦ ⟨stores, untold, gone, hw, fun _ h ↦ h⟩

theorem calmAt_viewed (U : Set EntityRef) : CalmAt (Viewed (.whole U)) := fun w hw ↦
  ⟨w.stores, _, _, hw.calm trivial, fun _ hw' ↦ hw'.viewed (fun _ _ h ↦ h) fun _ _ h ↦ h⟩

/-- A change of where a window is, and of nothing else. -/
structure View.Moves (F : View → View) : Prop where
  keeps : View.Keeps F
  version_eq : ∀ v, (F v).version = v.version
  changing_eq : ∀ v, (F v).changing = v.changing
  window_eq : ∀ v, (F v).window = v.window
  rows_eq : ∀ v, (F v).rows = v.rows
  watchers_eq : ∀ v, (F v).watchers = v.watchers
  filed : ∀ w untold gone v, World.Filed w untold gone v →
    World.Filed w untold gone { F v with window := (F v).nextWindow }

/-- Changes where a window is and takes it anew. -/
def View.moving [Dispatch] (id : ViewId) (F : View → View) : Act (Except Fault Unit) := do
  modify (·.modifyView id F)
  batch (View.settle id)
  return .ok ()

/-- What is kept by changing where windows are is kept by moving them. -/
theorem Move.agree_perform (hmoving : ∀ id F, View.Moves F → Agree (Held I d f) (@View.moving D id F)
      (@View.moving D id F) (fun _ ↦ At I d f) C) (op : Move) :
    Agree (At I d f) (@Move.perform D op) (@Move.perform D op) (fun _ ↦ At I d f) C := by
  have hmoved (id : ViewId) {F : View → View} (hF : View.Moves F) :
      Agree (At I d f) (do
          if ((← get).view id).disposed then return .error .disposed
          @View.moving D id F) (do
          if ((← get).view id).disposed then return .error .disposed
          @View.moving D id F) (fun _ ↦ At I d f) C :=
    agree_get fun w hw ↦ agree_ite (fun _ ↦ agree_pure fun w' hw' ↦ hw' ▸ hw)
      fun _ ↦ (hmoving id F hF).pre fun w' hw' ↦ hw' ▸ hw.toHeld
  have hkeeps {F : View → View} (hquery : ∀ v, (F v).query = v.query ∧ (F v).kind = v.kind ∧
      (F v).disposed = v.disposed ∧ (F v).dropped = v.dropped ∧ (F v).watchers = v.watchers) : View.Keeps F :=
    ⟨fun v ↦ (hquery v).1, fun v ↦ (hquery v).2.1, fun v ↦ (hquery v).2.2.1, fun v ↦ (hquery v).2.2.2.1,
      fun v hv ↦ (hquery v).2.2.2.2 ▸ hv⟩
  match op with
  | .scroll id offset =>
    exact agree_bind (hmoved id (F := fun v ↦ { v with offset := offset }) ⟨hkeeps fun _ ↦ ⟨rfl, rfl, rfl, rfl, rfl⟩,
      fun _ ↦ rfl, fun _ ↦ rfl, fun _ ↦ rfl, fun _ ↦ rfl, fun _ ↦ rfl,
      fun w untold gone v hfiled ↦ hfiled.move offset v.limit⟩)
      fun _ ↦ agree_pure fun _ hw ↦ hw
  | .setLimit id limit =>
    exact agree_bind (hmoved id (F := fun v ↦ { v with limit := limit }) ⟨hkeeps fun _ ↦ ⟨rfl, rfl, rfl, rfl, rfl⟩,
      fun _ ↦ rfl, fun _ ↦ rfl, fun _ ↦ rfl, fun _ ↦ rfl, fun _ ↦ rfl,
      fun w untold gone v hfiled ↦ hfiled.move v.offset limit⟩)
      fun _ ↦ agree_pure fun _ hw ↦ hw

/-- Where a window is may change as long as it is taken anew. -/
theorem Calm.moved {stores : Array Store} {untold gone : Excuse} {w : World} (h : Calm stores untold gone w)
    (id : ViewId) {F : View → View} (hF : View.Moves F) :
    Calm stores untold gone ((w.modifyView id F).modifyView id fun v ↦ { v with window := v.nextWindow }) := by
  rw [World.modifyView_modifyView]
  exact h.modifyView id ⟨hF.keeps.query_eq, hF.keeps.kind_eq, hF.keeps.disposed_eq, hF.keeps.dropped_eq,
    hF.keeps.scripts⟩ (fun _ hfiled ↦ hF.filed _ _ _ _ hfiled) fun _ _ ↦ ⟨fun _ h ↦ h, fun _ h ↦ h⟩

namespace Quietly

variable (h : Quietly D) (hI : DepthFree I) (hcalm : CalmAt I)
  (hflush : d = 0 → f = false →
    Agree (Held I 0 false) (@flush D) (@flush D) (fun _ ↦ At I 0 false) C)
include h hI hcalm hflush

/-- What a view does about its window being moved. -/
theorem agree_moving (id : ViewId) {F : View → View} (hF : View.Moves F) :
    Agree (Held I d f) (@View.moving D id F) (@View.moving D id F) (fun _ ↦ At I d f) C := by
  intro w hw
  obtain ⟨stores, untold, gone, hbefore, hafter⟩ := hcalm w hw.holds
  let Moved : World → Prop := fun w ↦ Calm stores untold gone
    (w.modifyView id fun v ↦ { v with window := v.nextWindow })
  have hdepth : DepthFree Moved := fun w d hw ↦ Calm.depthFree _ d hw
  have hsettle : Agree (Held Moved (d + 1) f) (@View.settle D id) (@View.settle D id)
      (fun _ ↦ Held I (d + 1) f) fun _ ↦ False :=
    (h.agree_settle (.inl (Nat.succ_pos d)) id).post fun _ w hw ↦ hw.mono hafter
  suffices hmoving : Agree (· = w) (@View.moving D id F) (@View.moving D id F) (fun _ ↦ At I d f) C from
    hmoving w rfl
  refine agree_bind (agree_modify (Q := fun _ ↦ Held Moved d f) fun w' hw' ↦ ?_) fun _ ↦
    agree_bind (agree_batch hdepth hI hsettle hflush fun _ h ↦ h.elim) fun _ ↦ agree_pure fun _ hw ↦ hw
  subst hw'
  exact ⟨hbefore.moved id hF, hw.depth_eq, hw.flushing_eq⟩

/-- Moving a window keeps what can be said between calls. -/
theorem agree_move (op : Move) :
    Agree (At I d f) (@Move.perform D op) (@Move.perform D op) (fun _ ↦ At I d f) C :=
  op.agree_perform fun id _ ↦ h.agree_moving hI hcalm hflush id

end Quietly

section Calls

variable {Op : Type} (perform : [Dispatch] → Op → Act Unit) (react : String → Event → Client Op) {n : Nat}

/-- Clearing the roles of a removed entity is nothing to the views. -/
theorem undisturbed_forget (id : StateId) (event : Event) :
    Undisturbed (Client.dispatch perform react (n + 1)) (.forget id) event := by
  intro stores untold gone d f hbusy
  rw [Client.call_other perform react n (.forget id) event fun _ _ _ ↦ nofun]
  refine agree_get fun w hw ↦ ?_
  have hskip : Agree (· = w) (pure ()) (pure ()) (fun _ : Unit ↦ Held (Calm stores untold gone) d f)
      (Held (Calm stores untold gone) d f) := agree_pure fun w' hw' ↦ hw' ▸ hw
  match event with
  | .entity what e =>
    refine agree_ite (fun _ ↦ ?_) fun _ ↦ hskip
    have hforget : Agree (Held (Calm stores untold gone) d f)
        (@Focus.forget (Client.dispatch perform react n) id (w.uriOf e))
        (@Focus.forget (Client.dispatch perform react n) id (w.uriOf e))
        (fun _ ↦ Held (Calm stores untold gone) d f) fun _ ↦ False :=
      agree_forget Calm.depthFree hbusy (fun _ _ h ↦ h) id (w.uriOf e)
        fun _ _ roles _ ↦ Calm.writeFree.roles roles
    refine ((agree_holding_calm (P := fun _ ↦ True) (fun _ _ ↦ trivial) (hforget.pre fun w hw ↦
      hw.mono fun _ hw ↦ hw.1)).mono (fun w' hw' ↦ ?_) (fun _ _ h ↦ h) fun _ h ↦ h.elim)
    exact hw' ▸ hw.mono fun _ hw ↦ ⟨hw, trivial⟩
  | .value _ => exact hskip
  | .property _ _ => exact hskip
  | .edge _ _ => exact hskip
  | .window _ _ => exact hskip
  | .applied _ => exact hskip

theorem undisturbed_edge (id : ViewId) (what what' : StoreEvent) (edge : Edge) :
    Undisturbed (Client.dispatch perform react (n + 1)) (.view id what) (.edge what' edge) := by
  intro stores untold gone d f hbusy
  rw [Client.call_other perform react n (.view id what) (.edge what' edge) fun _ _ _ ↦ nofun]
  exact agree_get fun w hw ↦ agree_pure fun w' hw' ↦ hw' ▸ hw

/-- A changed property is told to the store, whatever else has changed. -/
theorem agree_property (ih : Tame (Client.dispatch perform react n)) {untold : Set EntityRef} {e : EntityRef}
    (prop : String) (event : Event) (he : e.store = 0) :
    Agree (Held (Viewed (.whole untold)) 0 true)
      ((Client.dispatch perform react (n + 1)).call (.property e prop) event)
      ((Client.dispatch perform react (n + 1)).call (.property e prop) event)
      (fun _ ↦ Held (Viewed (.whole (untold \ {e}))) 0 true) fun _ ↦ False := by
  rw [Client.call_other perform react n (.property e prop) event fun _ _ _ ↦ nofun]
  refine agree_get fun w hw ↦ agree_ite (fun _ ↦ ?_) fun hheld ↦ ?_
  · have hchanged := (ih.kept.agree_changed (d := 0) (f := true) untold he prop
      (ih.agree_updated he prop) fun _ h ↦ nomatch h).mono (fun w hw ↦ Held.at_busy hw (.inr rfl))
      (fun _ w hw ↦ hw.toHeld) fun _ h ↦ h
    exact (Viewed.robust.agree_holding (fun w hw ↦ hw.context w.depth w.flushing w.frames _)
      hchanged).pre fun w' hw' ↦ hw' ▸ hw
  · have hstore := Ground.held hw.holds.ground
    rw [he, hstore] at hheld
    exact absurd rfl hheld

/-- If the code that is called leaves the store alone, calls to any depth leave the views right. -/
theorem tame_of_quietly (hquietly : ∀ n, Tame (Client.dispatch perform react n) →
      Quietly (Client.dispatch perform react (n + 1))) (n : Nat) : Tame (Client.dispatch perform react n) := by
  induction n with
  | zero =>
    have hrounds {α : Type} {P C : World → Prop} {Q : α → World → Prop} :
        Agree P (throw .rounds) (throw .rounds) Q C := fun _ _ ↦ ⟨rfl, trivial⟩
    exact ⟨fun _ _ _ _ _ _ _ _ _ _ ↦ hrounds, fun _ _ _ _ _ _ _ _ ↦ hrounds,
      fun _ _ _ _ _ _ _ _ _ _ ↦ hrounds, fun _ _ _ _ ↦ hrounds, fun _ _ ↦ hrounds,
      fun _ _ _ ↦ hrounds⟩
  | succ n ih =>
    refine ⟨hquietly n ih, undisturbed_forget perform react, undisturbed_edge perform react,
      fun {_ _ _ _ _ _ id what e event} hbusy hwhat hevent hu ↦ ?_,
      fun {_ _ _ _ _ _ id e} hbusy hg ↦ ?_, agree_property perform react ih⟩
    · rw [Client.call_other perform react n (.view id what) event fun _ _ _ ↦ nofun]
      refine agree_get fun w hw ↦ ?_
      rcases hevent with rfl | ⟨prop, rfl⟩
      · exact (ih.quietly.agree_react_taken hbusy hwhat hu).pre fun w' hw' ↦ hw' ▸ hw
      · exact (ih.quietly.agree_react_taken hbusy hwhat hu).pre fun w' hw' ↦ hw' ▸ hw
    · rw [Client.call_other perform react n (.view id .removed) (.entity .removed e) fun _ _ _ ↦ nofun]
      exact agree_get fun w hw ↦ (ih.quietly.agree_react_left hbusy hg).pre fun w' hw' ↦ hw' ▸ hw

end Calls

/-- What calls come to for code that moves windows when it is told something. -/
@[reducible]
def Move.dispatch (react : String → Event → Client Move) (n : Nat) : Dispatch :=
  Client.dispatch Move.perform react n

/-- Whatever code moves windows when it is told something, calls leave the views right. -/
theorem tame_dispatch (react : String → Event → Client Move) (n : Nat) :
    Tame (Move.dispatch react n) := by
  refine tame_of_quietly Move.perform react (fun n ih ↦ ?_) n
  intro name filter reaction event stores untold gone d f hbusy
  rw [Client.call_script]
  refine agree_get fun w hw ↦ agree_ite (fun _ ↦ ?_) fun _ ↦ agree_pure fun w' hw' ↦ hw' ▸ hw
  refine (Client.agree_run_busy Calm.depthFree (fun op d f hbusy ↦ ?_) (react name event) d f
    hbusy).pre fun w' hw' ↦ hw' ▸ hw
  refine (ih.quietly.agree_move Calm.depthFree (calmAt_calm stores untold gone)
    (fun hd hf ↦ ?_) op).mono (fun w hw ↦ hw.at_busy hbusy) (fun _ w hw ↦ hw.toHeld) fun _ h ↦ h
  subst hd hf
  simp at hbusy

end LiveGraph
