import LiveGraph.Proofs.Store.Operations
import Mathlib.Data.Set.Insert

/-!
# The stages of an operation on a store

A property of the world that knows how far an operation has come, and is kept by each of its parts, is kept by
all operations, and by code that is made of them. Operations on the properties of entities ask for less than those
that add and remove entities and edges.
-/

namespace LiveGraph

/-- How far an operation has come. -/
inductive Stage
  /-- Everything is in its place; what has happened to some entities was not told yet. -/
  | whole (untold : Set EntityRef)
  /-- As before, and an entity was just filed where it belongs in all indices. -/
  | filed (untold : Set EntityRef) (e : EntityRef)
  /-- An entity that cannot be found yet gets its properties. -/
  | coming (e : EntityRef) (uri : Uri) (kind : String)
  /-- An entity was removed, which was not told yet. -/
  | gone (e : EntityRef)

theorem told (e : EntityRef) : ({e} : Set EntityRef) \ {e} = ∅ := by
  ext
  simp

/-- Whether others may see the world at this stage. -/
def Stage.Visible : Stage → Prop
  | whole untold => untold = ∅
  | filed _ _ => False
  | coming _ _ _ => False
  | gone _ => True

/-- A property of worlds at a stage, where the changes of some topics were not counted yet. -/
abbrev Staged := Stage → List Topic → World → Prop

/-- Everything is told and counted. -/
def Staged.settled (J : Staged) : World → Prop :=
  J (.whole ∅) []

/-- Outside of batches and flushes a flush keeps a property. -/
def Flushes (J : Staged) (D D' : Dispatch) (C : World → Prop) (d : Nat) (f : Bool) : Prop :=
  d = 0 → f = false →
    Act.Agree (Held J.settled 0 false) (@flush D) (@flush D') (fun _ ↦ At J.settled 0 false) C

/-- What has to be kept of a property for a changed property of an entity to keep it, as far as no flush follows. -/
structure Changing (J : Staged) (s : StoreId) (D D' : Dispatch) (C : World → Prop) : Prop where
  depthFree : ∀ stage ks, DepthFree (J stage ks)
  count : ∀ stage key ks w, J stage (.clock s key :: ks) w → J stage ks (w.counted (.clock s key))
  crash : DepthFree C
  reindex : ∀ untold ks w e, J (.whole untold) ks w → e.store = s → w.isCurrent e →
    J (.filed untold e) (ks ++ (w.reindex e).1.map fun name ↦ .clock s (.index name))
      (w.reindex e).2
  obsolete : ∀ untold w e, J (.whole untold) [] w → e.store = s → w.isCurrent e = false →
    J (.whole (untold \ {e})) [] w
  updated : ∀ e prop d f, e.store = s →
    Act.Agree (Held (fun w ↦ J (.filed {e} e) [] w ∧ w.isCurrent e) (d + 1) f)
      (@notify D (.store s .updated) (.property e prop))
      (@notify D' (.store s .updated) (.property e prop)) (fun _ ↦ Held J.settled (d + 1) f) C

/-- What has to be kept of a property for telling of changes to keep it, once they are made, as far as no
flush follows. -/
structure Notifying (J : Staged) (s : StoreId) (D D' : Dispatch) (C : World → Prop) : Prop
    extends Changing J s D D' C where
  added : ∀ e d f, e.store = s → Act.Agree
    (Held (fun w ↦ J (.filed {e} e) [] w ∧ w.isCurrent e) (d + 1) f)
    (@notify D (.store s .added) (.entity .added e))
    (@notify D' (.store s .added) (.entity .added e)) (fun _ ↦ Held J.settled (d + 1) f) C
  cut : ∀ stage ks edge d f, stage.Visible → Act.Agree (Held (J stage ks) (d + 1) f)
    (@notify D (.store s .edgeRemoved) (.edge .edgeRemoved edge))
    (@notify D' (.store s .edgeRemoved) (.edge .edgeRemoved edge))
    (fun _ ↦ Held (J stage ks) (d + 1) f) C
  removed : ∀ e d f, e.store = s → Act.Agree (Held (J (.gone e) []) (d + 1) f)
    (@notify D (.store s .removed) (.entity .removed e))
    (@notify D' (.store s .removed) (.entity .removed e)) (fun _ ↦ Held J.settled (d + 1) f) C
  retireClocks : ∀ w uri, J.settled w → J.settled (w.retireClocks s uri)
  linked : ∀ edge d f, Act.Agree (Held J.settled (d + 1) f)
    (@notify D (.store s .edgeAdded) (.edge .edgeAdded edge))
    (@notify D' (.store s .edgeAdded) (.edge .edgeAdded edge))
    (fun _ ↦ Held J.settled (d + 1) f) C

/-- What has to be kept of a property for telling of changes to keep it, once they are made. -/
structure Telling (J : Staged) (s : StoreId) (D D' : Dispatch) (C : World → Prop) : Prop
    extends Notifying J s D D' C where
  flush : Act.Agree (Held J.settled 0 false) (@flush D) (@flush D') (fun _ ↦ At J.settled 0 false) C

/-- What has to be kept of a property for all operations on the properties of entities to keep it, as far as no
flush follows. -/
structure Assigning (J : Staged) (s : StoreId) (D D' : Dispatch) (C : World → Prop) : Prop
    extends Changing J s D D' C where
  write : ∀ stage ks w e id v, J stage ks w → e.store = s → 0 < e.serial → (w.entity e).live = true →
    w.PartOf e id → (w.signal id).disposed = false → J stage ks (w.write id v)
  store_eq : ∀ w e, J.settled w → w.knows e → e.store = s
  found : ∀ w uri e, J.settled w → w.find? s uri = some e → 0 < e.serial
  held : ∀ untold w, J (.whole untold) [] w → w.isStoreHeld s
  /-- A property is new, and that the shape has changed is told to those who read it. -/
  addProperty : ∀ w e prop v d f, At J.settled d f w → e.store = s → 0 < e.serial →
    (w.entity e).live → (w.entity e).props.get? prop = none →
    Act.Agree (· = (w.addProperty e prop v).2) (@Signal.advance D (w.entity e).shape)
      (@Signal.advance D' (w.entity e).shape) (fun _ ↦ At (J (.whole {e}) []) d f) C

/-- What has to be kept of a property for all operations on a store to keep it, as far as no flush follows. -/
structure Keeping (J : Staged) (s : StoreId) (D D' : Dispatch) (C : World → Prop) : Prop
    extends Notifying J s D D' C, Assigning J s D D' C where
  addIncarnation : ∀ w uri kind, J.settled w → w.contains s uri = false →
    J (.coming ⟨s, (w.store s).incarnations.size + 1⟩ uri kind) [] (w.addIncarnation s uri kind).2
  coming : ∀ w e uri kind, J (.coming e uri kind) [] w →
    e.store = s ∧ (w.entity e).live = true ∧ w.isCurrent e = false
  addComing : ∀ w e uri kind prop v, J (.coming e uri kind) [] w →
    (w.entity e).props.get? prop = none → J (.coming e uri kind) [] (w.addProperty e prop v).2
  enlist : ∀ w e uri kind, J (.coming e uri kind) [] w →
    J (.whole {e}) [.clock s (.presence uri), .clock s (.kind kind)] (w.enlist e) ∧
      (w.enlist e).isCurrent e
  strike : ∀ w uri e, J.settled w → w.find? s uri = some e →
    J (.gone e)
      (((w.strike e).1.1.flatMap fun edge ↦ (Store.edgeClocks edge).map (.clock s)) ++
        (.presence uri :: .kind (w.kindOf e) :: (w.strike e).1.2.map .index).map (.clock s))
      ((w.strike e).2.retire e)
  link : ∀ w edge atFront edges, J.settled w → w.contains s edge.source →
    w.contains s edge.target → (w.store s).edges.insert? edge atFront = some edges →
    J (.whole ∅) ((Store.edgeClocks edge).map (.clock s))
      (w.modifyStore s fun s ↦ { s with edges := edges })
  unlink : ∀ w edge edges, J.settled w → (w.store s).edges.remove? edge = some edges →
    J (.whole ∅) ((Store.edgeClocks edge).map (.clock s))
      (w.modifyStore s fun s ↦ { s with edges := edges })

/-- What has to be kept of a property for all operations on a store to keep it. -/
structure Kept (J : Staged) (s : StoreId) (D D' : Dispatch) (C : World → Prop) : Prop
    extends Keeping J s D D' C, Telling J s D D' C

open Act

variable {J : Staged} {s : StoreId} {D D' : Dispatch} {C : World → Prop}
variable {stage : Stage} {ks : List Topic} {untold : Set EntityRef} {d : Nat} {f : Bool}
variable {e : EntityRef} {w : World}

theorem Telling.flushes (h : Telling J s D D' C) : Flushes J D D' C d f := fun _ _ ↦ h.flush

theorem flushes_succ : Flushes J D D' C (d + 1) f := fun hd ↦ absurd hd (Nat.succ_ne_zero d)

namespace Changing

theorem concluding (h : Changing J s D D' C) (hflush : Flushes J D D' C d f) : Concluding J.settled D D' C d f :=
  ⟨h.depthFree _ _, h.crash, hflush⟩

theorem counting (h : Changing J s D D' C) (stage : Stage) : Counting s (J stage) :=
  ⟨h.depthFree stage, h.count stage⟩

/-- While changes are counted, an entity can still be found. -/
theorem counting_current (h : Changing J s D D' C) (stage : Stage) (e : EntityRef) :
    Counting s fun ks w ↦ J stage ks w ∧ w.isCurrent e where
  depthFree ks w d hw := ⟨h.depthFree stage ks w d hw.1, hw.2⟩
  count key ks w hw := ⟨h.count stage key ks w hw.1, (w.isCurrent_counted _ e).trans hw.2⟩

/-- After a property has changed, its entity is no longer untold of, whichever others are. -/
theorem agree_changed (h : Changing J s D D' C) (untold : Set EntityRef) (he : e.store = s)
    (prop : String)
    (hupdated : Agree (Held (fun w ↦ J (.filed untold e) [] w ∧ w.isCurrent e) (d + 1) f)
      (@notify D (.store s .updated) (.property e prop))
      (@notify D' (.store s .updated) (.property e prop))
      (fun _ ↦ Held (J (.whole (untold \ {e})) []) (d + 1) f) C)
    (hflush : d = 0 → f = false → Agree (Held (J (.whole (untold \ {e})) []) 0 false) (@LiveGraph.flush D)
      (@LiveGraph.flush D') (fun _ ↦ At (J (.whole (untold \ {e})) []) 0 false) C) :
    Agree (At (J (.whole untold) []) d f) (@Entity.propertyChanged D e prop)
      (@Entity.propertyChanged D' e prop) (fun _ ↦ At (J (.whole (untold \ {e})) []) d f) C := by
  subst he
  refine agree_get fun w hw ↦ ?_
  refine agree_ite (fun hcurrent ↦ ?_) fun hcurrent ↦ ?_
  · refine Agree.pre (P := Held (fun w ↦ J (.whole untold) [] w ∧ w.isCurrent e) d f)
      (Act.agree_batch (fun w d hw ↦ ⟨h.depthFree _ _ w d hw.1, hw.2⟩) (h.depthFree _ _) ?_ hflush
        fun w hw ↦ h.crash w _ hw)
      fun w' hw' ↦ hw' ▸ ⟨⟨hw.holds, hcurrent⟩, hw.depth_eq, hw.flushing_eq⟩
    refine agree_bind (agree_modifyGet (Q := fun touched ↦ Held (fun w ↦ J (.filed untold e)
      (touched.map fun name ↦ .clock e.store (.index name)) w ∧ w.isCurrent e) (d + 1) f)
      fun w hw ↦ ?_) fun touched ↦ ?_
    · exact hw.quiet (w.quiet_reindex e) ⟨h.reindex _ _ w e hw.holds.1 rfl hw.holds.2,
        (w.isCurrent_reindex e e).trans hw.holds.2⟩
    · refine agree_bind (Q := fun _ ↦ Held (fun w ↦ J (.filed untold e) [] w ∧ w.isCurrent e)
        (d + 1) f) (((h.counting_current (.filed untold e) e).agree_bumpAll D D' (touched.map .index) []).pre
          fun w hw ↦ ?_) fun _ ↦ hupdated
      simpa [Function.comp_def] using hw
  · refine agree_pure fun w' hw' ↦ ?_
    subst hw'
    exact ⟨⟨h.obsolete _ w' e hw.holds rfl (by simpa using hcurrent), hw.depth_eq, hw.flushing_eq⟩,
      hw.idle⟩

theorem agree_propertyChanged (h : Changing J s D D' C) (hflush : Flushes J D D' C d f) (he : e.store = s)
    (prop : String) :
    Agree (At (J (.whole {e}) []) d f) (@Entity.propertyChanged D e prop)
      (@Entity.propertyChanged D' e prop) (fun _ ↦ At J.settled d f) C := by
  have hchanged := h.agree_changed (d := d) (f := f) {e} he prop
  rw [told] at hchanged
  exact hchanged (h.updated e prop d f he) hflush

end Changing

namespace Notifying

/-- What is not there can be added, from what is known before to what is kept from then on. -/
theorem agree_add {I : World → Prop} {K : List (String × Value) → World → Prop}
    (h : Notifying J s D D' C) (hflush : Flushes J D D' C d f) (spec : EntitySpec) (hI : DepthFree I)
    (hK : Coming K s e)
    (hnew : ∀ w, I w → w.contains s spec.uri = false ∧
      (w.addIncarnation s spec.uri spec.kind).1 = e ∧ K [] (w.addIncarnation s spec.uri spec.kind).2)
    (henlist : ∀ w, K spec.props w →
      J (.whole {e}) [.clock s (.presence spec.uri), .clock s (.kind spec.kind)] (w.enlist e) ∧
        (w.enlist e).isCurrent e) :
    Agree (Held I d f) (@Store.add D s spec) (@Store.add D' s spec)
      (fun r w ↦ r = .ok e ∧ At J.settled d f w) C := by
  intro w hw
  obtain ⟨-, -, hcoming⟩ := hnew w hw.holds
  have he : e.store = s := (hK.hidden [] _ hcoming).1
  refine Act.agree_add (h.concluding hflush) spec hI hK (h.counting_current (.filed {e} e) e) hnew (fun w hw ↦ ?_)
    (h.added e d f he) w hw
  obtain ⟨hwhole, hcurrent⟩ := henlist w hw
  have hfiled := h.reindex _ _ _ e hwhole he hcurrent
  refine ⟨?_, ((w.enlist e).isCurrent_reindex e e).trans hcurrent⟩
  simpa [Function.comp_def] using hfiled

/-- What is there can be removed, from what is known before to what is kept from then on. -/
theorem agree_remove {I : World → Prop} (h : Notifying J s D D' C) (hflush : Flushes J D D' C d f) (uri : Uri)
    (hI : DepthFree I)
    (habsent : ∀ w, I w → w.find? s uri = none → J.settled w)
    (hstrike : ∀ w e, I w → w.find? s uri = some e → J (.gone e)
      (((w.strike e).1.1.flatMap fun edge ↦ (Store.edgeClocks edge).map (.clock s)) ++
        (.presence uri :: .kind (w.kindOf e) :: (w.strike e).1.2.map .index).map (.clock s))
      ((w.strike e).2.retire e)) :
    Agree (Held I d f) (@Store.remove D s uri) (@Store.remove D' s uri)
      (fun _ ↦ At J.settled d f) C :=
  Act.agree_remove (K := fun e _ ↦ J (.gone e)) (h.concluding hflush) uri hI (fun e _ ↦ h.counting (.gone e)) habsent
    hstrike (fun e edge _ ks ↦ h.cut (.gone e) ks edge d f trivial) (fun e he ↦ h.removed e d f he)
    fun w hw ↦ h.retireClocks w uri hw

/-- Entities can be linked, from what is known before to what is kept from then on. -/
theorem agree_link {I : World → Prop} (h : Notifying J s D D' C) (hflush : Flushes J D D' C d f) (edge : Edge)
    (atFront : Bool) (hI : DepthFree I)
    (habsent : ∀ w, I w → (w.contains s edge.source ∧ w.contains s edge.target →
      (w.store s).edges.insert? edge atFront = none) → J.settled w)
    (hlink : ∀ w edges, I w → w.contains s edge.source → w.contains s edge.target →
      (w.store s).edges.insert? edge atFront = some edges →
      J (.whole ∅) ((Store.edgeClocks edge).map (.clock s))
        (w.modifyStore s fun s ↦ { s with edges := edges })) :
    Agree (Held I d f) (@Store.link D s edge atFront) (@Store.link D' s edge atFront)
      (fun _ ↦ At J.settled d f) C :=
  Act.agree_link (h.concluding hflush) edge atFront hI (h.counting (.whole ∅)) habsent hlink (h.linked edge d f)

end Notifying

namespace Assigning

theorem assigned (h : Assigning J s D D' C) (he : e.store = s) (hserial : 0 < e.serial) {id : SignalId} (v : Value)
    (hw : J stage ks w) (hlive : (w.entity e).live = true) (hid : w.PartOf e id) :
    J stage ks (w.assigned id v) := by
  obtain heq | ⟨hdisposed, heq⟩ := w.assigned_cases id v
  · rwa [heq]
  · rw [heq]
    exact h.write stage ks w e id v hw he hserial hlive hid hdisposed

/-- A live entity takes a value for a property. -/
theorem agree_assign_part (h : Assigning J s D D' C) (hflush : Flushes J D D' C d f) (he : e.store = s)
    (hserial : 0 < e.serial) {id : SignalId} (v : Value) (hw : At J.settled d f w) (hlive : (w.entity e).live = true)
    (hid : w.PartOf e id) :
    Agree (· = w) (@Signal.set D id v) (@Signal.set D' id v)
      (fun r w' ↦ ((w.signal id).disposed = false → r = .ok ()) ∧ At J.settled d f w') C :=
  agree_assign_result (h.depthFree _ _) ⟨⟨rfl, hw.depth_eq, hw.flushing_eq⟩, hw.idle⟩
    (h.assigned he hserial v hw.holds hlive hid) hflush

/-- A live entity takes a property. -/
theorem agree_define_live (h : Assigning J s D D' C) (hflush : Flushes J D D' C d f) (he : e.store = s)
    (hserial : 0 < e.serial) (prop : String) (v : Value) :
    Agree (fun w ↦ At J.settled d f w ∧ (w.entity e).live = true) (@Entity.define D e prop v)
      (@Entity.define D' e prop v) (fun r w ↦ (∃ id, r = .ok id) ∧ At J.settled d f w) C := by
  refine agree_get fun w hw ↦ ?_
  obtain ⟨hw, hlive⟩ := hw
  refine agree_ite (fun hdead ↦ absurd hdead (by simp [hlive])) fun _ ↦ ?_
  split
  · rename_i id _
    exact agree_pure fun w' hw' ↦ hw' ▸ ⟨⟨id, rfl⟩, hw⟩
  · rename_i hnone
    refine agree_bind (agree_modifyGet (Q := fun _ ↦ (· = (w.addProperty e prop v).2))
      fun w' hw' ↦ ?_) fun id ↦ ?_
    · rw [hw']
    · refine agree_bind (h.addProperty w e prop v d f hw he hserial hlive hnone)
        fun _ ↦ agree_get fun w₂ hw₂ ↦ ?_
      refine agree_ite (fun _ ↦ ?_) fun hheld ↦ ?_
      · exact agree_bind ((h.agree_propertyChanged hflush he prop).pre fun w' hw' ↦ hw' ▸ hw₂) fun _ ↦
          agree_pure fun _ hw ↦ ⟨⟨id, rfl⟩, hw⟩
      · rw [he] at hheld
        exact absurd (h.held {e} w₂ hw₂.holds) hheld

theorem agree_define (h : Assigning J s D D' C) (hflush : Flushes J D D' C d f) (he : e.store = s)
    (hserial : 0 < e.serial) (prop : String) (v : Value) :
    Agree (At J.settled d f) (@Entity.define D e prop v) (@Entity.define D' e prop v)
      (fun _ ↦ At J.settled d f) C := by
  intro w hw
  by_cases hlive : (w.entity e).live = true
  · exact ((h.agree_define_live hflush he hserial prop v).post fun _ _ hw ↦ hw.2) w ⟨hw, hlive⟩
  · refine agree_get (P := (· = w)) (fun w' hw' ↦ agree_ite (fun _ ↦ ?_) fun hnot ↦ ?_) w rfl
    · exact agree_pure fun w'' hw'' ↦ hw'' ▸ hw' ▸ hw
    · subst hw'
      exact absurd hnot (by simp [hlive])

/-- A live entity takes a value for a property whose signal is in being. -/
theorem agree_set_live (h : Assigning J s D D' C) (hflush : Flushes J D D' C d f) (he : e.store = s)
    (hserial : 0 < e.serial) (prop : String) (v : Value) :
    Agree (fun w ↦ At J.settled d f w ∧ (w.entity e).live = true ∧
        ∀ id, (w.entity e).props.get? prop = some id → (w.signal id).disposed = false)
      (@Entity.set D e prop v) (@Entity.set D' e prop v) (fun r w ↦ r = .ok () ∧ At J.settled d f w)
      C := by
  refine agree_get fun w hw ↦ ?_
  obtain ⟨hw, hlive, hundisposed⟩ := hw
  refine agree_ite (fun hdead ↦ absurd hdead (by simp [hlive])) fun _ ↦ ?_
  split
  · rename_i id hid
    exact (h.agree_assign_part hflush he hserial v hw hlive (.inr ⟨prop, hid⟩)).post fun r w' hw' ↦
      ⟨hw'.1 (hundisposed id hid), hw'.2⟩
  · have hdefine := (h.agree_define_live hflush he hserial prop v).pre fun w' (hw' : w' = w) ↦
      show At J.settled d f w' ∧ (w'.entity e).live = true from hw' ▸ ⟨hw, hlive⟩
    refine agree_bind hdefine fun r ↦ agree_pure fun w' hw' ↦ ?_
    obtain ⟨⟨id, rfl⟩, hat⟩ := hw'
    exact ⟨rfl, hat⟩

theorem agree_set (h : Assigning J s D D' C) (hflush : Flushes J D D' C d f) (he : e.store = s)
    (hserial : 0 < e.serial) (prop : String) (v : Value) :
    Agree (At J.settled d f) (@Entity.set D e prop v) (@Entity.set D' e prop v)
      (fun _ ↦ At J.settled d f) C := by
  refine agree_get fun w hw ↦ ?_
  refine agree_ite (fun _ ↦ ?_) fun hlive ↦ ?_
  · exact agree_pure fun w' hw' ↦ hw' ▸ hw
  · split
    · rename_i id hid
      exact (h.agree_assign_part hflush he hserial v hw (by simpa using hlive) (.inr ⟨prop, hid⟩)).post
        fun _ _ hw ↦ hw.2
    · exact agree_bind ((h.agree_define hflush he hserial prop v).pre fun w' hw' ↦ hw' ▸ hw)
        fun _ ↦ agree_pure fun _ hw ↦ hw

theorem agree_setAll (h : Assigning J s D D' C) (hflush : Flushes J D D' C d f) (he : e.store = s)
    (hserial : 0 < e.serial) (props : List (String × Value)) :
    Agree (At J.settled d f) (@Entity.setAll D e props) (@Entity.setAll D' e props)
      (fun _ ↦ At J.settled d f) C := by
  induction props with
  | nil => exact agree_pure fun _ hw ↦ hw
  | cons p rest ih =>
    refine agree_bind (h.agree_set hflush he hserial p.1 p.2) fun r ↦ ?_
    cases r with
    | error why => exact agree_pure fun _ hw ↦ hw
    | ok _ => exact ih

theorem agree_update (h : Assigning J s D D' C) (hflush : Flushes J D D' C d f) (uri : Uri)
    (props : List (String × Value)) :
    Agree (At J.settled d f) (@Store.update D s uri props) (@Store.update D' s uri props)
      (fun _ ↦ At J.settled d f) C := by
  refine agree_get fun w hw ↦ ?_
  split
  · exact agree_pure fun w' hw' ↦ hw' ▸ hw
  · rename_i e hfound
    obtain ⟨_, -, rfl⟩ := Option.map_eq_some_iff.mp hfound
    refine Agree.pre (P := Held J.settled d f) ((h.concluding hflush).agree_batch (h.depthFree _ _) ?_)
      fun w' hw' ↦ hw' ▸ hw.toHeld
    refine agree_bind (((h.agree_setAll flushes_succ rfl (h.found w uri _ hw.holds hfound) props).pre
      fun w hw ↦ hw.at_busy (.inl (Nat.succ_pos d))).post fun _ w hw ↦ hw.toHeld) fun r ↦
      agree_pure fun _ hw ↦ hw

/-- The definition of an index may lead from one property to another. -/
theorem agree_defineIndex {I : World → Prop} (h : Assigning J s D D' C) (hflush : Flushes J D D' C d f)
    (name kind : String) (x : Extractor)
    (hput : ∀ w, I w → J (.whole ∅) [.clock s (.index name)] (w.putIndex s name kind x)) :
    Agree (At I d f) (@Store.defineIndex D s name kind x)
      (@Store.defineIndex D' s name kind x) (fun _ ↦ At J.settled d f) C := by
  intro w hw
  let w₁ := w.putIndex s name kind x
  have hw₁ : At (· = w₁) d f w₁ := hw.quiet (w.quiet_putIndex s name kind x) rfl
  refine agree_bind (P := (· = w)) (agree_modify (Q := fun _ ↦ (· = w₁)) fun w' hw' ↦ ?_)
    (fun _ ↦ agree_bump (h.depthFree _ _) hw₁
      (h.count _ _ _ w₁ (hput w hw.holds)) hflush) w rfl
  rw [hw']

/-- Operations on the properties of entities, and the definition of an index. -/
theorem agree_perform (h : Assigning J s D D' C) (hflush : Flushes J D D' C d f) (edit : Edit) (hflat : ¬edit.Structural)
    (hput : ∀ w name kind x, edit = .defineIndex name kind x → J.settled w →
      J (.whole ∅) [.clock s (.index name)] (w.putIndex s name kind x)) :
    Agree (At J.settled d f) (@Edit.perform D s edit) (@Edit.perform D' s edit)
      (fun _ ↦ At J.settled d f) C := by
  have hdone {α : Type} {a b : Act α} (hab : Agree (At J.settled d f) a b
      (fun _ ↦ At J.settled d f) C) : Agree (At J.settled d f) (do let _ ← a) (do let _ ← b)
      (fun _ ↦ At J.settled d f) C := agree_bind hab fun _ ↦ agree_pure fun _ hw ↦ hw
  have hknown {e : EntityRef} {α : Type} {a b : Act α}
      (hab : e.store = s → 0 < e.serial → Agree (At J.settled d f) a b
        (fun _ ↦ At J.settled d f) C) :
      Agree (At J.settled d f) (do if (← get).knows e then let _ ← a)
        (do if (← get).knows e then let _ ← b) (fun _ ↦ At J.settled d f) C := by
    refine agree_get fun w hw ↦ agree_ite (fun hknows ↦ ?_) fun _ ↦
      agree_pure fun w' hw' ↦ hw' ▸ hw
    have hserial : 0 < e.serial := by
      simp only [World.knows, Bool.and_eq_true, decide_eq_true_eq] at hknows
      exact hknows.1
    exact (hdone (hab (h.store_eq w e hw.holds hknows) hserial)).pre fun w' hw' ↦ hw' ▸ hw
  cases edit with
  | update uri props => exact hdone (h.agree_update hflush uri props)
  | set e prop value => exact hknown fun he hserial ↦ h.agree_set hflush he hserial prop value
  | define e prop value => exact hknown fun he hserial ↦ h.agree_define hflush he hserial prop value
  | defineIndex name kind x =>
    exact h.agree_defineIndex hflush name kind x fun w hw ↦ hput w name kind x rfl hw
  | add spec => exact absurd trivial hflat
  | remove uri => exact absurd trivial hflat
  | link edge atFront => exact absurd trivial hflat
  | unlink edge => exact absurd trivial hflat

end Assigning

namespace Keeping

/-- What is not there can be added. -/
theorem agree_add_free (h : Keeping J s D D' C) (hflush : Flushes J D D' C d f) (spec : EntitySpec) :
    Agree (Held (fun w ↦ J.settled w ∧ w.contains s spec.uri = false) d f) (@Store.add D s spec)
      (@Store.add D' s spec) (fun r w ↦ (∃ e, r = .ok e) ∧ At J.settled d f w) C := by
  intro w hw
  let e : EntityRef := ⟨s, (w.store s).incarnations.size + 1⟩
  let I : World → Prop := fun w' ↦ J.settled w' ∧ w'.contains s spec.uri = false ∧
    (w'.store s).incarnations.size = (w.store s).incarnations.size
  have hcoming : Coming (fun _ ↦ J (.coming e spec.uri spec.kind) []) s e :=
    { depthFree := fun _ ↦ h.depthFree _ _
      hidden := fun _ w hw ↦ h.coming w e _ _ hw
      given := fun _ w prop v hw hnone ↦ by
        have hadded := h.addComing w e _ _ prop v hw hnone
        have hshape : ((w.addProperty e prop v).2.entity e).shape = (w.entity e).shape :=
          w.shape_addProperty e prop v
        exact h.assigned rfl (Nat.succ_pos _) _ hadded (h.coming _ e _ _ hadded).2.1 (.inl hshape.symm)
      kept := fun _ _ _ _ _ hw _ ↦ hw }
  have hadd := h.toNotifying.agree_add hflush (d := d) (f := f) (I := I) spec
    (fun w d hw ↦ ⟨h.depthFree _ _ w d hw.1, hw.2⟩) hcoming
    (fun w hw ↦ ⟨hw.2.1, EntityRef.eq_of_serial rfl (congrArg (· + 1) hw.2.2), ?_⟩)
    fun w hw ↦ h.enlist w e _ _ hw
  · exact (hadd.post fun _ _ hw ↦ ⟨⟨e, hw.1⟩, hw.2⟩) w
      ⟨⟨hw.holds.1, hw.holds.2, rfl⟩, hw.depth_eq, hw.flushing_eq⟩
  · have hnew := h.addIncarnation w spec.uri spec.kind hw.1 hw.2.1
    rwa [hw.2.2] at hnew

theorem agree_add (h : Keeping J s D D' C) (hflush : Flushes J D D' C d f) (spec : EntitySpec) :
    Agree (At J.settled d f) (@Store.add D s spec) (@Store.add D' s spec)
      (fun _ ↦ At J.settled d f) C := by
  intro w hw
  cases hfree : w.contains s spec.uri with
  | false =>
    exact ((h.agree_add_free hflush spec).post fun _ _ hw ↦ hw.2) w
      ⟨⟨hw.holds, hfree⟩, hw.depth_eq, hw.flushing_eq⟩
  | true =>
    refine ((h.concluding hflush).agree_batch (I := fun w ↦ J.settled w ∧ w.contains s spec.uri)
      (fun w d hw ↦ ⟨h.depthFree _ _ w d hw.1, hw.2⟩) (agree_get fun w hw ↦ ?_)) w
      ⟨⟨hw.holds, hfree⟩, hw.depth_eq, hw.flushing_eq⟩
    refine agree_ite (fun _ ↦ agree_pure fun w' hw' ↦ hw' ▸ hw.mono fun _ hw ↦ hw.1) fun hnot ↦ ?_
    exact absurd hw.holds.2 hnot

theorem agree_remove (h : Keeping J s D D' C) (hflush : Flushes J D D' C d f) (uri : Uri) :
    Agree (At J.settled d f) (@Store.remove D s uri) (@Store.remove D' s uri)
      (fun _ ↦ At J.settled d f) C :=
  (h.toNotifying.agree_remove hflush uri (h.depthFree _ _) (fun _ hw _ ↦ hw)
    fun w e hw hfound ↦ h.strike w uri e hw hfound).pre fun _ hw ↦ hw.toHeld

theorem agree_link (h : Keeping J s D D' C) (hflush : Flushes J D D' C d f) (edge : Edge) (atFront : Bool) :
    Agree (At J.settled d f) (@Store.link D s edge atFront) (@Store.link D' s edge atFront)
      (fun _ ↦ At J.settled d f) C :=
  (h.toNotifying.agree_link hflush edge atFront (h.depthFree _ _) (fun _ hw _ ↦ hw)
    fun w edges hw ↦ h.link w edge atFront edges hw).pre fun _ hw ↦ hw.toHeld

theorem agree_unlink (h : Keeping J s D D' C) (hflush : Flushes J D D' C d f) (edge : Edge) :
    Agree (At J.settled d f) (@Store.unlink D s edge) (@Store.unlink D' s edge)
      (fun _ ↦ At J.settled d f) C := by
  refine (Act.agree_unlink (I := J.settled) (K := fun _ ↦ J (.whole ∅)) (h.concluding hflush) edge (h.depthFree _ _)
    (fun _ ↦ h.counting (.whole ∅)) (fun _ hw _ ↦ hw) (fun w edges hw hremove ↦ ?_)
    (fun edge _ ks ↦ h.cut (.whole ∅) ks edge d f rfl) fun _ hw ↦ hw).pre fun _ hw ↦ hw.toHeld
  rw [edgeTopics, List.flatMap_singleton]
  exact h.unlink w edge edges hw hremove

/-- Every operation on a store is kept by what it consists of. -/
theorem agree_perform (h : Keeping J s D D' C) (hflush : Flushes J D D' C d f) (edit : Edit)
    (hput : ∀ w name kind x, edit = .defineIndex name kind x → J.settled w →
      J (.whole ∅) [.clock s (.index name)] (w.putIndex s name kind x)) :
    Agree (At J.settled d f) (@Edit.perform D s edit) (@Edit.perform D' s edit)
      (fun _ ↦ At J.settled d f) C := by
  have hdone {α : Type} {a b : Act α} (hab : Agree (At J.settled d f) a b
      (fun _ ↦ At J.settled d f) C) : Agree (At J.settled d f) (do let _ ← a) (do let _ ← b)
      (fun _ ↦ At J.settled d f) C := agree_bind hab fun _ ↦ agree_pure fun _ hw ↦ hw
  cases edit with
  | add spec => exact hdone (h.agree_add hflush spec)
  | remove uri => exact hdone (h.agree_remove hflush uri)
  | link edge atFront => exact hdone (h.agree_link hflush edge atFront)
  | unlink edge => exact hdone (h.agree_unlink hflush edge)
  | update uri props => exact h.toAssigning.agree_perform hflush (.update uri props) id hput
  | set e prop value => exact h.toAssigning.agree_perform hflush (.set e prop value) id hput
  | define e prop value => exact h.toAssigning.agree_perform hflush (.define e prop value) id hput
  | defineIndex name kind x => exact h.toAssigning.agree_perform hflush (.defineIndex name kind x) id hput

end Keeping

end LiveGraph
