import LiveGraph.Proofs.Reactive.Within
import LiveGraph.Proofs.Store.Properties

/-!
# Updating several properties

An update of properties that an entity has already is one change, with a flush after it: whoever is told of
it, and whatever is computed from it, comes after all of its writes. A property that is new is told to the
store at once, when the properties before it in the update have their values and those after it do not.
-/

namespace LiveGraph

namespace World

variable {w : World} {e : EntityRef}

/-- A live entity whose properties are written independently of each other and of what counts them. -/
structure Writable (w : World) (e : EntityRef) : Prop where
  live : (w.entity e).live = true
  separate : w.Separate (w.entity e).props
  shape_lt : (w.entity e).shape < w.signals.size
  shape_ne : ∀ prop id, (w.entity e).props.get? prop = some id → id ≠ (w.entity e).shape

/-- The world after a property was written that is there already, before anything follows from it. -/
def withProperty (w : World) (e : EntityRef) (prop : String) (v : Value) : World :=
  ((w.entity e).props.get? prop).elim w (w.assigned · v)

/-- The world after several properties were written that are there already. -/
def withProperties (w : World) (e : EntityRef) (props : List (String × Value)) : World :=
  props.foldl (fun w p ↦ w.withProperty e p.1 p.2) w

/-- The world after a property was added and counted, before the store is told. -/
def withNewProperty (w : World) (e : EntityRef) (prop : String) (v : Value) : World :=
  (w.addProperty e prop v).2.advanced (w.entity e).shape

theorem Rewritten.withProperty (w : World) (e : EntityRef) (prop : String) (v : Value) :
    w.Rewritten (w.withProperty e prop v) := by
  rw [World.withProperty]
  cases (w.entity e).props.get? prop with
  | none => exact .refl w
  | some id => exact .assigned w id v

/-- Writes leave the entity, and with it its signals, as it is. -/
theorem Writable.withProperty (h : w.Writable e) (prop : String) (v : Value) :
    (w.withProperty e prop v).Writable e := by
  have hentity := (Rewritten.withProperty w e prop v).entity_eq e
  have hsize : (w.withProperty e prop v).signals.size = w.signals.size := by
    rw [World.withProperty]
    cases (w.entity e).props.get? prop with
    | none => rfl
    | some id => exact w.size_assigned id v
  refine ⟨?_, ?_, ?_, ?_⟩
  · rw [hentity]
    exact h.live
  · rw [hentity, World.withProperty]
    cases (w.entity e).props.get? prop with
    | none => exact h.separate
    | some id => exact h.separate.assigned id v
  · rw [hentity, hsize]
    exact h.shape_lt
  · rw [hentity]
    exact h.shape_ne

/-- A property that is there reads what was written to it, and all others what they read. -/
theorem property?_withProperty (h : w.Writable e) {prop : String} (hprop : (w.property? e prop).isSome)
    (v : Value) (prop' : String) : (w.withProperty e prop v).property? e prop' =
      if prop' = prop then some v else w.property? e prop' := by
  have hentity := (Rewritten.withProperty w e prop v).entity_eq e
  rw [property?, hentity]
  rw [property?, Option.isSome_map] at hprop
  obtain ⟨id, hid⟩ := Option.isSome_iff_exists.mp hprop
  simp only [withProperty, hid, Option.elim_some]
  exact h.separate.held_assigned hid v prop'

/-- Of several writes to one property the last counts. -/
theorem property?_withProperties (h : w.Writable e) {props : List (String × Value)}
    (hprops : ∀ p ∈ props, (w.property? e p.1).isSome) (prop : String) :
    (w.withProperties e props).property? e prop =
      ((props.reverse.find? fun p ↦ p.1 = prop).map (·.2)).or (w.property? e prop) := by
  induction props generalizing w with
  | nil => rfl
  | cons p rest ih =>
    have hstep := property?_withProperty h (hprops p List.mem_cons_self) p.2
    have hrest : ∀ q ∈ rest, ((w.withProperty e p.1 p.2).property? e q.1).isSome := fun q hq ↦ by
      rw [hstep]
      split
      · rfl
      · exact hprops q (List.mem_cons_of_mem p hq)
    calc
      (w.withProperties e (p :: rest)).property? e prop
        = ((rest.reverse.find? fun q ↦ q.1 = prop).map (·.2)).or ((w.withProperty e p.1 p.2).property? e prop) :=
          ih (h.withProperty p.1 p.2) hrest
      _ = (((p :: rest).reverse.find? fun q ↦ q.1 = prop).map (·.2)).or (w.property? e prop) := by
          rw [hstep, List.reverse_cons, List.find?_append]
          by_cases hname : prop = p.1
          · cases rest.reverse.find? (fun q ↦ q.1 = prop) <;> simp [hname]
          · cases rest.reverse.find? (fun q ↦ q.1 = prop) <;> simp [hname, Ne.symm hname]

theorem Writable.withProperties (h : w.Writable e) (props : List (String × Value)) :
    (w.withProperties e props).Writable e := by
  induction props generalizing w with
  | nil => exact h
  | cons p rest ih => exact ih (h.withProperty p.1 p.2)

theorem withProperty_setDepth (w : World) (e : EntityRef) (prop : String) (v : Value) (d : Nat) :
    (w.setDepth d).withProperty e prop v = (w.withProperty e prop v).setDepth d := by
  have hentity : (w.setDepth d).entity e = w.entity e := rfl
  rw [withProperty, hentity, withProperty]
  cases (w.entity e).props.get? prop with
  | none => rfl
  | some id => exact w.assigned_setDepth id v d

/-- Writes do the same at any depth. -/
theorem withProperties_setDepth (w : World) (e : EntityRef) (props : List (String × Value)) (d : Nat) :
    (w.setDepth d).withProperties e props = (w.withProperties e props).setDepth d := by
  induction props generalizing w with
  | nil => rfl
  | cons p rest ih =>
    calc
      (w.setDepth d).withProperties e (p :: rest)
        = ((w.withProperty e p.1 p.2).setDepth d).withProperties e rest :=
          congrArg (·.withProperties e rest) (w.withProperty_setDepth e p.1 p.2 d)
      _ = (w.withProperties e (p :: rest)).setDepth d := ih _

theorem Rewritten.withProperties (w : World) (e : EntityRef) (props : List (String × Value)) :
    w.Rewritten (w.withProperties e props) := by
  induction props generalizing w with
  | nil => exact .refl w
  | cons p rest ih => exact (Rewritten.withProperty w e p.1 p.2).trans (ih _)

section New

/-- There are entities under live references only. -/
theorem lt_of_live (hlive : (w.entity e).live = true) :
    e.store < w.stores.size ∧ e.serial - 1 < (w.store e.store).incarnations.size := by
  refine ⟨Nat.lt_of_not_le fun hge ↦ ?_, Nat.lt_of_not_le fun hge ↦ ?_⟩
  · have hnone : w.store e.store = default := by simp [store, hge]
    rw [entity, hnone] at hlive
    exact Bool.noConfusion hlive
  · have hnone : w.entity e = default := by simp [entity, Store.incarnation, hge]
    rw [hnone] at hlive
    exact Bool.noConfusion hlive

theorem entity_addProperty_self (hlive : (w.entity e).live = true) (prop : String) (v : Value) :
    (w.addProperty e prop v).2.entity e =
      { w.entity e with props := (w.entity e).props.insert prop w.signals.size } := by
  obtain ⟨hstore, hserial⟩ := lt_of_live hlive
  have hadded : (w.addProperty e prop v).2.store e.store = _ :=
    store_modifyStore_self ((w.addSignal v .same (.entity e)).2.subscribe (.signal w.signals.size)
      (.property e prop)).2 hstore _
  rw [entity, hadded]
  refine (getD_modify _ _ _ _ _).trans ?_
  rw [if_pos ⟨rfl, hserial⟩]
  rfl

theorem size_addProperty (e : EntityRef) (prop : String) (v : Value) :
    (w.addProperty e prop v).2.signals.size = w.signals.size + 1 :=
  Array.size_modify.trans (w.size_addSignal v .same (.entity e))

theorem get?_addProperty (hlive : (w.entity e).live = true) (prop : String) (v : Value) (name : String) :
    ((w.addProperty e prop v).2.entity e).props.get? name =
      if name = prop then some w.signals.size else (w.entity e).props.get? name := by
  rw [entity_addProperty_self hlive, Std.TreeMap.get?_eq_getElem?, Std.TreeMap.getElem?_insert]
  simp only [Std.LawfulEqOrd.compare_eq_iff_eq, eq_comm (a := prop)]
  rfl

/-- A name has the new signal or an old one. -/
theorem get?_addProperty_cases (hlive : (w.entity e).live = true) {prop : String} {v : Value} {name : String}
    {id : SignalId} (hid : ((w.addProperty e prop v).2.entity e).props.get? name = some id) :
    name = prop ∧ id = w.signals.size ∨ (w.entity e).props.get? name = some id := by
  rw [get?_addProperty hlive] at hid
  split at hid
  · exact .inl ⟨‹_›, (Option.some.inj hid).symm⟩
  · exact .inr hid

/-- An entity stays writable when it gets a new property. -/
theorem Writable.addProperty (h : w.Writable e) (prop : String) (v : Value) :
    (w.addProperty e prop v).2.Writable e := by
  have hentity := entity_addProperty_self h.live prop v
  have hold {name : String} {id : SignalId} (hid : (w.entity e).props.get? name = some id) :
      (w.addProperty e prop v).2.signal id = w.signal id := by
    rw [signal_addProperty, if_neg (Nat.ne_of_lt (h.separate.lt_size name id hid))]
  refine ⟨by rw [hentity]; exact h.live, ⟨fun name id hid ↦ ?_, fun name id hid ↦ ?_, fun name id hid ↦ ?_,
    fun name name' id hid hid' ↦ ?_⟩, ?_, fun name id hid ↦ ?_⟩
  · rw [size_addProperty]
    rcases get?_addProperty_cases h.live hid with ⟨-, rfl⟩ | hid
    · exact Nat.lt_succ_self _
    · exact Nat.lt_succ_of_lt (h.separate.lt_size name id hid)
  · rcases get?_addProperty_cases h.live hid with ⟨-, rfl⟩ | hid
    · rw [signal_addProperty, if_pos rfl]
    · rw [hold hid]
      exact h.separate.undisposed name id hid
  · rcases get?_addProperty_cases h.live hid with ⟨-, rfl⟩ | hid
    · rw [signal_addProperty, if_pos rfl]
    · rw [hold hid]
      exact h.separate.equality_eq name id hid
  · rcases get?_addProperty_cases h.live hid with ⟨hname, hnew⟩ | hid
    · rcases get?_addProperty_cases h.live hid' with ⟨hname', -⟩ | hid'
      · exact hname.trans hname'.symm
      · exact absurd (h.separate.lt_size name' id hid') (hnew ▸ Nat.lt_irrefl _)
    · rcases get?_addProperty_cases h.live hid' with ⟨-, hnew⟩ | hid'
      · exact absurd (h.separate.lt_size name id hid) (hnew ▸ Nat.lt_irrefl _)
      · exact h.separate.injective name name' id hid hid'
  · rw [hentity, size_addProperty]
    exact Nat.lt_succ_of_lt h.shape_lt
  · rw [hentity]
    rcases get?_addProperty_cases h.live hid with ⟨-, rfl⟩ | hid
    · exact Nat.ne_of_gt h.shape_lt
    · exact h.shape_ne name id hid

theorem store_addIncarnation_self {s : StoreId} (hs : s < w.stores.size) (uri : Uri) (kind : String) :
    (w.addIncarnation s uri kind).2.store s = { w.store s with
      incarnations := (w.store s).incarnations.push ⟨uri, kind, ∅, w.signals.size, true⟩ } :=
  store_modifyStore_self (w.addSignal (.int 0) .same (.entity ⟨s, (w.store s).incarnations.size + 1⟩)).2 hs _

theorem entity_addIncarnation_self {s : StoreId} (hs : s < w.stores.size) (uri : Uri) (kind : String) :
    (w.addIncarnation s uri kind).2.entity (w.addIncarnation s uri kind).1 =
      ⟨uri, kind, ∅, w.signals.size, true⟩ := by
  change ((w.addIncarnation s uri kind).2.store s).incarnation ((w.store s).incarnations.size + 1) = _
  rw [store_addIncarnation_self hs]
  simp [Store.incarnation]

/-- A new entity has no properties, and what will count them has a signal of its own. -/
theorem writable_addIncarnation {s : StoreId} (hs : s < w.stores.size) (uri : Uri) (kind : String) :
    (w.addIncarnation s uri kind).2.Writable (w.addIncarnation s uri kind).1 := by
  have hentity := entity_addIncarnation_self (w := w) hs uri kind
  have hnone : ∀ name id, ((w.addIncarnation s uri kind).2.entity
      (w.addIncarnation s uri kind).1).props.get? name ≠ some id := fun name id hid ↦ by
    rw [hentity, Std.TreeMap.get?_eq_getElem?, Std.TreeMap.getElem?_emptyc] at hid
    exact Option.some_ne_none id hid.symm
  refine ⟨by rw [hentity], ⟨fun name id h ↦ absurd h (hnone name id), fun name id h ↦ absurd h (hnone name id),
    fun name id h ↦ absurd h (hnone name id), fun name _ id h ↦ absurd h (hnone name id)⟩, ?_,
    fun name id h ↦ absurd h (hnone name id)⟩
  rw [hentity]
  exact Nat.lt_of_lt_of_eq (Nat.lt_succ_self _) (w.size_addSignal _ _ _).symm

/-- What counts the properties is no property itself. -/
theorem Writable.advanced (h : w.Writable e) : (w.advanced (w.entity e).shape).Writable e := by
  have hrewritten : w.Rewritten (w.advanced (w.entity e).shape) := .assigned _ _ _
  refine ⟨?_, ?_, ?_, ?_⟩ <;> rw [hrewritten.entity_eq]
  · exact h.live
  · exact h.separate.assigned _ _
  · exact Nat.lt_of_lt_of_eq h.shape_lt (w.size_assigned _ _).symm
  · exact h.shape_ne

theorem property?_advanced (h : w.Writable e) (name : String) :
    (w.advanced (w.entity e).shape).property? e name = w.property? e name := by
  have hrewritten : w.Rewritten (w.advanced (w.entity e).shape) := .assigned _ _ _
  rw [property?, hrewritten.entity_eq, property?]
  cases hid : (w.entity e).props.get? name with
  | none => rfl
  | some id =>
    rw [Option.map_some, Option.map_some]
    rcases w.advanced_cases (w.entity e).shape with heq | ⟨-, _, heq⟩
    · rw [heq]
    · rw [heq, valueOf_write, if_neg fun hand ↦ h.shape_ne name id hid hand.1.symm]

theorem property?_addProperty_self (h : w.Writable e) (prop : String) (v : Value) (name : String) :
    (w.addProperty e prop v).2.property? e name = if name = prop then some v else w.property? e name := by
  rw [property?, get?_addProperty h.live, property?]
  by_cases hname : name = prop
  · rw [if_pos hname, if_pos hname, Option.map_some, valueOf, signal_addProperty, if_pos rfl]
  · rw [if_neg hname, if_neg hname]
    cases hid : (w.entity e).props.get? name with
    | none => rfl
    | some id =>
      rw [Option.map_some, Option.map_some, valueOf, signal_addProperty,
        if_neg (Nat.ne_of_lt (h.separate.lt_size name id hid)), valueOf]

theorem withNewProperty_eq (hlive : (w.entity e).live = true) (prop : String) (v : Value) :
    w.withNewProperty e prop v =
      (w.addProperty e prop v).2.advanced ((w.addProperty e prop v).2.entity e).shape := by
  rw [entity_addProperty_self hlive]
  rfl

/-- A new property reads its first value, and all others what they read. -/
theorem property?_withNewProperty (h : w.Writable e) (prop : String) (v : Value) (name : String) :
    (w.withNewProperty e prop v).property? e name = if name = prop then some v else w.property? e name := by
  rw [withNewProperty_eq h.live, property?_advanced (h.addProperty prop v), property?_addProperty_self h]

end New

end World

namespace Entity

open Act

variable {w : World} {e : EntityRef}

/-- Within a batch a property that is there is written at once, as far as that goes. -/
theorem set_run [Dispatch] (h : w.Writable e) (hdepth : 0 < w.depth) {prop : String}
    (hprop : (w.property? e prop).isSome) (v : Value) :
    Entity.set e prop v w = .ok (.ok ()) (w.withProperty e prop v) := by
  rw [World.property?, Option.isSome_map] at hprop
  obtain ⟨id, hid⟩ := Option.isSome_iff_exists.mp hprop
  simp only [Entity.set, bind_run, get_run, h.live, Bool.not_true, Bool.false_eq_true, if_false, hid,
    set_in_batch (h.separate.undisposed prop id hid) hdepth, World.withProperty, Option.elim_some]

/-- Within a batch nobody is told of properties that are there before all of them are written. -/
theorem setAll_append [Dispatch] (h : w.Writable e) (hdepth : 0 < w.depth) {props : List (String × Value)}
    (hprops : ∀ p ∈ props, (w.property? e p.1).isSome) (rest : List (String × Value)) :
    setAll e (props ++ rest) w = setAll e rest (w.withProperties e props) := by
  induction props generalizing w with
  | nil => rfl
  | cons p props ih =>
    have hstep := World.property?_withProperty h (hprops p List.mem_cons_self) p.2
    have hprops' : ∀ q ∈ props, ((w.withProperty e p.1 p.2).property? e q.1).isSome := fun q hq ↦ by
      rw [hstep]
      split
      · rfl
      · exact hprops q (List.mem_cons_of_mem p hq)
    have hdepth' := (World.Rewritten.withProperty w e p.1 p.2).depth_eq.symm ▸ hdepth
    calc
      setAll e (p :: props ++ rest) w = setAll e (props ++ rest) (w.withProperty e p.1 p.2) := by
        simp only [List.cons_append, setAll, bind_run, set_run h hdepth (hprops p List.mem_cons_self)]
      _ = setAll e rest (w.withProperties e (p :: props)) := ih (h.withProperty p.1 p.2) hdepth' hprops'

theorem advance_run [Dispatch] (hdepth : 0 < w.depth) (id : SignalId) :
    Signal.advance id w = .ok () (w.advanced id) := by
  cases hdisposed : (w.signal id).disposed with
  | false => simp only [Signal.advance, bind_run, get_run, set_in_batch hdisposed hdepth, pure_run, World.advanced]
  | true =>
    simp only [Signal.advance, Signal.set, bind_run, get_run, hdisposed, if_true, pure_run, World.advanced,
      World.assigned, Bool.true_or]

/-- Tells the store of a property, if there is somebody to tell. -/
def tellStore [Dispatch] (e : EntityRef) (prop : String) : Act Unit := do
  if (← get).isStoreHeld e.store then propertyChanged e prop

/-- Within a batch a new property is added and counted, and then the store is told of it. -/
theorem set_new_run [Dispatch] (h : w.Writable e) (hdepth : 0 < w.depth) {prop : String}
    (hprop : w.property? e prop = none) (v : Value) :
    Entity.set e prop v w = (do tellStore e prop; return Except.ok ()) (w.withNewProperty e prop v) := by
  have hnone : (w.entity e).props.get? prop = none := by
    rwa [World.property?, Option.map_eq_none_iff] at hprop
  have hadvance : Signal.advance (w.entity e).shape (w.addProperty e prop v).2 =
      .ok () (w.withNewProperty e prop v) := advance_run (w := (w.addProperty e prop v).2) hdepth _
  simp only [Entity.set, define, tellStore, bind_run, get_run, h.live, Bool.not_true, Bool.false_eq_true,
    if_false, hnone, modifyGet_run, hadvance]
  by_cases hheld : (w.withNewProperty e prop v).isStoreHeld e.store = true
  · simp only [hheld, if_true, bind_run]
    cases propertyChanged e prop (w.withNewProperty e prop v) <;> rfl
  · simp only [hheld]
    rfl

/-- The store is told of a new property before the properties after it in an update are written, when those
before it and the new one itself read what was written. -/
theorem setAll_append_new [Dispatch] (h : w.Writable e) (hdepth : 0 < w.depth) {props : List (String × Value)}
    (hprops : ∀ p ∈ props, (w.property? e p.1).isSome) {prop : String} (hprop : w.property? e prop = none)
    (v : Value) (rest : List (String × Value)) : setAll e (props ++ (prop, v) :: rest) w =
      (do tellStore e prop; setAll e rest) ((w.withProperties e props).withNewProperty e prop v) := by
  have hrewritten := World.Rewritten.withProperties w e props
  have hnew : (w.withProperties e props).property? e prop = none := by
    rw [World.property?_withProperties h hprops, hprop, Option.or_none, Option.map_eq_none_iff,
      List.find?_eq_none]
    intro p hp
    have hne : p.1 ≠ prop := fun heq ↦ by
      have hsome := hprops p (List.mem_reverse.mp hp)
      rw [heq, hprop] at hsome
      exact Bool.noConfusion hsome
    simpa using hne
  rw [setAll_append h hdepth hprops]
  simp only [setAll, bind_run, set_new_run (h.withProperties props) (hrewritten.depth_eq.symm ▸ hdepth) hnew]
  cases tellStore e prop ((w.withProperties e props).withNewProperty e prop v) <;> rfl

end Entity

namespace Store

open Act

variable {w : World} {e : EntityRef} {s : StoreId} {uri : Uri} {props : List (String × Value)}

/-- An update of properties that are there already is one change: nobody is told and nothing is computed
before all of them read what was written to them last. -/
theorem update_eq [Dispatch] (hfind : w.find? s uri = some e) (h : w.Writable e)
    (hprops : ∀ p ∈ props, (w.property? e p.1).isSome) :
    update s uri props w = (do flushOutside; return Except.ok true) (w.withProperties e props) := by
  have hin : (w.setDepth (w.depth + 1)).Writable e :=
    ⟨h.live, h.separate.setDepth _, h.shape_lt, h.shape_ne⟩
  have hall : Entity.setAll e props (w.setDepth (w.depth + 1)) =
      .ok (.ok ()) ((w.withProperties e props).setDepth (w.depth + 1)) := by
    have hrun := Entity.setAll_append hin (Nat.succ_pos _) hprops []
    rwa [List.append_nil, w.withProperties_setDepth] at hrun
  have hbody : (do return (← Entity.setAll e props).map fun _ ↦ true : Act (Except Fault Bool))
      (w.setDepth (w.depth + 1)) = .ok (.ok true) ((w.withProperties e props).setDepth (w.depth + 1)) := by
    simp only [bind_run, hall]
    rfl
  have hdone : ((w.withProperties e props).setDepth (w.depth + 1)).setDepth w.depth = w.withProperties e props := by
    rw [World.setDepth_setDepth, ← (World.Rewritten.withProperties w e props).depth_eq, World.setDepth_depth]
  have hbatch := batch_run hbody
  rw [World.depth_setDepth, Nat.add_sub_cancel, hdone] at hbatch
  have hupdate : update s uri props w =
      batch (do return (← Entity.setAll e props).map fun _ ↦ true) w := by
    simp only [update, bind_run, get_run, hfind]
  exact hupdate.trans hbatch

end Store

end LiveGraph
