import LiveGraph.Proofs.Breakpoint.Scene
import LiveGraph.Proofs.Index.Writing
import LiveGraph.Proofs.Snapshot.Adding
import LiveGraph.Proofs.Snapshot.Loading

/-!
# Updating a store that nobody listens to

To write properties of an entity, to add entities and to link them does to what the store holds what the same does to
a snapshot. Each step comes to an end, and leaves at most one notification for each property that it writes. When the
batch that they are part of ends, the store is told of those, and what it holds stays.
-/

namespace LiveGraph

open Act World

variable {own : String → Prop} {δ : Definitions} {β : Background} {w w' w'' : World} {e : EntityRef} {prop : String}
variable {v : Value} {n : Nat}

/-! ## What a written property does to the contents -/

namespace Retold

variable (h : Retold w w' e prop v)
include h

theorem find?_eq : w'.find? 0 = w.find? 0 :=
  funext fun uri ↦ by rw [World.find?, h.live_eq, World.find?]

/-- One entity has another value, and all others are told of as before. -/
theorem specOf_eq {e' : EntityRef} (he' : e'.store = 0) (hcurrent' : w.isCurrent e') :
    w'.specOf e' = if e = e' then (w.specOf e').withValue (prop, v) else w.specOf e' := by
  have hfind (name : String) : (w'.specOf e').props.find? (·.1 = name) =
      if e = e' ∧ prop = name then some (name, v) else (w.specOf e').props.find? (·.1 = name) := by
    rw [World.find?_specOf, h.property?_eq e' he' hcurrent' name, World.find?_specOf]
    split <;> rfl
  have huri : (w'.specOf e').uri = (w.specOf e').uri := h.uri_eq e' he' hcurrent'
  have hkind : (w'.specOf e').kind = (w.specOf e').kind := h.kind_eq e' he' hcurrent'
  by_cases heq : e = e'
  · rw [if_pos heq]
    refine EntitySpec.ext huri hkind (eq_of_find?_eq (w'.pairwise_properties e') (EntitySpec.pairwise_normal _)
      fun name ↦ ?_)
    refine (hfind name).trans (Eq.trans ?_ (EntitySpec.find?_withValue (w.specOf e') (prop, v) name).symm)
    by_cases hname : prop = name
    · rw [if_pos ⟨heq, hname⟩, if_pos hname, hname]
    · rw [if_neg fun hboth ↦ hname hboth.2, if_neg hname]
  · rw [if_neg heq]
    refine EntitySpec.ext huri hkind (eq_of_find?_eq (w'.pairwise_properties e') (w.pairwise_properties e')
      fun name ↦ ?_)
    exact (hfind name).trans (if_neg fun hboth ↦ heq hboth.1)

theorem contents_eq (hcoherent : (w.store 0).Coherent) (hcoherent' : (w'.store 0).Coherent) (he : e.store = 0)
    (hcurrent : w.isCurrent e) : w'.contents 0 = (w.contents 0).withValues (w.uriOf e) [(prop, v)] := by
  have hbyAge := World.byAge_congr hcoherent hcoherent' fun e' he' ↦ by rw [h.isCurrent_eq e' he']
  have hentities : (w.byAge 0).map w'.specOf =
      ((w.byAge 0).map w.specOf).map fun x ↦ if x.uri = w.uriOf e then x.withValues [(prop, v)] else x := by
    rw [List.map_map]
    refine List.map_congr_left fun e' he' ↦ ?_
    obtain ⟨hstore', hcurrent'⟩ := (World.mem_byAge hcoherent).mp he'
    have hiff : e = e' ↔ (w.specOf e').uri = w.uriOf e :=
      ⟨fun heq ↦ heq ▸ rfl, fun huri ↦ World.eq_of_isCurrent (he.trans hstore'.symm) hcurrent hcurrent' huri.symm⟩
    rw [h.specOf_eq hstore' hcurrent', Function.comp_apply]
    exact if_congr hiff rfl rfl
  rw [World.contents, hbyAge, hentities, h.edges_eq]
  rfl

end Retold

/-! ## What is done step by step -/

/-- A store that nobody listens to, with all its indices right. -/
structure Unheeded (own : String → Prop) (δ : Definitions) (β : Background) (w : World) : Prop
    extends Editable own δ β w where
  added_eq : (w.store 0).listeners.added.entries = []
  edgeAdded_eq : (w.store 0).listeners.edgeAdded.entries = []
  updated_eq : (w.store 0).listeners.updated.entries = []

theorem Unheeded.confined (h : Unheeded own δ β w) (hconfined : Confined w w') (heditable : Editable own δ β w') :
    Unheeded own δ β w' := by
  refine ⟨heditable, ?_, ?_, ?_⟩ <;> rw [hconfined.listeners_eq]
  · exact h.added_eq
  · exact h.edgeAdded_eq
  · exact h.updated_eq

theorem Unheeded.setDepth (h : Unheeded own δ β w) (d : Nat) : Unheeded own δ β (w.setDepth d) :=
  ⟨h.toEditable.setDepth d, h.added_eq, h.edgeAdded_eq, h.updated_eq⟩

theorem Unheeded.stocked (h : Unheeded own δ β w) : Stocked 0 w where
  lt_size := h.ground.stores_size ▸ Nat.one_pos
  coherent := h.ground.coherent
  clocks_eq := h.indexed.behind.noClocks
  added_eq := h.added_eq
  edgeAdded_eq := h.edgeAdded_eq
  lt_signals e he hcurrent prop id hid := (h.writable e he hcurrent).1.separate.lt_size prop id hid

/-- A change of a store that nobody listens to, and how many notifications wait because of it. -/
structure Updated (own : String → Prop) (δ : Definitions) (β : Background) (n : Nat) (w w' : World) : Prop
    extends Confined w w' where
  unheeded : Unheeded own δ β w'
  owes : ∀ m, w.Owes m → w'.Owes (m + n)

namespace Updated

variable {n' : Nat}

theorem refl (h : Unheeded own δ β w) : Updated own δ β 0 w w :=
  ⟨.refl w, h, fun _ howes ↦ howes⟩

theorem trans (h : Updated own δ β n w w') (h' : Updated own δ β n' w' w'') : Updated own δ β (n + n') w w'' :=
  ⟨h.toConfined.trans h'.toConfined, h'.unheeded, fun m howes ↦ by
    rw [← Nat.add_assoc]
    exact h'.owes _ (h.owes m howes)⟩

theorem mono (h : Updated own δ β n w w') (hle : n ≤ n') : Updated own δ β n' w w' :=
  ⟨h.toConfined, h.unheeded, fun m howes ↦
    ⟨Nat.le_trans (h.owes m howes).length_le (Nat.add_le_add_left hle m), (h.owes m howes).watched⟩⟩

theorem setDepth (h : Updated own δ β n w w') (d : Nat) : Updated own δ β n (w.setDepth d) (w'.setDepth d) :=
  ⟨h.toConfined.setDepth d, h.unheeded.setDepth d, fun m howes ↦
    have howes' := h.owes m ⟨howes.length_le, howes.watched⟩
    ⟨howes'.length_le, howes'.watched⟩⟩

theorem grown (h : Unheeded own δ β w) (hgrown : Grown 0 w w') : Updated own δ β 0 w w' :=
  ⟨hgrown.confined, h.confined hgrown.confined (hgrown.editable rfl _ _ _ h.toEditable), fun _ ↦
    hgrown.confined.owes hgrown.effects_eq⟩

end Updated

namespace Unheeded

section Run

variable [Dispatch] (h : Unheeded own δ β w) (hdepth : 0 < w.depth)
include h hdepth

/-- Properties are written one after the other. -/
theorem ends_setAll (he : e.store = 0) (hcurrent : w.isCurrent e) (props : List (String × Value)) :
    (Entity.setAll e props).Ends w fun r w' ↦ r = .ok () ∧ Updated own δ β props.length w w' ∧
      w'.find? 0 = w.find? 0 ∧ w'.contents 0 = (w.contents 0).withValues (w.uriOf e) props := by
  induction props generalizing w with
  | nil => exact ends_pure ⟨rfl, .refl h, rfl, (Snapshot.withValues_nil _ _).symm⟩
  | cons p rest ih =>
    refine (h.ends_set h.updated_eq hdepth he hcurrent p.1 p.2).bind fun r w₁ hset ↦ ?_
    obtain ⟨rfl, heditable, hwrote⟩ := hset
    obtain ⟨hcurrent₁, huri⟩ := hwrote.kept e he hcurrent
    have h₁ : Unheeded own δ β w₁ := h.confined hwrote.toConfined heditable
    have hfirst : Updated own δ β 1 w w₁ := ⟨hwrote.toConfined, h₁, fun m ↦ hwrote.owes⟩
    have hcontents := hwrote.toRetold.contents_eq h.ground.coherent heditable.ground.coherent he hcurrent
    refine (ih h₁ (hwrote.depth_eq ▸ hdepth) hcurrent₁).mono fun r w' hrest ↦ ?_
    obtain ⟨rfl, hupdated, hfind, hdone⟩ := hrest
    refine ⟨rfl, ?_, hfind.trans hwrote.toRetold.find?_eq, ?_⟩
    · rw [List.length_cons, Nat.add_comm]
      exact hfirst.trans hupdated
    · rw [hdone, huri, hcontents, ← Snapshot.withValues_append]
      rfl

/-- To update an entity that is there is to write its properties. -/
theorem ends_update {uri : Uri} (hfind : w.find? 0 uri = some e) (props : List (String × Value)) :
    (Store.update 0 uri props).Ends w fun r w' ↦ r = .ok true ∧ Updated own δ β props.length w w' ∧
      w'.find? 0 = w.find? 0 ∧ w'.contents 0 = (w.contents 0).withValues uri props := by
  obtain ⟨he, hcurrent, huri⟩ := Breakpoint.isCurrent_of_find? h.ground hfind
  let w₁ := w.setDepth (w.depth + 1)
  have hset := (h.setDepth (w.depth + 1)).ends_setAll (Nat.succ_pos _) he hcurrent props
  rw [Store.update]
  refine ends_get ?_
  rw [hfind]
  refine Ends.batch (P := fun r w' ↦ r = .ok true ∧ Updated own δ β props.length w₁ w' ∧ w'.find? 0 = w₁.find? 0 ∧
    w'.contents 0 = (w₁.contents 0).withValues uri props) (hset.bind fun r w' hw' ↦ ?_) fun r w' hw' ↦ ?_
  · obtain ⟨rfl, hupdated, hsame, hcontents⟩ := hw'
    exact ends_pure ⟨rfl, hupdated, hsame, huri ▸ hcontents⟩
  · obtain ⟨rfl, hupdated, hsame, hcontents⟩ := hw'
    have hback : w'.depth - 1 = w.depth := by
      rw [hupdated.depth_eq, World.depth_setDepth, Nat.add_sub_cancel]
    rw [hback]
    exact ⟨(), _, flushOutside_busy (.inl hdepth), rfl, hupdated.setDepth w.depth, hsame, hcontents⟩

end Run

end Unheeded

/-! ## As one change -/

/-- A store that nobody listens to, between two operations. -/
structure Unattended (own : String → Prop) (δ : Definitions) (β : Background) (w : World) : Prop
    extends Unheeded own δ β w where
  depth_eq : w.depth = 0
  flushing_eq : w.flushing = false
  effects_eq : w.effects = []

/-- What is changed as one change is told to the store in the end, if there are rounds enough. -/
theorem Unattended.ends_batch [D : Dispatch] {α : Type} {a : Act α} {Q : α → World → Prop} {n : Nat} (hD : Deep D)
    (h : Unattended own δ β w) (hrounds : n < D.rounds)
    (hbody : a.Ends (w.setDepth 1) fun x w' ↦ Updated own δ β n (w.setDepth 1) w' ∧ Q x w')
    (hQ : ∀ x w' w'', Q x w' → Taken (w'.setDepth 0) w'' → Q x w'') :
    (batch a).Ends w fun x w' ↦ Unattended own δ β w' ∧ Confined w w' ∧ Q x w' := by
  have hstart : w.setDepth (w.depth + 1) = w.setDepth 1 := by rw [h.depth_eq]
  have hsame : w.setDepth 0 = w := by
    rw [← h.depth_eq]
    rfl
  refine Ends.batch (P := fun x w' ↦ Updated own δ β n (w.setDepth 1) w' ∧ Q x w') (hstart ▸ hbody) fun x w' hw' ↦ ?_
  obtain ⟨hupdated, hx⟩ := hw'
  have hback : w'.depth - 1 = 0 := by rw [hupdated.depth_eq]; rfl
  have hupdated₀ : Updated own δ β n w (w'.setDepth 0) := hsame ▸ hupdated.setDepth 0
  have howes : (w'.setDepth 0).Owes n := by
    rw [← Nat.zero_add n]
    exact hupdated₀.owes 0 ⟨h.effects_eq ▸ Nat.le_refl 0, fun effect heffect ↦
      absurd (h.effects_eq ▸ heffect) List.not_mem_nil⟩
  have hflushing : (w'.setDepth 0).flushing = false := hupdated₀.flushing_eq.trans h.flushing_eq
  rw [hback]
  refine (hupdated₀.unheeded.ends_flush hD hupdated₀.unheeded.updated_eq rfl hflushing howes hrounds).mono
    fun _ w'' hw'' ↦ ?_
  obtain ⟨heditable, heffects, htaken⟩ := hw''
  refine ⟨⟨hupdated₀.unheeded.confined htaken.toConfined heditable, htaken.depth_eq,
    htaken.flushing_eq.trans hflushing, heffects⟩, hupdated₀.toConfined.trans htaken.toConfined, hQ x w' w'' hx htaken⟩

end LiveGraph
