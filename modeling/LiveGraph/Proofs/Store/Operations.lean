import LiveGraph.Proofs.Client.Basic
import LiveGraph.Proofs.Reactive.Write

/-!
# What operations on a store consist of

Every operation on a store is a series of simple changes, counts and notifications. What is known before it leads
to what is kept after it, once each part leads from what is known before that part to what is known after it.
-/

namespace LiveGraph

/-- Two worlds in which the same waits to be done. -/
structure World.Quiet (w w' : World) : Prop where
  depth_eq : w'.depth = w.depth
  flushing_eq : w'.flushing = w.flushing
  queue_eq : w'.queue = w.queue
  effects_eq : w'.effects = w.effects

section Quiet

variable {I I' : World → Prop} {d : Nat} {f : Bool} {w w' : World}

theorem World.Quiet.refl (w : World) : w.Quiet w := ⟨rfl, rfl, rfl, rfl⟩

theorem World.Quiet.trans {w w' w'' : World} (h : w.Quiet w') (h' : w'.Quiet w'') : w.Quiet w'' :=
  ⟨h'.depth_eq.trans h.depth_eq, h'.flushing_eq.trans h.flushing_eq,
    h'.queue_eq.trans h.queue_eq, h'.effects_eq.trans h.effects_eq⟩

theorem World.Quiet.foldl {α : Type} {F : World → α → World}
    (h : ∀ (w : World) x, w.Quiet (F w x))
    (w : World) (xs : List α) : w.Quiet (xs.foldl F w) := by
  induction xs generalizing w with
  | nil => exact .refl w
  | cons x xs ih => exact (h w x).trans (ih (F w x))

theorem Held.quiet (h : Held I d f w) (hq : w.Quiet w') (hI : I' w') : Held I' d f w' :=
  ⟨hI, hq.depth_eq.trans h.depth_eq, hq.flushing_eq.trans h.flushing_eq⟩

theorem At.quiet (h : At I d f w) (hq : w.Quiet w') (hI : I' w') : At I' d f w' := by
  refine ⟨h.toHeld.quiet hq hI, fun hdepth hflushing ↦ ?_⟩
  rw [hq.depth_eq] at hdepth
  rw [hq.flushing_eq] at hflushing
  rw [hq.queue_eq, hq.effects_eq]
  exact h.idle hdepth hflushing

end Quiet

namespace World

variable (w : World) (e : EntityRef)

/-- A signal that an entity keeps a property in, or the number of its properties. -/
def PartOf (id : SignalId) : Prop :=
  id = (w.entity e).shape ∨ ∃ prop, (w.entity e).props.get? prop = some id

theorem quiet_disposeSignal (id : SignalId) : w.Quiet (w.disposeSignal id) := by
  unfold disposeSignal
  split
  · exact .refl w
  · exact ⟨rfl, rfl, rfl, rfl⟩

theorem quiet_addProperty (prop : String) (v : Value) : w.Quiet (w.addProperty e prop v).2 :=
  ⟨rfl, rfl, rfl, rfl⟩

theorem shape_addProperty (prop : String) (v : Value) :
    ((w.addProperty e prop v).2.entity e).shape = (w.entity e).shape := by
  let w₁ := ((w.addSignal v .same (.entity e)).2.subscribe (.signal w.signals.size) (.property e prop)).2
  change ((w₁.modifyEntity e _).entity e).shape = (w₁.entity e).shape
  rw [entity, modifyEntity, store_modifyStore]
  split
  · refine (congrArg Entity.shape (getD_modify _ _ _ _ _)).trans ?_
    split <;> rfl
  · rfl

theorem quiet_addIncarnation (s : StoreId) (uri : Uri) (kind : String) :
    w.Quiet (w.addIncarnation s uri kind).2 := ⟨rfl, rfl, rfl, rfl⟩

theorem quiet_enlist : w.Quiet (w.enlist e) := ⟨rfl, rfl, rfl, rfl⟩

theorem quiet_reindex : w.Quiet (w.reindex e).2 := ⟨rfl, rfl, rfl, rfl⟩

theorem entity_reindex (e' : EntityRef) : (w.reindex e).2.entity e' = w.entity e' :=
  congrArg (fun incarnations : Array Entity ↦ incarnations.getD (e'.serial - 1) default)
    (w.part_modifyStore (·.incarnations) (by intro; rfl) e.store e'.store)

/-- Where an entity is filed has nothing to do with whether it can be found. -/
theorem isCurrent_reindex (e' : EntityRef) : (w.reindex e).2.isCurrent e' = w.isCurrent e' := by
  have hlive : ((w.reindex e).2.store e'.store).live = (w.store e'.store).live :=
    w.part_modifyStore (·.live) (by intro; rfl) e.store e'.store
  rw [isCurrent, hlive, uriOf, entity_reindex, isCurrent, uriOf]

theorem quiet_strike : w.Quiet (w.strike e).2 := ⟨rfl, rfl, rfl, rfl⟩

theorem quiet_modifyStore (s : StoreId) (F : Store → Store) : w.Quiet (w.modifyStore s F) :=
  ⟨rfl, rfl, rfl, rfl⟩

theorem quiet_retire : w.Quiet (w.retire e) := by
  have hlive : w.Quiet (w.modifyEntity e fun x ↦ { x with live := false }) := ⟨rfl, rfl, rfl, rfl⟩
  have hprops := World.Quiet.foldl (F := disposeSignal) quiet_disposeSignal
    (w.modifyEntity e fun x ↦ { x with live := false }) (w.entity e).props.values
  exact (hlive.trans hprops).trans (quiet_disposeSignal _ (w.entity e).shape)

theorem quiet_retireClocks (s : StoreId) (uri : Uri) : w.Quiet (w.retireClocks s uri) := by
  unfold retireClocks
  dsimp only
  split <;> exact ⟨rfl, rfl, rfl, rfl⟩

theorem quiet_putIndex (s : StoreId) (name kind : String) (x : Extractor) :
    w.Quiet (w.putIndex s name kind x) := ⟨rfl, rfl, rfl, rfl⟩

end World

/-- What an operation may end with: it outlasts the batch, and a flush if one follows. -/
structure Concluding (L : World → Prop) (D D' : Dispatch) (C : World → Prop) (d : Nat) (f : Bool) : Prop where
  depthFree : DepthFree L
  crash : DepthFree C
  flush : d = 0 → f = false →
    Act.Agree (Held L 0 false) (@flush D) (@flush D') (fun _ ↦ At L 0 false) C

/-- What is kept while changes of some topics are counted, one after the other. -/
structure Counting (s : StoreId) (K : List Topic → World → Prop) : Prop where
  depthFree : ∀ ks, DepthFree (K ks)
  count : ∀ key ks w, K (.clock s key :: ks) w → K ks (w.counted (.clock s key))

/-- What is known of an entity that cannot be found yet, by the properties it was given. -/
structure Coming (K : List (String × Value) → World → Prop) (s : StoreId) (e : EntityRef) :
    Prop where
  depthFree : ∀ props, DepthFree (K props)
  hidden : ∀ props w, K props w → e.store = s ∧ (w.entity e).live = true ∧ w.isCurrent e = false
  given : ∀ props w prop v, K props w → (w.entity e).props.get? prop = none →
    K (props ++ [(prop, v)]) ((w.addProperty e prop v).2.advanced (w.entity e).shape)
  kept : ∀ props w prop v id, K props w → (w.entity e).props.get? prop = some id →
    K (props ++ [(prop, v)]) w

open Act

variable {D D' : Dispatch} {s : StoreId} {d : Nat} {f : Bool} {I L C : World → Prop} {e : EntityRef}

namespace Concluding

variable {α : Type} {a b : Act α} (h : Concluding L D D' C d f) (hI : DepthFree I)
include h hI

/-- A batch is kept by what it consists of. -/
theorem agree_batch_result {R : α → Prop}
    (hbody : Agree (Held I (d + 1) f) a b (fun x w ↦ R x ∧ Held L (d + 1) f w) C) :
    Agree (Held I d f) (@batch D α a) (@batch D' α b) (fun x w ↦ R x ∧ At L d f w) C :=
  Act.agree_batch_result hI h.depthFree hbody h.flush fun w hw ↦ h.crash w _ hw

theorem agree_batch (hbody : Agree (Held I (d + 1) f) a b (fun _ ↦ Held L (d + 1) f) C) :
    Agree (Held I d f) (@batch D α a) (@batch D' α b) (fun _ ↦ At L d f) C :=
  Act.agree_batch hI h.depthFree hbody h.flush fun w hw ↦ h.crash w _ hw

end Concluding

theorem Counting.agree_bumpAll {K : List Topic → World → Prop} (h : Counting s K) (D D' : Dispatch)
    (keys : List ClockKey) (ks : List Topic) :
    Agree (Held (K (keys.map (.clock s) ++ ks)) (d + 1) f) (@Store.bumpAll D s keys) (@Store.bumpAll D' s keys)
      (fun _ ↦ Held (K ks) (d + 1) f) C :=
  Act.agree_bumpAll h.depthFree h.count keys ks

namespace Act

/-- The topics of some edges. -/
def edgeTopics (s : StoreId) (edges : List Edge) : List Topic :=
  edges.flatMap fun edge ↦ (Store.edgeClocks edge).map (.clock s)

/-- Telling of removed edges, one after the other, counts each of them first. -/
theorem agree_tellCut {K : List Edge → List Topic → World → Prop} (hK : ∀ edges, Counting s (K edges))
    (hcut : ∀ edge rest ks, Agree (Held (K (edge :: rest) ks) (d + 1) f)
      (@notify D (.store s .edgeRemoved) (.edge .edgeRemoved edge))
      (@notify D' (.store s .edgeRemoved) (.edge .edgeRemoved edge)) (fun _ ↦ Held (K rest ks) (d + 1) f) C)
    (edges : List Edge) (ks : List Topic) :
    Agree (Held (K edges (edgeTopics s edges ++ ks)) (d + 1) f) (@Store.tellCut D s edges) (@Store.tellCut D' s edges)
      (fun _ ↦ Held (K [] ks) (d + 1) f) C := by
  induction edges with
  | nil => exact agree_pure fun _ hw ↦ hw
  | cons edge rest ih =>
    have hbumped := (hK (edge :: rest)).agree_bumpAll (d := d) (f := f) (C := C) D D' (Store.edgeClocks edge)
      (edgeTopics s rest ++ ks)
    refine agree_bind (hbumped.pre fun w hw ↦ ?_) fun _ ↦ agree_bind (hcut edge rest _) fun _ ↦ ih
    rwa [edgeTopics, List.flatMap_cons, List.append_assoc] at hw

/-- All properties of an entity that is being added are taken. -/
theorem agree_defineAll {K : List (String × Value) → World → Prop} (hK : Coming K s e)
    (given props : List (String × Value)) :
    Agree (Held (K given) (d + 1) f) (@Store.add.defineAll D e props)
      (@Store.add.defineAll D' e props)
      (fun r w ↦ r = .ok () ∧ Held (K (given ++ props)) (d + 1) f w) C := by
  induction props generalizing given with
  | nil => exact agree_pure fun _ hw ↦ ⟨rfl, by rwa [List.append_nil]⟩
  | cons p rest ih =>
    obtain ⟨prop, v⟩ := p
    let P := Held (K (given ++ [(prop, v)])) (d + 1) f
    have hdefine : Agree (Held (K given) (d + 1) f) (@Entity.define D e prop v)
        (@Entity.define D' e prop v) (fun r w ↦ (∃ id, r = .ok id) ∧ P w) C := by
      refine agree_get fun w hw ↦ ?_
      obtain ⟨he, hlive, -⟩ := hK.hidden given w hw.holds
      refine agree_ite (fun hdead ↦ by simp [hlive] at hdead) fun _ ↦ ?_
      split
      · rename_i id hid
        refine agree_pure fun w' hw' ↦ ?_
        subst hw'
        exact ⟨⟨id, rfl⟩, hK.kept given w' prop v id hw.holds hid, hw.depth_eq, hw.flushing_eq⟩
      · rename_i hnone
        let w₁ := (w.addProperty e prop v).2
        have hw₁ : At (· = w₁) (d + 1) f w₁ :=
          (hw.quiet (w.quiet_addProperty e prop v) rfl : Held (· = w₁) (d + 1) f w₁).at_busy
            (.inl (Nat.succ_pos d))
        refine agree_bind (agree_modifyGet (Q := fun _ ↦ (· = w₁)) fun w' hw' ↦ ?_) fun id ↦ ?_
        · rw [hw']
        · refine agree_bind (agree_advance (C := C) (hK.depthFree _) hw₁
            (hK.given given w prop v hw.holds hnone) fun hd ↦ absurd hd (Nat.succ_ne_zero d))
            fun _ ↦ agree_get fun w₂ hw₂ ↦ ?_
          refine agree_ite (fun _ ↦ ?_) fun _ ↦ ?_
          · refine agree_bind (Q := fun _ ↦ P) (agree_get fun w₃ hw₃ ↦ ?_) fun _ ↦
              agree_pure fun w' hw' ↦ ⟨⟨_, rfl⟩, hw'⟩
            subst hw₃
            rw [(hK.hidden _ w₃ hw₂.holds).2.2]
            exact agree_pure fun w' hw' ↦ hw' ▸ hw₂.toHeld
          · exact agree_pure fun w' hw' ↦ hw' ▸ ⟨⟨_, rfl⟩, hw₂.toHeld⟩
    refine agree_bind hdefine fun r ↦ ?_
    cases r with
    | error why => exact fun w hw ↦ absurd hw.1 (by simp)
    | ok id =>
      have hrest := ih (given ++ [(prop, v)])
      rw [List.append_assoc, List.singleton_append] at hrest
      exact hrest.pre fun w hw ↦ hw.2

/-- What is not there can be added, from what is known before to what is kept from then on. -/
theorem agree_add {K : List (String × Value) → World → Prop} {A : List Topic → World → Prop}
    (hend : Concluding L D D' C d f) (spec : EntitySpec) (hI : DepthFree I) (hK : Coming K s e) (hA : Counting s A)
    (hnew : ∀ w, I w → w.contains s spec.uri = false ∧
      (w.addIncarnation s spec.uri spec.kind).1 = e ∧ K [] (w.addIncarnation s spec.uri spec.kind).2)
    (hfiled : ∀ w, K spec.props w →
      A ((.presence spec.uri :: .kind spec.kind :: ((w.enlist e).reindex e).1.map .index).map (.clock s))
        ((w.enlist e).reindex e).2)
    (hadded : Agree (Held (A []) (d + 1) f) (@notify D (.store s .added) (.entity .added e))
      (@notify D' (.store s .added) (.entity .added e)) (fun _ ↦ Held L (d + 1) f) C) :
    Agree (Held I d f) (@Store.add D s spec) (@Store.add D' s spec) (fun r w ↦ r = .ok e ∧ At L d f w) C := by
  refine hend.agree_batch_result hI (agree_get fun w hw ↦ ?_)
  obtain ⟨hfree, he, hcoming⟩ := hnew w hw.holds
  refine agree_ite (fun htaken ↦ absurd (hfree.symm.trans htaken) Bool.false_ne_true) fun _ ↦ ?_
  refine agree_bind (agree_modifyGet (Q := fun e' w ↦ e' = e ∧ Held (K []) (d + 1) f w) fun w' hw' ↦ ?_) fun e' ↦ ?_
  · subst hw'
    exact ⟨he, hw.quiet (w'.quiet_addIncarnation s spec.uri spec.kind) hcoming⟩
  intro w hw
  obtain ⟨rfl, hw⟩ := hw
  refine agree_bind (agree_defineAll hK [] spec.props) (fun r ↦ ?_) w hw
  cases r with
  | error why => exact fun w hw ↦ by cases hw.1
  | ok _ =>
    refine agree_bind (agree_modify (Q := fun _ w' ↦ ∃ w, Held (K spec.props) (d + 1) f w ∧ w' = w.enlist e')
      fun w hw ↦ ⟨w, hw.2, rfl⟩) fun _ ↦ ?_
    refine agree_bind (agree_modifyGet (Q := fun touched ↦ Held
      (A ((.presence spec.uri :: .kind spec.kind :: touched.map .index).map (.clock s))) (d + 1) f)
      fun w' hw' ↦ ?_) fun touched ↦ ?_
    · obtain ⟨w, hw, rfl⟩ := hw'
      exact hw.quiet ((w.quiet_enlist e').trans (World.quiet_reindex _ e')) (hfiled w hw.holds)
    · have hbumped := hA.agree_bumpAll (d := d) (f := f) (C := C) D D'
        (.presence spec.uri :: .kind spec.kind :: touched.map .index) []
      rw [List.append_nil] at hbumped
      exact agree_bind hbumped fun _ ↦ agree_bind hadded fun _ ↦ agree_pure fun _ hw ↦ ⟨rfl, hw⟩

/-- What is there can be removed, from what is known before to what is kept from then on. -/
theorem agree_remove {K : EntityRef → List Edge → List Topic → World → Prop} (hend : Concluding L D D' C d f) (uri : Uri)
    (hI : DepthFree I) (hK : ∀ e edges, Counting s (K e edges))
    (habsent : ∀ w, I w → w.find? s uri = none → L w)
    (hstrike : ∀ w e, I w → w.find? s uri = some e → K e (w.strike e).1.1 (edgeTopics s (w.strike e).1.1 ++
        (.presence uri :: .kind (w.kindOf e) :: (w.strike e).1.2.map .index).map (.clock s))
      ((w.strike e).2.retire e))
    (hcut : ∀ e edge rest ks, Agree (Held (K e (edge :: rest) ks) (d + 1) f)
      (@notify D (.store s .edgeRemoved) (.edge .edgeRemoved edge))
      (@notify D' (.store s .edgeRemoved) (.edge .edgeRemoved edge)) (fun _ ↦ Held (K e rest ks) (d + 1) f) C)
    (hremoved : ∀ e, e.store = s → Agree (Held (K e [] []) (d + 1) f)
      (@notify D (.store s .removed) (.entity .removed e))
      (@notify D' (.store s .removed) (.entity .removed e)) (fun _ ↦ Held L (d + 1) f) C)
    (hretire : ∀ w, L w → L (w.retireClocks s uri)) :
    Agree (Held I d f) (@Store.remove D s uri) (@Store.remove D' s uri) (fun _ ↦ At L d f) C := by
  refine hend.agree_batch hI (agree_get fun w hw ↦ ?_)
  split
  · rename_i hnone
    exact agree_pure fun w' hw' ↦ hw' ▸ ⟨habsent w hw.holds hnone, hw.depth_eq, hw.flushing_eq⟩
  rename_i e hfound
  have he : e.store = s := by
    obtain ⟨_, -, rfl⟩ := Option.map_eq_some_iff.mp hfound
    rfl
  refine agree_get fun w' hw' ↦ ?_
  subst hw'
  refine agree_bind (agree_changeGet (·.strike e)) fun x ↦ ?_
  obtain ⟨cut, touched⟩ := x
  refine agree_bind (agree_modify (Q := fun _ ↦ Held (K e cut (edgeTopics s cut ++
    (.presence uri :: .kind (w'.kindOf e) :: touched.map .index).map (.clock s))) (d + 1) f) fun w'' hw'' ↦ ?_)
    fun _ ↦ ?_
  · obtain ⟨hx, rfl⟩ := hw''
    have hstruck := hstrike w' e hw.holds hfound
    rw [← hx] at hstruck
    exact hw.quiet ((w'.quiet_strike e).trans (World.quiet_retire _ e)) hstruck
  · refine agree_bind (agree_tellCut (hK e) (hcut e) cut _) fun _ ↦ ?_
    have hbumped := (hK e []).agree_bumpAll (d := d) (f := f) (C := C) D D'
      (.presence uri :: .kind (w'.kindOf e) :: touched.map .index) []
    rw [List.append_nil] at hbumped
    refine agree_bind hbumped fun _ ↦ agree_bind (hremoved e he) fun _ ↦ ?_
    refine agree_bind (agree_modify (Q := fun _ ↦ Held L (d + 1) f) fun w hw ↦ ?_) fun _ ↦ agree_pure fun _ hw ↦ hw
    exact hw.quiet (w.quiet_retireClocks s uri) (hretire w hw.holds)

/-- Entities can be linked, from what is known before to what is kept from then on. -/
theorem agree_link {K : List Topic → World → Prop} (hend : Concluding L D D' C d f) (edge : Edge) (atFront : Bool)
    (hI : DepthFree I) (hK : Counting s K)
    (habsent : ∀ w, I w → (w.contains s edge.source ∧ w.contains s edge.target →
      (w.store s).edges.insert? edge atFront = none) → L w)
    (hlink : ∀ w edges, I w → w.contains s edge.source → w.contains s edge.target →
      (w.store s).edges.insert? edge atFront = some edges →
      K ((Store.edgeClocks edge).map (.clock s)) (w.modifyStore s fun s ↦ { s with edges := edges }))
    (hlinked : Agree (Held (K []) (d + 1) f) (@notify D (.store s .edgeAdded) (.edge .edgeAdded edge))
      (@notify D' (.store s .edgeAdded) (.edge .edgeAdded edge)) (fun _ ↦ Held L (d + 1) f) C) :
    Agree (Held I d f) (@Store.link D s edge atFront) (@Store.link D' s edge atFront) (fun _ ↦ At L d f) C := by
  refine hend.agree_batch hI (agree_get fun w hw ↦ ?_)
  have hkept (hnone : w.contains s edge.source ∧ w.contains s edge.target →
      (w.store s).edges.insert? edge atFront = none) : Held L (d + 1) f w :=
    ⟨habsent w hw.holds hnone, hw.depth_eq, hw.flushing_eq⟩
  refine agree_ite (fun hends ↦ ?_) fun hends ↦ ?_
  · have hends : ¬(w.contains s edge.source ∧ w.contains s edge.target) := by
      simpa [Decidable.imp_iff_not_or] using hends
    exact agree_pure fun w' hw' ↦ hw' ▸ hkept fun h ↦ absurd h hends
  have hends : w.contains s edge.source ∧ w.contains s edge.target := by simpa using hends
  split
  · rename_i hnone
    exact agree_pure fun w' hw' ↦ hw' ▸ hkept fun _ ↦ hnone
  · rename_i edges hinsert
    refine agree_bind (agree_modify (Q := fun _ ↦ Held (K ((Store.edgeClocks edge).map (.clock s))) (d + 1) f)
      fun w' hw' ↦ ?_) fun _ ↦ ?_
    · subst hw'
      exact hw.quiet (w'.quiet_modifyStore s _) (hlink w' edges hw.holds hends.1 hends.2 hinsert)
    · have hbumped := hK.agree_bumpAll (d := d) (f := f) (C := C) D D' (Store.edgeClocks edge) []
      rw [List.append_nil] at hbumped
      exact agree_bind hbumped fun _ ↦ agree_bind hlinked fun _ ↦ agree_pure fun _ hw ↦ hw

/-- An edge can be removed, from what is known before to what is kept from then on. -/
theorem agree_unlink {K : List Edge → List Topic → World → Prop} (hend : Concluding L D D' C d f) (edge : Edge)
    (hI : DepthFree I) (hK : ∀ edges, Counting s (K edges))
    (habsent : ∀ w, I w → (w.store s).edges.remove? edge = none → L w)
    (hunlink : ∀ w edges, I w → (w.store s).edges.remove? edge = some edges →
      K [edge] (edgeTopics s [edge]) (w.modifyStore s fun s ↦ { s with edges := edges }))
    (hcut : ∀ edge rest ks, Agree (Held (K (edge :: rest) ks) (d + 1) f)
      (@notify D (.store s .edgeRemoved) (.edge .edgeRemoved edge))
      (@notify D' (.store s .edgeRemoved) (.edge .edgeRemoved edge)) (fun _ ↦ Held (K rest ks) (d + 1) f) C)
    (htold : ∀ w, K [] [] w → L w) :
    Agree (Held I d f) (@Store.unlink D s edge) (@Store.unlink D' s edge) (fun _ ↦ At L d f) C := by
  refine hend.agree_batch hI (agree_get fun w hw ↦ ?_)
  split
  · rename_i hnone
    exact agree_pure fun w' hw' ↦ hw' ▸ ⟨habsent w hw.holds hnone, hw.depth_eq, hw.flushing_eq⟩
  · rename_i edges hremove
    refine agree_bind (agree_modify (Q := fun _ ↦ Held (K [edge] (edgeTopics s [edge])) (d + 1) f) fun w' hw' ↦ ?_)
      fun _ ↦ ?_
    · subst hw'
      exact hw.quiet (w'.quiet_modifyStore s _) (hunlink w' edges hw.holds hremove)
    · have hcuts := agree_tellCut hK hcut [edge] []
      rw [List.append_nil] at hcuts
      exact agree_bind hcuts fun _ ↦ agree_pure fun _ hw ↦ hw.mono htold

end Act

end LiveGraph
