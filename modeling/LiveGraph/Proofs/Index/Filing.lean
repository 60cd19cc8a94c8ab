import LiveGraph.Proofs.Graph.Index
import LiveGraph.Proofs.Store.Backdrop
import LiveGraph.Proofs.Store.Lifetimes
import LiveGraph.Proofs.Store.Notices

/-!
# Where entities are filed

An index of the store has each live entity of its type under the key that its properties give now,
but for entities that are about to be filed and those with a property whose notification is put off.
What each step of an operation does to the entities and to the indices keeps that.
-/

namespace LiveGraph

variable {w w' : World} {u u' g g' : EntityRef → Prop} {x : Index} {e : EntityRef}

namespace World

/-- An index is right about all entities that can be found, but for those it is excused of. -/
structure Files (w : World) (unfiled : EntityRef → Prop) (x : Index) : Prop where
  mirrored : x.Mirrored
  current : ∀ (uri : Uri) (key : Value) (n : Nat), x.filed[uri]? = some (key, n) →
    w.isCurrent ⟨0, n⟩ ∧ w.uriOf ⟨0, n⟩ = uri ∧ w.kindOf ⟨0, n⟩ = x.kind
  key_eq : ∀ e : EntityRef, e.store = 0 → w.isCurrent e → w.kindOf e = x.kind → ¬unfiled e →
    ¬w.Pending e → x.keyOf? (w.uriOf e) = w.keyOf? x.extractor e

/-- There is one entity at a URI at a time. -/
theorem eq_of_isCurrent {e e' : EntityRef} (hstore : e.store = e'.store) (he : w.isCurrent e)
    (he' : w.isCurrent e') (huri : w.uriOf e = w.uriOf e') : e = e' := by
  rw [isCurrent, decide_eq_true_eq] at he he'
  rw [hstore, huri, he'] at he
  exact EntityRef.eq_of_serial hstore (Option.some.inj he).symm

namespace Files

theorem mono (h : w.Files u x) (hu : ∀ e : EntityRef, e.store = 0 → w.isCurrent e →
    w.kindOf e = x.kind → u e → u' e) : w.Files u' x :=
  ⟨h.mirrored, h.current, fun e he hcurrent hkind hnot ↦
    h.key_eq e he hcurrent hkind fun hun ↦ hnot (hu e he hcurrent hkind hun)⟩

/-- Where entities and their properties are the same, so is where they are filed. -/
theorem unmoved (h : w.Files u x) (hw : Unmoved w w' u u' g g')
    (hgone : ∀ (uri : Uri) (key : Value) (n : Nat), x.filed[uri]? = some (key, n) → ¬g' ⟨0, n⟩) :
    w'.Files u' x := by
  refine ⟨h.mirrored, fun uri key n hfiled ↦ ?_, fun e he hcurrent hkind hnot hp ↦ ?_⟩
  · obtain ⟨hcurrent, huri, hkind⟩ := h.current uri key n hfiled
    obtain ⟨huri', hkind', hkept⟩ := hw.kept ⟨0, n⟩ rfl (.inl hcurrent)
    exact ⟨hkept.resolve_right (hgone uri key n hfiled), huri'.trans huri, hkind'.trans hkind⟩
  · obtain ⟨hcurrent, hnot, hp, hproperty⟩ := hw.same e he hcurrent hnot hp
    obtain ⟨huri', hkind', -⟩ := hw.kept e he (.inl hcurrent)
    rw [huri', keyOf?, funext hproperty]
    exact h.key_eq e he hcurrent (hkind'.symm.trans hkind) hnot hp

theorem owns (h : w.Files u x) (he : e.store = 0) (hcurrent : w.isCurrent e) :
    x.Owns (w.uriOf e) e.serial := by
  intro uri key n hfiled
  obtain ⟨hcurrent', huri, -⟩ := h.current uri key n hfiled
  constructor
  · intro heq
    exact congrArg EntityRef.serial (eq_of_isCurrent he.symm hcurrent' hcurrent (huri.trans heq))
  · intro heq
    rw [← huri, show (⟨0, n⟩ : EntityRef) = e from EntityRef.eq_of_serial he.symm heq]

/-- An entity is placed under the key it has now. -/
theorem placed (h : w.Files u x) (he : e.store = 0) (hcurrent : w.isCurrent e)
    (hkind : w.kindOf e = x.kind) : w.Files (fun e' ↦ u e' ∧ e ≠ e')
      (x.placed (w.uriOf e) e.serial (w.keyOf? x.extractor e)) := by
  have howns := h.owns he hcurrent
  have hfiled := Index.filed_placed (w.keyOf? x.extractor e) howns
  obtain ⟨hkind', hextractor'⟩ :=
    x.placed_about (w.uriOf e) e.serial (w.keyOf? x.extractor e)
  refine ⟨h.mirrored.placed _ howns, fun uri key n hentry ↦ ?_, fun e' he' hcurrent' hk hnot hp ↦ ?_⟩
  · rw [hfiled] at hentry
    rw [hkind']
    split at hentry
    · rename_i huri
      obtain ⟨_, -, heq⟩ := Option.map_eq_some_iff.mp hentry
      obtain ⟨-, rfl⟩ := Prod.mk.inj heq
      rw [show (⟨0, e.serial⟩ : EntityRef) = e from EntityRef.eq_of_serial he.symm rfl]
      exact ⟨hcurrent, huri, hkind⟩
    · exact h.current uri key n hentry
  · rw [hkind'] at hk
    rw [hextractor', Index.keyOf?, Std.TreeMap.get?_eq_getElem?, hfiled]
    split
    · rename_i huri
      rw [eq_of_isCurrent (he.trans he'.symm) hcurrent hcurrent' huri, Option.map_map]
      exact Option.map_id'
    · rename_i huri
      refine h.key_eq e' he' hcurrent' hk (fun hun ↦ hnot ⟨hun, fun heq ↦ ?_⟩) hp
      rw [heq] at huri
      exact huri rfl

/-- An entity is taken out of an index that is excused of it from then on. -/
theorem without (h : w.Files u x) (he : e.store = 0) (hcurrent : w.isCurrent e) :
    w.Files (fun e' ↦ u e' ∨ e = e') (x.without (w.uriOf e)) := by
  have hfiled := x.filed_without (w.uriOf e)
  obtain ⟨hkind', hextractor'⟩ := x.without_about (w.uriOf e)
  refine ⟨h.mirrored.without _, fun uri key n hentry ↦ ?_, fun e' he' hcurrent' hk hnot hp ↦ ?_⟩
  · rw [hfiled] at hentry
    rw [hkind']
    split at hentry
    · exact nomatch hentry
    · exact h.current uri key n hentry
  · rw [hkind'] at hk
    have hne : w.uriOf e ≠ w.uriOf e' := fun huri ↦
      hnot (.inr (eq_of_isCurrent (he.trans he'.symm) hcurrent hcurrent' huri))
    rw [hextractor', Index.keyOf?, Std.TreeMap.get?_eq_getElem?, hfiled, if_neg hne]
    exact h.key_eq e' he' hcurrent' hk (fun hun ↦ hnot (.inl hun)) hp

theorem new (kind : String) (extractor : Extractor) :
    w.Files (fun _ ↦ True) (.new kind extractor) := by
  refine ⟨Index.mirrored_new kind extractor, fun uri key n hentry ↦ ?_,
    fun _ _ _ _ hnot ↦ absurd trivial hnot⟩
  have hnone : (Index.new kind extractor).filed[uri]? = none := Std.TreeMap.getElem?_emptyc
  exact nomatch hnone.symm.trans hentry

/-- Placing entities of one type one after the other. -/
theorem foldl_placed {kind : String} {extractor : Extractor} (es : List EntityRef)
    (h : w.Files u x) (hkind : x.kind = kind) (hextractor : x.extractor = extractor)
    (hes : ∀ e ∈ es, e.store = 0 ∧ w.isCurrent e ∧ w.kindOf e = kind) :
    let x' := es.foldl (fun x e ↦ x.placed (w.uriOf e) e.serial (w.keyOf? extractor e)) x
    w.Files (fun e ↦ u e ∧ e ∉ es) x' ∧ x'.kind = kind ∧ x'.extractor = extractor := by
  induction es generalizing x u with
  | nil => exact ⟨h.mono fun e _ _ _ hun ↦ ⟨hun, List.not_mem_nil⟩, hkind, hextractor⟩
  | cons e rest ih =>
    obtain ⟨he, hcurrent, hek⟩ := hes e List.mem_cons_self
    subst hkind hextractor
    have hplaced := h.placed he hcurrent hek
    obtain ⟨hkind', hextractor'⟩ :=
      x.placed_about (w.uriOf e) e.serial (w.keyOf? x.extractor e)
    obtain ⟨hrest, habout⟩ := ih hplaced hkind' hextractor' fun e' he' ↦
      hes e' (List.mem_cons_of_mem e he')
    refine ⟨hrest.mono fun e' _ _ _ hun ↦ ⟨hun.1.1, fun hmem ↦ ?_⟩, habout⟩
    rcases List.mem_cons.mp hmem with heq | hlater
    · exact hun.1.2 heq.symm
    · exact hun.2 hlater

/-- An index that was defined just now is right. -/
theorem build (hground : Ground (fun _ ↦ False) w) (kind : String) (extractor : Extractor) :
    w.Files (fun _ ↦ False) (w.buildIndex 0 kind extractor) ∧
      (w.buildIndex 0 kind extractor).kind = kind ∧
      (w.buildIndex 0 kind extractor).extractor = extractor := by
  have hmem := mem_entitiesOf_of_coherent hground.coherent kind
  obtain ⟨hfiles, hkind, hextractor⟩ := foldl_placed (w.entitiesOf 0 kind) (new kind extractor) rfl rfl
    fun e he ↦ by
      obtain ⟨hlive, hkind⟩ := (hmem e).mp he
      exact ⟨hlive.1, (hground.isCurrent_iff_isLive hlive.1).mpr hlive, hkind⟩
  refine ⟨hfiles.mono fun e he hcurrent hek hun ↦ hun.2 ((hmem e).mpr ⟨?_, hek.trans hkind⟩), hkind,
    hextractor⟩
  exact (hground.isCurrent_iff_isLive he).mp hcurrent

end Files

section Tables

variable (w e)

/-- Filing an entity anew places it in each index over its type. -/
theorem indices_reindex (hsize : e.store < w.stores.size) (name : String) :
    ((w.reindex e).2.store e.store).indices[name]? = (w.store e.store).indices[name]?.map fun x ↦
      if x.kind = w.kindOf e then x.placed (w.uriOf e) e.serial (w.keyOf? x.extractor e) else x := by
  rw [reindex, w.store_modifyStore_self hsize]
  refine (Tables.getElem?_replace (fun _ x ↦ w.replaced? e x) (w.store e.store).indices name).trans ?_
  congr 1
  funext x
  rw [replaced?]
  split <;> rfl

/-- Striking an entity takes it out of each index. -/
theorem indices_strike (hsize : e.store < w.stores.size) (name : String) :
    ((w.strike e).2.store e.store).indices[name]? =
      (w.store e.store).indices[name]?.map (·.without (w.uriOf e)) := by
  rw [strike, w.store_modifyStore_self hsize]
  exact Tables.getElem?_replace (fun _ x ↦ x.evict? (w.uriOf e)) (w.store e.store).indices name

end Tables

end World

/-- Which type and which extractor each index has. -/
abbrev Definitions := String → Option (String × Extractor)

def World.definitions (w : World) : Definitions := fun name ↦
  ((w.store 0).indices[name]?).map fun x ↦ (x.kind, x.extractor)

theorem World.definitions_congr (h : (w'.store 0).indices = (w.store 0).indices) :
    w'.definitions = w.definitions := by
  funext name
  rw [definitions, h, definitions]

theorem World.definitions_reindex (hsize : 0 < w.stores.size) (he : e.store = 0) :
    (w.reindex e).2.definitions = w.definitions := by
  funext name
  have hindices := w.indices_reindex e (he ▸ hsize) name
  rw [he] at hindices
  rw [definitions, hindices, definitions, Option.map_map]
  congr 1
  funext x
  rw [Function.comp_apply]
  split
  · obtain ⟨hkind, hextractor⟩ :=
      x.placed_about (w.uriOf e) e.serial (w.keyOf? x.extractor e)
    rw [hkind, hextractor]
  · rfl

theorem World.definitions_strike (hsize : 0 < w.stores.size) (he : e.store = 0) :
    (w.strike e).2.definitions = w.definitions := by
  funext name
  have hindices := w.indices_strike e (he ▸ hsize) name
  rw [he] at hindices
  rw [definitions, hindices, definitions, Option.map_map]
  congr 1
  funext x
  obtain ⟨hkind, hextractor⟩ := x.without_about (w.uriOf e)
  rw [Function.comp_apply, hkind, hextractor]

/-- Of which entities indices are excused at a stage. -/
def Stage.unfiled : Stage → EntityRef → Prop
  | whole untold => (· ∈ untold)
  | filed untold e => fun e' ↦ e' ∈ untold ∧ e ≠ e'
  | coming _ _ _ => fun _ ↦ False
  | gone _ => fun _ ↦ False

/-- The world at each stage of an operation, as far as indices have to do with it. Where there are
neither derived values nor views, callbacks are those of the store and of its properties. Some of
the indices are known to be defined in a certain way. -/
structure Indexed (own : String → Prop) (δ : Definitions) (β : Background) (stage : Stage)
    (w : World) : Prop where
  ground : OnGround stage w
  plain : Plain w
  noViews : w.views = #[]
  tied : w.Tied
  behind : w.Behind β
  files : ∀ (name : String) (x : Index), (w.store 0).indices[name]? = some x →
    w.Files stage.unfiled x
  defined : ∀ name, own name → w.definitions name = δ name

namespace Indexed

variable {own : String → Prop} {δ : Definitions} {β : Background} {stage stage' : Stage} {U U' : Set EntityRef} {uri : Uri} {kind : String}

theorem ground_same (h : Indexed own δ β stage w) (hw : SameGround w w') : OnGround stage w' :=
  OnGround.same h.ground hw

theorem isLive (h : Indexed own δ β stage w) (he : e.store = 0) (hcurrent : w.isCurrent e) :
    w.IsLive 0 e := by
  have hground := h.ground
  match stage with
  | .whole _ => exact Ground.isLive_of_isCurrent hground he hcurrent
  | .filed _ _ => exact Ground.isLive_of_isCurrent hground he hcurrent
  | .coming _ _ _ => exact Ground.isLive_of_isCurrent hground.1 he hcurrent
  | .gone _ => exact Ground.isLive_of_isCurrent hground he hcurrent

/-- A change by which no entity is moved in any index. -/
theorem unmoved (h : Indexed own δ β stage w) (hground : OnGround stage' w') (hplain : Plain w')
    (hviews : w'.views = w.views) (htied : w'.Tied) (haloof : Aloof w w')
    (hindices : (w'.store 0).indices = (w.store 0).indices)
    (hmoved : Unmoved w w' stage.unfiled stage'.unfiled (fun _ ↦ False) fun _ ↦ False) :
    Indexed own δ β stage' w' := by
  refine ⟨hground, hplain, hviews.trans h.noViews, htied, h.behind.aloof haloof, fun name x hx ↦ ?_,
    fun name hname ↦ ?_⟩
  · rw [hindices] at hx
    exact (h.files name x hx).unmoved hmoved fun _ _ _ _ ↦ id
  · rw [World.definitions_congr hindices]
    exact h.defined name hname

/-- A change that leaves entities and indices as they are. -/
theorem steady (h : Indexed own δ β stage w) (hsame : SameGround w w') (hw : Steady w w')
    (haloof : Aloof w w') (hviews : w'.views = w.views) (hlive : ∀ s, (w'.store s).live = (w.store s).live)
    (hindices : (w'.store 0).indices = (w.store 0).indices) : Indexed own δ β stage w' :=
  h.unmoved (h.ground.same hsame) (h.plain.same hsame) hviews (hw.tied h.tied) haloof hindices
    (hw.unmoved h.tied (fun _ ↦ h.isLive) hlive)

theorem write (h : Indexed own δ β stage w) (id : SignalId) (v : Value) : Indexed own δ β stage (w.write id v) := by
  have hstore : ∀ s, (w.write id v).store s = w.store s := fun s ↦ by
    rw [World.store, w.stores_write, World.store]
  exact h.steady (.write w id v) (.write h.tied h.plain.noDeriveds id v)
    (.write w h.plain.noDeriveds id v) (w.views_write id v)
    (fun s ↦ by rw [hstore]) (by rw [hstore])

theorem counted (h : Indexed own δ β stage w) (t : Topic) : Indexed own δ β stage (w.counted t) := by
  obtain heq | ⟨id, v, -, heq⟩ := w.counted_cases t
  · rwa [heq]
  · rw [heq]
    exact h.write id v

/-- Neither evaluations nor what is held by acts under way have to do with indices. -/
theorem context (h : Indexed own δ β stage w) (d : Nat) (f : Bool) (frames : List Frame) (pins : List Pin) :
    Indexed own δ β stage { w with depth := d, flushing := f, frames := frames, pins := pins } := by
  have hsteady : Steady w { w with depth := d, flushing := f, frames := frames, pins := pins } :=
    .of_eq rfl rfl fun _ ↦ rfl
  exact h.unmoved (OnGround.context h.ground d f frames pins) ⟨h.plain.noDeriveds, h.plain.queue_eq⟩
    rfl (hsteady.tied h.tied) ⟨rfl, rfl, Nat.le_refl _, fun _ _ ↦ rfl, fun h ↦ h⟩ rfl
    (hsteady.unmoved h.tied (fun _ ↦ h.isLive) fun _ ↦ rfl)

theorem depthFree : DepthFree (Indexed own δ β stage) := fun w d h ↦
  h.context d w.flushing w.frames w.pins

theorem writeFree : Act.WriteFree (Indexed own δ β stage) := fun id _ v h _ ↦
  h.write id v

/-- Neither the session nor the debug states have to do with indices, as long as the session has a
debug state over the store and the roles are the same. -/
theorem aside (h : Indexed own δ β (.whole U) w) (session : Session) (states : Array State)
    (pins : List Pin) (hcurrent : session.current < states.size ∧
      (states.getD session.current default).store = 0)
    (hroles : ∀ id, (states.getD id default).allRoles = (w.state id).allRoles) :
    let w' := { w with session := session, states := states, pins := pins }
    Indexed own δ w'.background (.whole U) w' := by
  intro w'
  have hground : Ground (fun _ ↦ False) w := h.ground
  have hsteady : Steady w w' := .of_eq rfl rfl fun _ ↦ rfl
  refine ⟨⟨hground.coherent, hground.stores_size, hcurrent⟩, ⟨h.plain.noDeriveds, h.plain.queue_eq⟩,
    h.noViews, hsteady.tied h.tied, ⟨rfl, fun signal hreserved ↦ h.behind.owner_eq signal ?_,
    h.behind.noClocks⟩, fun name x hx ↦ ?_, h.defined⟩
  · exact hreserved.imp_right fun ⟨id, roles, hmem, hrole⟩ ↦ ⟨id, roles, hroles id ▸ hmem, hrole⟩
  · exact (h.files name x hx).unmoved (hsteady.unmoved (g := fun _ ↦ False) h.tied (fun _ ↦ h.isLive) fun _ ↦ rfl)
      fun _ _ _ _ ↦ id

/-- Where there are neither views nor derived values, nothing ends. -/
theorem reap_eq (h : Indexed own δ β stage w) : w.reap = w :=
  World.reap_eq_of_noViews h.noViews h.plain.noDeriveds

/-- A change of parts of the store that indices have nothing to do with. -/
theorem modifyStore (h : Indexed own δ β stage w) {f : Store → Store}
    (hincarnations : ∀ s, (f s).incarnations = s.incarnations) (htable : ∀ s, (f s).live = s.live)
    (hindices : ∀ s, (f s).indices = s.indices)
    (hclocks : (w.store 0).clocks = ∅ → (f (w.store 0)).clocks = ∅)
    (hground : OnGround stage (w.modifyStore 0 f)) :
    Indexed own δ β stage (w.modifyStore 0 f) := by
  have hsteady : Steady w (w.modifyStore 0 f) :=
    .of_eq rfl rfl fun s ↦ w.part_modifyStore (·.incarnations) hincarnations 0 s
  exact h.unmoved hground ⟨h.plain.noDeriveds, h.plain.queue_eq⟩ rfl (hsteady.tied h.tied)
    (.modifyStore w 0 f hclocks) (w.part_modifyStore (·.indices) hindices 0 0) (hsteady.unmoved h.tied (fun _ ↦ h.isLive)
    fun s ↦ w.part_modifyStore (·.live) htable 0 s)

theorem retireClocks (h : Indexed own δ β (.whole ∅) w) (uri : Uri) :
    Indexed own δ β (.whole ∅) (w.retireClocks 0 uri) := by
  unfold World.retireClocks
  dsimp only
  split
  all_goals
    refine h.modifyStore (fun _ ↦ rfl) (fun _ ↦ rfl) (fun _ ↦ rfl) (fun hnone ↦ ?_)
      (h.ground_same (.modifyStore w 0 _ fun _ ↦ ?_))
    · simp only [hnone]
      rfl
    · exact ⟨rfl, rfl, rfl, rfl, fun _ _ ↦ rfl, fun _ _ ↦ rfl, fun _ _ ↦ rfl⟩

theorem mono (h : Indexed own δ β (.whole U) w)
    (hU : ∀ e : EntityRef, e.store = 0 → w.isCurrent e → e ∈ U → e ∈ U') : Indexed own δ β (.whole U') w :=
  ⟨h.ground, h.plain, h.noViews, h.tied, h.behind, fun name x hx ↦
    (h.files name x hx).mono fun e he hcurrent _ hun ↦ hU e he hcurrent hun, h.defined⟩

/-- Of a new property it is not told yet. -/
theorem addProperty {prop : String} {v : Value} (h : Indexed own δ β (.whole ∅) w) (he : e.store = 0)
    (hserial : 0 < e.serial) (hlive : (w.entity e).live = true)
    (hnone : (w.entity e).props.get? prop = none) :
    Indexed own δ β (.whole {e}) (w.addProperty e prop v).2 := by
  have hground : Ground (fun _ ↦ False) w := h.ground
  have hsame := SameGround.addProperty w e prop v hserial
  have hisLive := World.isLive_of_live he hserial hlive
  refine h.unmoved (h.ground_same hsame) (h.plain.same hsame) rfl
    (h.tied.addProperty (hground.stores_size ▸ Nat.one_pos) hisLive hnone)
    (.addProperty w e prop v) (w.part_modifyStore (·.indices) (by intro; rfl) e.store 0)
    (h.tied.unmoved_addProperty hground hisLive hnone (fun _ ↦ False.elim) fun e' _ hun ↦ ?_)
  rcases hun with hun | rfl
  · exact absurd hun (Set.notMem_empty e')
  · exact Set.mem_singleton e

theorem addIncarnation (h : Indexed own δ β (.whole ∅) w) (uri : Uri) (kind : String)
    (hfree : w.contains 0 uri = false) :
    Indexed own δ β (.coming ⟨0, (w.store 0).incarnations.size + 1⟩ uri kind)
      (w.addIncarnation 0 uri kind).2 := by
  have hground : Ground (fun _ ↦ False) w := h.ground
  have hadded : (w.addIncarnation 0 uri kind).2.Tied ∧ Unmoved w (w.addIncarnation 0 uri kind).2
      (fun _ ↦ False) (fun _ ↦ False) (fun _ ↦ False) fun _ ↦ False :=
    h.tied.addIncarnation hground hfree fun _ ↦ id
  obtain ⟨htied, hmoved⟩ := hadded
  refine h.unmoved (OnGround.addIncarnation hground uri kind hfree)
    ⟨h.plain.noDeriveds, h.plain.queue_eq⟩ rfl htied (.addIncarnation w 0 uri kind) ?_ hmoved
  rw [hground.store_addIncarnation uri kind]

/-- An entity gets a property before it can be found. -/
theorem addComing {prop : String} {v : Value} (h : Indexed own δ β (.coming e uri kind) w)
    (hnone : (w.entity e).props.get? prop = none) :
    Indexed own δ β (.coming e uri kind) (w.addProperty e prop v).2 := by
  obtain ⟨hground, hnew⟩ := h.ground
  have hsame := SameGround.addProperty w e prop v hnew.serial_pos
  have hisLive := World.isLive_of_live hnew.store_eq hnew.serial_pos hnew.live
  refine h.unmoved (OnGround.same h.ground hsame) (h.plain.same hsame) rfl
    (h.tied.addProperty (hground.stores_size ▸ Nat.one_pos) hisLive hnone)
    (.addProperty w e prop v) (w.part_modifyStore (·.indices) (by intro; rfl) e.store 0)
    (h.tied.unmoved_addProperty hground hisLive hnone (fun _ ↦ False.elim) fun e' hcurrent hun ↦ ?_)
  refine hun.elim id fun heq ↦ ?_
  subst heq
  exact ((hground.isCurrent_iff hnew.store_eq).mp hcurrent).2.2.1 rfl

/-- An entity that can be found from now on is not filed yet. -/
theorem enlist (h : Indexed own δ β (.coming e uri kind) w) : Indexed own δ β (.whole {e}) (w.enlist e) := by
  have hunfiled : ∀ e', False ∨ e = e' → e' ∈ ({e} : Set EntityRef) := fun e' hun ↦
    hun.elim False.elim fun heq ↦ heq.symm
  exact h.unmoved (OnGround.enlist h.ground).1 ⟨h.plain.noDeriveds, h.plain.queue_eq⟩ rfl
    ((w.steady_enlist e).tied h.tied) (.modifyStore w e.store _ fun h ↦ h)
    (w.part_modifyStore (·.indices) (by intro; rfl) e.store 0) (h.tied.unmoved_enlist h.ground (fun _ ↦ id) hunfiled)

/-- After an entity was filed anew, no index is excused of it. -/
theorem reindex (h : Indexed own δ β (.whole U) w) (he : e.store = 0) (hcurrent : w.isCurrent e) :
    Indexed own δ β (.filed U e) (w.reindex e).2 := by
  have hground : Ground (fun _ ↦ False) w := h.ground
  have hsteady : Steady w (w.reindex e).2 :=
    .of_eq rfl rfl fun s ↦ w.part_modifyStore (·.incarnations) (by intro; rfl) e.store s
  have hunmoved := hsteady.unmoved (u := Stage.unfiled (.filed U e)) (g := fun _ ↦ False) h.tied
    (fun _ ↦ h.isLive) fun s ↦ w.part_modifyStore (·.live) (by intro; rfl) e.store s
  have hdefinitions : (w.reindex e).2.definitions = w.definitions :=
    World.definitions_reindex (hground.stores_size ▸ Nat.one_pos) he
  refine ⟨h.ground_same (.reindex w e),
    ⟨h.plain.noDeriveds, h.plain.queue_eq⟩, h.noViews, hsteady.tied h.tied,
    h.behind.aloof (.modifyStore w e.store _ fun h ↦ h), fun name x hx ↦ ?_, fun name hname ↦ (congrFun hdefinitions name).trans (h.defined name hname)⟩
  have hindices := w.indices_reindex e (he.symm ▸ hground.stores_size ▸ Nat.one_pos) name
  rw [he, hx] at hindices
  obtain ⟨x₀, hx₀, rfl⟩ := Option.map_eq_some_iff.mp hindices.symm
  have hfiles := h.files name x₀ hx₀
  refine World.Files.unmoved (u := Stage.unfiled (.filed U e)) ?_ hunmoved fun _ _ _ _ ↦ id
  split
  · rename_i hkind
    exact hfiles.placed he hcurrent hkind.symm
  · rename_i hkind
    refine hfiles.mono fun e' _ _ hkind' hun ↦ ⟨hun, fun heq ↦ hkind ?_⟩
    rw [heq, hkind']

/-- An entity that has ended is in no index. -/
theorem strike (h : Indexed own δ β (.whole ∅) w) (hfound : w.find? 0 uri = some e) :
    Indexed own δ β (.gone e) ((w.strike e).2.retire e) := by
  have hground : Ground (fun _ ↦ False) w := h.ground
  obtain ⟨he, hfind⟩ := World.live_of_find? hfound
  have hisLive := ((World.live_iff_isLive hground.coherent e he uri).mp hfind).1
  have hcurrent := (hground.isCurrent_iff_isLive he).mpr hisLive
  have hplain : Plain ((w.strike e).2.modifyEntity e fun x ↦ { x with live := false }) :=
    ⟨h.plain.noDeriveds, h.plain.queue_eq⟩
  have hended : ((w.strike e).2.retire e).Tied ∧ Unmoved w ((w.strike e).2.retire e)
      (fun e' ↦ e' ∈ (∅ : Set EntityRef) ∨ e = e') (fun _ ↦ False) (fun _ ↦ False) (e = ·) :=
    h.tied.strike hground hfound (fun e' hun ↦ .inl (hun.resolve_left (Set.notMem_empty e')))
      (fun e' hun ↦ hun.resolve_left id) fun _ ↦ False.elim
  obtain ⟨htied, hmoved⟩ := hended
  have hstruck := World.struck_of_find? hground hfound
  have haloof : Aloof w ((w.strike e).2.retire e) :=
    (Aloof.modifyStore w e.store _ fun h ↦ h).trans (.retire _ e)
  have hdefinitions : ((w.strike e).2.retire e).definitions = w.definitions := by
    rw [World.definitions_congr hstruck.indices_eq,
      World.definitions_strike (hground.stores_size ▸ Nat.one_pos) he]
  refine ⟨OnGround.strike hground hfound, hplain.same (.retire (w.strike e).2 e),
    hstruck.views_eq.trans h.noViews, htied, h.behind.aloof haloof, fun name x hx ↦ ?_,
    fun name hname ↦ (congrFun hdefinitions name).trans (h.defined name hname)⟩
  have hindices := w.indices_strike e (he.symm ▸ hground.stores_size ▸ Nat.one_pos) name
  rw [hstruck.indices_eq] at hx
  rw [he, hx] at hindices
  obtain ⟨x₀, hx₀, rfl⟩ := Option.map_eq_some_iff.mp hindices.symm
  have hfiles := (h.files name x₀ hx₀).without he hcurrent
  refine hfiles.unmoved hmoved fun uri' key n hentry heq ↦ ?_
  obtain ⟨-, huri, -⟩ := hfiles.current uri' key n hentry
  rw [x₀.filed_without, ← huri, heq, if_pos rfl] at hentry
  exact nomatch hentry

/-- What is known of definitions may be forgotten. -/
theorem redefine {δ' : Definitions} (h : Indexed own δ β stage w)
    (hδ : ∀ name, own name → δ name = δ' name) : Indexed own δ' β stage w :=
  { h with defined := fun name hname ↦ (h.defined name hname).trans (hδ name hname) }

/-- An index that is defined is right at once, and all others are as they were. -/
theorem putIndex (h : Indexed own δ β (.whole ∅) w) (name kind : String) (extractor : Extractor) :
    Indexed own (Function.update δ name (some (kind, extractor))) β (.whole ∅)
      (w.putIndex 0 name kind extractor) := by
  have hground : Ground (fun _ ↦ False) w := h.ground
  have hsteady : Steady w (w.putIndex 0 name kind extractor) :=
    .of_eq rfl rfl fun s ↦ w.part_modifyStore (·.incarnations) (by intro; rfl) 0 s
  have hunmoved := hsteady.unmoved (u := (· ∈ (∅ : Set EntityRef))) (g := fun _ ↦ False) h.tied
    (fun _ ↦ h.isLive) fun s ↦ w.part_modifyStore (·.live) (by intro; rfl) 0 s
  have hindices : ∀ name', ((w.putIndex 0 name kind extractor).store 0).indices[name']? =
      if name = name' then some (w.buildIndex 0 kind extractor)
      else (w.store 0).indices[name']? := fun name' ↦ by
    rw [World.putIndex, hground.store_modifyStore, Std.TreeMap.getElem?_insert]
    exact if_congr Std.LawfulEqOrd.compare_eq_iff_eq rfl rfl
  obtain ⟨hfiles, habout⟩ := World.Files.build hground kind extractor
  refine ⟨h.ground_same (.putIndex w 0 name kind extractor),
    ⟨h.plain.noDeriveds, h.plain.queue_eq⟩, h.noViews, hsteady.tied h.tied,
    h.behind.aloof (.modifyStore w 0 _ fun h ↦ h), fun name' x hx ↦ ?_, fun name' hname' ↦ ?_⟩
  · rw [hindices] at hx
    refine World.Files.unmoved (u := (· ∈ (∅ : Set EntityRef))) ?_ hunmoved fun _ _ _ _ ↦ id
    split at hx
    · obtain rfl := Option.some.inj hx
      exact hfiles
    · exact h.files name' x hx
  · rw [World.definitions, hindices, Function.update_apply]
    by_cases hname : name = name'
    · rw [if_pos hname, if_pos hname.symm, Option.map_some, habout.1, habout.2]
    · rw [if_neg hname, if_neg (Ne.symm hname)]
      exact h.defined name' hname'

/-- Neither views nor what acts under way hold have to do with indices. -/
theorem viewless : Act.Viewless (Indexed own δ β stage) where
  plain _ h := h.plain
  context _ d f frames pins h := h.context d f frames pins
  reap w h := by rwa [h.reap_eq]
  noViews _ h := h.noViews
  roles _ _ _ roles _ := writeFree.roles roles
  version := writeFree _

/-- After a notification was taken up, indices are excused of the entity it is about, if any. -/
theorem excusing : Excusing fun U ↦ Indexed own δ β (.whole U) where
  robust _ := viewless.toRobust
  ground _ _ h := h.ground
  tied _ _ h := h.tied
  pop U U' w w' effect h hU hpopped htold := by
    refine h.unmoved (hpopped.ground h.ground) (hpopped.plain h.plain) hpopped.views_eq
      (hpopped.tied h.tied) ⟨hpopped.session_eq, hpopped.states_eq, Nat.le_of_eq hpopped.size_eq.symm,
        fun id _ ↦ (hpopped.signal_kept id).2.1, fun hnone ↦ hpopped.store_eq 0 ▸ hnone⟩ ?_
      (hpopped.unmoved fun e hun ↦ ?_)
    · rw [hpopped.store_eq]
    · rcases hun with hun | ⟨prop, id, he, hid⟩
      · exact hU hun
      · exact htold e prop id he hid

end Indexed

end LiveGraph
