import LiveGraph.Proofs.Breakpoint.Resuming

/-!
# Taking in what was fetched

Children that were fetched are taken in as one change, unless the entity they are children of is gone by then. All of
them are there then and linked to it. To take the same in once more leaves what the store holds, if none of them has
two values for one property: of those a child that is new gets the first, and one that is there the last.
-/

namespace LiveGraph

open Act World

variable {own : String → Prop} {δ : Definitions} {β : Background} {w w' : World} {e : EntityRef} {edge : String}
variable {parent : Liveness} {specs : List EntitySpec}

namespace Task

/-- Writes what is told of one entity. -/
def child [Dispatch] (s : StoreId) (spec : EntitySpec) : Act (Except Fault EntityRef) := do
  match (← get).find? s spec.uri with
  | some e => return (← Store.update s spec.uri spec.props).map fun _ ↦ e
  | none => Store.add s spec

theorem link_cons [Dispatch] (s : StoreId) (edge : String) (e : EntityRef) (spec : EntitySpec)
    (rest : List EntitySpec) (children : List EntityRef) : link s edge e (spec :: rest) children = (do
      match ← child s spec with
      | .error why => return .error why
      | .ok child =>
        let w ← get
        let _ ← Store.link s ⟨edge, w.uriOf child, w.uriOf e⟩ false
        link s edge e rest (children ++ [child])) := by
  rw [link, child, bind_assoc]
  refine congrArg (get >>= ·) (funext fun w ↦ ?_)
  cases w.find? s spec.uri with
  | none => rfl
  | some e => exact (bind_assoc ..).symm

/-- How many properties are told of. -/
def weight (specs : List EntitySpec) : Nat :=
  (specs.map (·.props.length)).sum

end Task

open LiveGraph.Task

/-! ## One child after the other -/

section Run

variable [Dispatch] (h : Unheeded own δ β w) (hdepth : 0 < w.depth) (hrounds : 0 < Dispatch.rounds)
include h hdepth hrounds

/-- An entity that is there is updated, and one that is not is added. -/
theorem Unheeded.ends_child (spec : EntitySpec) : (child 0 spec).Ends w fun r w' ↦
    ∃ e, r = .ok e ∧ e.store = 0 ∧ w'.isCurrent e ∧ w'.uriOf e = spec.uri ∧
      Updated own δ β spec.props.length w w' ∧ w'.contents 0 = (w.contents 0).withSpec spec := by
  have hheld : (w.contents 0).holds spec.uri = (w.find? 0 spec.uri).isSome := by
    rw [World.holds_contents h.ground.coherent, World.contains, Std.TreeMap.contains_eq_isSome_getElem?, World.find?,
      Option.isSome_map]
    rfl
  refine ends_get ?_
  cases hfind : w.find? 0 spec.uri with
  | some e =>
    have hthere : (w.contents 0).holds spec.uri = true := by rw [hheld, hfind, Option.isSome_some]
    refine (h.ends_update hdepth hfind spec.props).bind fun r w₁ hw₁ ↦ ?_
    obtain ⟨rfl, hupdated, hsame, hcontents⟩ := hw₁
    obtain ⟨hstore, hcurrent, huri⟩ :=
      Breakpoint.isCurrent_of_find? hupdated.unheeded.ground ((congrFun hsame spec.uri).trans hfind)
    exact ends_pure ⟨e, rfl, hstore, hcurrent, huri, hupdated, hcontents.trans (if_pos hthere).symm⟩
  | none =>
    have hnew : ¬(w.contents 0).holds spec.uri = true := by
      rw [hheld, hfind]
      exact Bool.false_ne_true
    have hfree : w.contains 0 spec.uri = false := by
      rw [← World.holds_contents h.ground.coherent, Bool.eq_false_iff]
      exact hnew
    refine (h.stocked.ends_add hdepth hrounds spec).mono fun r w₁ hadded ↦ ?_
    obtain ⟨rfl, hcurrent, hspec, hcontents⟩ := hadded.taken hfree
    have hupdated : Updated own δ β spec.props.length w w₁ := (Updated.grown h hadded.grown).mono (Nat.zero_le _)
    exact ⟨_, rfl, rfl, hcurrent, congrArg EntitySpec.uri hspec, hupdated, hcontents.trans (if_neg hnew).symm⟩

/-- What is told of children is written, and each is linked to the entity they are children of. -/
theorem Unheeded.ends_link (he : e.store = 0) (hcurrent : w.isCurrent e) (specs : List EntitySpec)
    (children : List EntityRef) : (link 0 edge e specs children).Ends w fun r w' ↦
      ∃ taken, r = .ok (children ++ taken) ∧ (∀ child ∈ taken, child.store = 0 ∧ w'.isCurrent child) ∧
        taken.map w'.uriOf = specs.map (·.uri) ∧ Updated own δ β (weight specs) w w' ∧
        w'.contents 0 = (w.contents 0).withChildren edge (w.uriOf e) specs := by
  induction specs generalizing w children with
  | nil => exact ends_pure ⟨[], by rw [List.append_nil], fun _ hnil ↦ absurd hnil List.not_mem_nil, rfl, .refl h, rfl⟩
  | cons spec rest ih =>
    rw [link_cons]
    refine (h.ends_child hdepth hrounds spec).bind fun r w₁ hw₁ ↦ ?_
    obtain ⟨child, rfl, hstore, hchild, huri, hupdated, hcontents⟩ := hw₁
    obtain ⟨hcurrent₁, hsame₁⟩ := hupdated.kept e he hcurrent
    have hdepth₁ : 0 < w₁.depth := hupdated.depth_eq ▸ hdepth
    refine ends_get ((hupdated.unheeded.stocked.ends_link hdepth₁ hrounds _).bind fun _ w₂ hw₂ ↦ ?_)
    obtain ⟨hgrown, -, hlinked⟩ := hw₂
    have hupdated₂ := hupdated.trans (.grown hupdated.unheeded hgrown)
    obtain ⟨hcurrent₂, hsame₂⟩ := hupdated₂.kept e he hcurrent
    obtain ⟨hchild₂, huri₂⟩ := hgrown.confined.kept child hstore hchild
    refine (ih hupdated₂.unheeded (hupdated₂.depth_eq ▸ hdepth) hcurrent₂ (children ++ [child])).mono fun r w' hw' ↦ ?_
    obtain ⟨taken, rfl, htaken, huris, hupdated', hdone⟩ := hw'
    obtain ⟨hchild', huri'⟩ := hupdated'.kept child hstore hchild₂
    refine ⟨child :: taken, by rw [List.append_assoc, List.singleton_append], ?_, ?_, hupdated₂.trans hupdated', ?_⟩
    · exact List.forall_mem_cons.mpr ⟨⟨hstore, hchild'⟩, htaken⟩
    · rw [List.map_cons, List.map_cons, huris, huri', huri₂, huri]
    · rw [hdone, hlinked, hcontents, huri, hsame₁, hsame₂]
      rfl

end Run

/-! ## As one change -/

/-- A task that has fetched takes in what it was answered with. -/
theorem Task.ends_advance_load [Dispatch] {s : StoreId} {name : String} {t : Task}
    {Q : Except Fault (List Uri) → World → Prop} (hwork : t.work = .load s parent edge true)
    (hanswer : w.opening? name = some (.children specs)) (h : (takeIn s parent edge specs).Ends w Q) :
    (advance name t).Ends w fun p w' ↦ ∃ r, p = .done (.loaded r) ∧ Q r w' := by
  rw [advance, hwork]
  refine ends_after rfl (ends_get ?_)
  rw [hanswer]
  exact h.bind fun r w' hr ↦ ends_pure ⟨r, rfl, hr⟩

/-- If the incarnation is gone that was to be a parent, nothing is done. -/
theorem Task.takeIn_gone [Dispatch] {s : StoreId} (hgone : w.alive? parent = none) (specs : List EntitySpec) :
    takeIn s parent edge specs w = .ok (.ok []) w := by
  simp only [takeIn, bind_run, get_run, hgone, pure_run]

theorem World.alive?_eq_some_iff (hground : Ground (fun _ ↦ False) w) (hstore : parent.store = 0) :
    w.alive? parent = some e ↔
      e.store = 0 ∧ e.serial = parent.serial ∧ w.isCurrent e ∧ w.uriOf e = parent.uri := by
  have hheld : w.isStoreHeld 0 = true := hground.held
  rw [World.alive?, hstore, if_pos hheld, Option.filter_eq_some_iff, Bool.and_eq_true_iff, decide_eq_true_eq]
  constructor
  · rintro ⟨hfind, hserial, -⟩
    obtain ⟨he, hcurrent, huri⟩ := Breakpoint.isCurrent_of_find? hground hfind
    exact ⟨he, hserial, hcurrent, huri⟩
  · rintro ⟨he, hserial, hcurrent, huri⟩
    refine ⟨huri ▸ Breakpoint.find?_of_isCurrent he hcurrent, hserial, ?_⟩
    exact ((hground.isCurrent_iff_isLive he).mp hcurrent).2.2

theorem Breakpoint.Resting.unattended (h : Breakpoint.Resting w) :
    Unattended (· = Breakpoint.sourceIndex) Breakpoint.sourceDefinitions w.background w :=
  ⟨h.unheeded, h.depth_eq, h.flushing_eq, h.effects_eq⟩

section TakeIn

variable (edge) [D : Dispatch] (hD : Deep D) (h : Unattended own δ β w) (hstore : parent.store = 0)
  (hrounds : weight specs < D.rounds) (halive : (w.alive? parent).isSome)
include hD h hstore hrounds halive

/-- Otherwise the children are taken in. -/
theorem Unattended.ends_takeIn : (takeIn 0 parent edge specs).Ends w fun r w' ↦
    r = .ok (specs.map (·.uri)) ∧ Unattended own δ β w' ∧ (w'.alive? parent).isSome ∧
      w'.contents 0 = (w.contents 0).withChildren edge parent.uri specs := by
  obtain ⟨e, he⟩ := Option.isSome_iff_exists.mp halive
  obtain ⟨hstore_e, hserial, hcurrent, huri⟩ := (World.alive?_eq_some_iff h.ground hstore).mp he
  let Q (r : Except Fault (List EntityRef)) (w' : World) : Prop :=
    ∃ taken, r = .ok taken ∧ (∀ child ∈ taken, child.store = 0 ∧ w'.isCurrent child) ∧
      taken.map w'.uriOf = specs.map (·.uri) ∧ w'.contents 0 = (w.contents 0).withChildren edge parent.uri specs
  have hbody : (link 0 edge e specs []).Ends (w.setDepth 1) fun r w' ↦
      Updated own δ β (weight specs) (w.setDepth 1) w' ∧ Q r w' := by
    refine ((h.toUnheeded.setDepth 1).ends_link Nat.one_pos (Nat.zero_lt_of_lt hrounds) hstore_e hcurrent specs []).mono
      fun r w' hw' ↦ ?_
    obtain ⟨taken, rfl, htaken, huris, hupdated, hcontents⟩ := hw'
    exact ⟨hupdated, taken, rfl, htaken, huris, huri ▸ hcontents⟩
  have hQ : ∀ r w' w'', Q r w' → Taken (w'.setDepth 0) w'' → Q r w'' := by
    rintro r w' w'' ⟨taken, rfl, htaken, huris, hcontents⟩ hafter
    have hkept : ∀ child ∈ taken, w''.isCurrent child ∧ w''.uriOf child = w'.uriOf child := fun child hchild ↦
      hafter.kept child (htaken child hchild).1 (htaken child hchild).2
    refine ⟨taken, rfl, fun child hchild ↦ ⟨(htaken child hchild).1, (hkept child hchild).1⟩, ?_,
      hafter.contents_eq.trans hcontents⟩
    rw [← huris]
    exact List.map_congr_left fun child hchild ↦ (hkept child hchild).2
  rw [takeIn]
  refine ends_get ?_
  rw [he]
  refine (h.ends_batch hD hrounds hbody hQ).bind fun r w' hw' ↦ ?_
  obtain ⟨h', hconfined, taken, rfl, -, huris, hcontents⟩ := hw'
  refine ends_get (ends_pure ⟨congrArg Except.ok huris, h', ?_, hcontents⟩)
  obtain ⟨hcurrent', huri'⟩ := hconfined.kept e hstore_e hcurrent
  exact Option.isSome_of_mem ((World.alive?_eq_some_iff h'.ground hstore).mpr
    ⟨hstore_e, hserial, hcurrent', huri'.trans huri⟩)

/-- All children are there then and linked to their parent, and to take them in once more changes nothing, if none has
two values for one property. -/
theorem Unattended.ends_takeIn_again : (takeIn 0 parent edge specs).Ends w fun r w' ↦ r = .ok (specs.map (·.uri)) ∧
    (∀ spec ∈ specs, w'.contains 0 spec.uri ∧ ⟨edge, spec.uri, parent.uri⟩ ∈ (w'.store 0).edges.edges) ∧
    ((∀ spec ∈ specs, (spec.props.map Prod.fst).Nodup) → (takeIn 0 parent edge specs).Ends w' fun r w'' ↦
      r = .ok (specs.map (·.uri)) ∧ w''.contents 0 = w'.contents 0) := by
  have hparent : (w.contents 0).holds parent.uri = true := by
    obtain ⟨e, he⟩ := Option.isSome_iff_exists.mp halive
    obtain ⟨hstore_e, -, hcurrent, huri⟩ := (World.alive?_eq_some_iff h.ground hstore).mp he
    rw [World.holds_contents h.ground.coherent, ← huri]
    exact Breakpoint.contains_of_isCurrent hstore_e hcurrent
  refine (h.ends_takeIn edge hD hstore hrounds halive).mono fun r w' hw' ↦ ?_
  obtain ⟨hr, h', halive', hcontents⟩ := hw'
  refine ⟨hr, fun spec hspec ↦ ⟨?_, ?_⟩, fun hnodup ↦ ?_⟩
  · rw [← World.holds_contents h'.ground.coherent, hcontents]
    exact Snapshot.holds_withChildren hspec
  · have hedges : (w'.store 0).edges.edges = (w'.contents 0).edges := rfl
    rw [hedges, hcontents]
    exact Snapshot.mem_edges_withChildren hparent hspec
  · refine (h'.ends_takeIn edge hD hstore hrounds halive').mono fun r w'' hw'' ↦ ⟨hw''.1, ?_⟩
    rw [hw''.2.2.2, hcontents, Snapshot.withChildren_withChildren hnodup hparent]

end TakeIn

end LiveGraph
