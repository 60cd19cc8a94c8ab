import LiveGraph.Proofs.Breakpoint.Removal

/-!
# Entities that arrive on a path

An entity that is being added is not on the path while it gets its properties. Once it can be found, it is
the source of the path, if it is a source with that path and there was none; a breakpoint with the path
says to be there, and is there as soon as it is linked to the source.
-/

namespace LiveGraph.Breakpoint

variable {own : String → Prop} {δ : Definitions} {β : Background} {path : String}
variable {w w' : World} {e : EntityRef} {uri : Uri}

namespace Scene

/-- The source of a path that had none. -/
def founding (ς : Scene) (source : EntityRef) : Scene :=
  { ς with source := some source }

/-- A breakpoint says to be on the path. -/
def stating (ς : Scene) (m : Mark) : Scene :=
  { ς with stated := Function.update ς.stated m.entity (some m) }

/-- One more breakpoint is linked to the source. -/
def linking (ς : Scene) (m : Mark) : Scene :=
  { ς with marks := ς.marks ++ [m] }

end Scene

section Coming

variable {kind : String}

/-- A new incarnation is on no path. -/
theorem alike_addIncarnation (hground : Ground (fun _ ↦ False) w) (htied : w.Tied) (uri : Uri)
    (kind : String) : Alike w (w.addIncarnation 0 uri kind).2 := by
  have hstore := hground.store_addIncarnation uri kind
  have hentity : ∀ e : EntityRef, e.store = 0 → w.isCurrent e →
      (w.addIncarnation 0 uri kind).2.entity e = w.entity e := fun e he hcurrent ↦ by
    obtain ⟨-, hpos, hle, -⟩ := (World.isLive_iff_entity e).mp (hground.isLive_of_isCurrent he hcurrent)
    rw [hground.entity_addIncarnation uri kind he hpos, if_neg (Nat.ne_of_lt (Nat.lt_succ_of_le hle))]
  refine ⟨by rw [hstore], by rw [hstore], by rw [hstore], fun e he hcurrent ↦ ?_,
    fun e he hcurrent ↦ ?_, fun e he hcurrent prop ↦ ?_⟩
  · rw [World.uriOf, hentity e he hcurrent, World.uriOf]
  · rw [World.kindOf, hentity e he hcurrent, World.kindOf]
  · rw [World.property?, hentity e he hcurrent, World.property?]
    cases hprop : (w.entity e).props.get? prop with
    | none => rw [Option.map_none, Option.map_none]
    | some id =>
      have hlt := (htied.property e prop id ⟨hground.isLive_of_isCurrent he hcurrent, hprop⟩).lt_size
      have hsignal := w.signal_addSignal (.int 0) .same
        (.entity ⟨0, (w.store 0).incarnations.size + 1⟩) id
      rw [if_neg (Nat.ne_of_lt hlt)] at hsignal
      exact congrArg (fun s : Signal ↦ some s.value) hsignal

variable (h : Indexed own δ β (.coming e uri kind) w)
include h

/-- An entity gets a property that it did not have. -/
theorem property?_addProperty (prop : String) (v : Value) {e' : EntityRef} (he' : w.IsLive 0 e') (prop' : String) :
    (w.addProperty e prop v).2.property? e' prop' =
      if e = e' ∧ prop = prop' then some v else w.property? e' prop' := by
  obtain ⟨hground, hnew⟩ := h.ground
  have hlive := World.isLive_of_live hnew.store_eq hnew.serial_pos hnew.live
  exact World.property?_addProperty (hground.stores_size ▸ Nat.one_pos) h.tied hlive he' prop'

/-- A property of an entity that is being added is on no path. -/
theorem alike_addProperty (prop : String) (v : Value) :
    Alike w (w.addProperty e prop v).2 := by
  obtain ⟨hground, hnew⟩ := h.ground
  have hsame := SameGround.addProperty w e prop v hnew.serial_pos
  have hpos : ∀ e' : EntityRef, e'.store = 0 → w.isCurrent e' → 0 < e'.serial := fun e' he' hcurrent ↦
    ((hground.isCurrent_iff he').mp hcurrent).1
  refine ⟨hsame.store.live_eq, hsame.store.byKind_eq, hsame.store.edges_eq, fun e' he' hcurrent ↦ ?_,
    fun e' he' hcurrent ↦ ?_, fun e' he' hcurrent prop' ↦ ?_⟩
  · rw [World.uriOf, World.entity, he', hsame.store.uri_eq _ (hpos e' he' hcurrent), World.uriOf,
      World.entity, he']
  · rw [World.kindOf, World.entity, he', hsame.store.kind_eq _ (hpos e' he' hcurrent), World.kindOf,
      World.entity, he']
  · rw [property?_addProperty h prop v (h.isLive he' hcurrent), if_neg fun heq ↦ ?_]
    rw [← heq.1, (OnGround.coming h.ground).2.2] at hcurrent
    exact Bool.noConfusion hcurrent

end Coming

/-- Two worlds of which the second has one more entity that can be found, and nothing else is new. -/
structure Arrived (w w' : World) (e : EntityRef) : Prop where
  live_eq : (w'.store 0).live = (w.store 0).live.insert (w.uriOf e) e.serial
  edges_eq : (w'.store 0).edges = (w.store 0).edges
  isCurrent_iff : ∀ e' : EntityRef, e'.store = 0 → (w'.isCurrent e' ↔ w.isCurrent e' ∨ e = e')
  uri_eq : ∀ e', w'.uriOf e' = w.uriOf e'
  kind_eq : ∀ e', w'.kindOf e' = w.kindOf e'
  property_eq : ∀ e' prop, w'.property e' prop = w.property e' prop
  free : ∀ uri ∈ (w.store 0).live, uri ≠ w.uriOf e

theorem arrived_enlist {kind : String} (h : OnGround (.coming e uri kind) w) :
    Arrived w (w.enlist e) e := by
  obtain ⟨hground', -⟩ := OnGround.enlist h
  obtain ⟨hground, hnew⟩ := h
  have hsteady := w.steady_enlist e
  have hsize : e.store < w.stores.size := by
    rw [hnew.store_eq, hground.stores_size]
    exact Nat.one_pos
  have hstore : (w.enlist e).store e.store = _ := w.store_modifyStore_self hsize _
  refine ⟨?_, ?_, fun e' he' ↦ ?_, hsteady.uriOf_eq, hsteady.kindOf_eq, fun e' prop ↦ ?_,
    fun uri' hmem heq ↦ ?_⟩
  · rw [← hnew.store_eq, hstore]
    rfl
  · exact w.part_modifyStore (·.edges) (by intro; rfl) e.store 0
  · rw [hground'.isCurrent_iff he', hground.isCurrent_iff he', hsteady.size_eq, hsteady.entity_eq]
    constructor
    · rintro ⟨hpos, hle, -, hlive⟩
      by_cases heq : e = e'
      · exact .inr heq
      · have hserial : ¬e'.serial = e.serial := fun hserial ↦
          heq (EntityRef.eq_of_serial (hnew.store_eq.trans he'.symm) hserial.symm)
        exact .inl ⟨hpos, hle, hserial, hlive⟩
    · rintro (⟨hpos, hle, -, hlive⟩ | rfl)
      · exact ⟨hpos, hle, not_false, hlive⟩
      · exact ⟨hnew.serial_pos, hnew.serial_le, not_false, hnew.live⟩
  · refine World.property_congr ?_
    rw [World.property?, hsteady.entity_eq, World.property?]
    rfl
  · have hfree := hnew.free
    rw [World.contains, ← hnew.uri_eq, ← heq, Std.TreeMap.contains_iff_mem.mpr hmem] at hfree
    exact Bool.noConfusion hfree

namespace Arrived

variable {hidden : Nat → Prop} (h : Arrived w w' e) (hground : Ground hidden w)
include h

theorem mark_eq (e' : EntityRef) : mark w' e' = mark w e' := by
  rw [mark, h.uri_eq, h.property_eq, h.property_eq, mark]

theorem find?_eq (uri' : Uri) :
    w'.find? 0 uri' = if w.uriOf e = uri' then some ⟨0, e.serial⟩ else w.find? 0 uri' := by
  rw [World.find?, h.live_eq, Std.TreeMap.get?_eq_getElem?, Std.TreeMap.getElem?_insert]
  by_cases huri : w.uriOf e = uri'
  · rw [if_pos huri, if_pos (by simpa using huri)]
    rfl
  · rw [if_neg huri, if_neg (by simpa using huri)]
    rfl

include hground

/-- No edge has an end at the URI of an entity that was not there. -/
theorem not_end {edge : Edge} (hmem : edge ∈ (w.store 0).edges.edges) :
    edge.source ≠ w.uriOf e ∧ edge.target ≠ w.uriOf e := by
  obtain ⟨hsource, htarget⟩ := hground.coherent.ends edge hmem
  exact ⟨h.free _ (Std.TreeMap.contains_iff_mem.mp hsource),
    h.free _ (Std.TreeMap.contains_iff_mem.mp htarget)⟩

theorem linked_eq (source : EntityRef) : linked w' source = linked w source := by
  rw [linked, h.edges_eq, h.uri_eq, linked]
  have hfind : ((w.store 0).edges.sources (w.uriOf source) Schema.sourceKind).filterMap (w'.find? 0) =
      ((w.store 0).edges.sources (w.uriOf source) Schema.sourceKind).filterMap (w.find? 0) := by
    refine List.filterMap_congr fun uri' hmem ↦ ?_
    have hedge := (hground.coherent.edges.lists.mem_sources
      ⟨Schema.sourceKind, uri', w.uriOf source⟩).mp hmem
    rw [h.find?_eq, if_neg (Ne.symm (h.not_end hground hedge).1)]
  rw [hfind, funext h.mark_eq, funext h.kind_eq]

/-- Nothing is linked to an entity that was not there. -/
theorem linked_new : linked w' e = [] := by
  have hnone : (w.store 0).edges.sources (w.uriOf e) Schema.sourceKind = [] := by
    refine List.eq_nil_iff_forall_not_mem.mpr fun uri' hmem ↦ ?_
    have hedge := (hground.coherent.edges.lists.mem_sources
      ⟨Schema.sourceKind, uri', w.uriOf e⟩).mp hmem
    exact (h.not_end hground hedge).2 rfl
  rw [linked, h.edges_eq, h.uri_eq, hnone]
  rfl

variable (hground' : Ground (fun _ ↦ False) w') (he : e.store = 0)
include hground' he

/-- A breakpoint that arrives says to be on its path, and is linked to nothing yet. -/
theorem scene_breakpoint (hkind : w.kindOf e = kind) (hpath : w.property e "path" = .str path) :
    scene w' path = (scene w path).stating (mark w e) := by
  have hlist : w'.entitiesOf 0 sourceKind = w.entitiesOf 0 sourceKind := by
    refine entitiesOf_congr hground hground' sourceKind fun e' he' ↦ ?_
    rw [h.isCurrent_iff e' he', h.kind_eq]
    refine and_congr_left fun hkind' ↦ or_iff_left fun heq ↦ ?_
    rw [← heq, hkind] at hkind'
    exact absurd hkind' (by decide)
  have hsource : sourceOn w' path = sourceOn w path := by
    rw [sourceOn, hlist, funext fun e ↦ funext (h.property_eq e), sourceOn]
  refine Scene.ext hsource ?_ (funext fun e' ↦ ?_)
  · have hscene : (scene w' path).marks = (sourceOn w path).elim [] (linked w') := by
      rw [scene, hsource]
    rw [hscene, funext (h.linked_eq hground)]
    rfl
  · have hstated : ((scene w path).stating (mark w e)).stated e' =
        Function.update (stated w path) e (some (mark w e)) e' := rfl
    have hstated' : (scene w' path).stated e' = stated w' path e' := rfl
    rw [hstated, hstated', stated, h.kind_eq, h.property_eq, h.mark_eq]
    by_cases heq : e' = e
    · subst heq
      rw [Function.update_self, if_pos ⟨he, (h.isCurrent_iff e' he).mpr (.inr rfl), hkind, hpath⟩]
    · rw [Function.update_of_ne heq, stated]
      refine if_congr (and_congr_right fun he' ↦ ?_) rfl rfl
      rw [h.isCurrent_iff e' he', or_iff_left (Ne.symm heq)]

/-- A source that arrives is that of its path, if there was none. -/
theorem scene_source (hkind : w.kindOf e = sourceKind) (hpath : w.property e "path" = .str path)
    (hnone : sourceOn w path = none) : scene w' path = (scene w path).founding e := by
  have hold : ∀ e' : EntityRef, e'.store = 0 → w.isCurrent e' → w.kindOf e' = sourceKind →
      w.property e' "path" ≠ .str path := fun e' he' hcurrent' hkind' hpath' ↦ by
    have hmem : e' ∈ (w.entitiesOf 0 sourceKind).filter fun e ↦ w.property e "path" = .str path :=
      List.mem_filter.mpr ⟨(mem_entitiesOf hground).mpr ⟨he', hcurrent', hkind'⟩,
        decide_eq_true hpath'⟩
    rw [List.head?_eq_none_iff.mp hnone] at hmem
    exact absurd hmem List.not_mem_nil
  have hcurrent : w'.isCurrent e := (h.isCurrent_iff e he).mpr (.inr rfl)
  have hsource : sourceOn w' path = some e := by
    cases heq : sourceOn w' path with
    | none =>
      have hmem : e ∈ (w'.entitiesOf 0 sourceKind).filter fun e ↦ w'.property e "path" = .str path :=
        List.mem_filter.mpr ⟨(mem_entitiesOf hground').mpr ⟨he, hcurrent, (h.kind_eq e).trans hkind⟩,
          decide_eq_true ((h.property_eq e _).trans hpath)⟩
      rw [List.head?_eq_none_iff.mp heq] at hmem
      exact absurd hmem List.not_mem_nil
    | some e' =>
      obtain ⟨he', hcurrent', hkind', hpath'⟩ := sourceOn_current hground' heq
      rw [h.kind_eq] at hkind'
      rw [h.property_eq] at hpath'
      rcases (h.isCurrent_iff e' he').mp hcurrent' with hbefore | rfl
      · exact absurd hpath' (hold e' he' hbefore hkind')
      · rfl
  refine Scene.ext hsource ?_ (funext fun e' ↦ ?_)
  · have hmarks : (scene w' path).marks = linked w' e := by
      rw [scene, hsource]
      rfl
    have hmarks' : ((scene w path).founding e).marks = (sourceOn w path).elim [] (linked w) := rfl
    rw [hmarks, hmarks', hnone, h.linked_new hground]
    rfl
  · have hstated : ((scene w path).founding e).stated e' = stated w path e' := rfl
    have hstated' : (scene w' path).stated e' = stated w' path e' := rfl
    rw [hstated, hstated', stated, h.kind_eq, h.property_eq, h.mark_eq, stated]
    refine if_congr (and_congr_right fun he' ↦ ?_) rfl rfl
    rw [h.isCurrent_iff e' he', or_and_right, or_iff_left fun hnew ↦ ?_]
    rw [← hnew.1, hkind] at hnew
    exact absurd hnew.2.1 (by decide)

end Arrived

/-- A breakpoint that is linked to the source of a path comes last on it. -/
theorem scene_link (hground : Ground (fun _ ↦ False) w) {source : EntityRef} {edges : Adjacency}
    (hsource : sourceOn w path = some source) (hfound : w.find? 0 uri = some e)
    (hkind : w.kindOf e = kind) (hinsert : (w.store 0).edges.insert?
      ⟨Schema.sourceKind, uri, w.uriOf source⟩ false = some edges) :
    scene (w.modifyStore 0 fun s ↦ { s with edges := edges }) path =
      (scene w path).linking (mark w e) := by
  let w' := w.modifyStore 0 fun s ↦ { s with edges := edges }
  have hstore : w'.store 0 = { w.store 0 with edges := edges } := hground.store_modifyStore _
  have hentity : ∀ e, w'.entity e = w.entity e := fun e ↦ by
    rw [World.entity, Store.incarnation, w.part_modifyStore (·.incarnations) (by intro; rfl)]
    rfl
  have huri : w'.uriOf = w.uriOf := funext fun e ↦ congrArg Entity.uri (hentity e)
  have hkind' : w'.kindOf = w.kindOf := funext fun e ↦ congrArg Entity.kind (hentity e)
  have hproperty : w'.property = w.property := funext fun e ↦ funext fun prop ↦ by
    rw [World.property, hentity, World.property]
    rfl
  have hmark : mark w' = mark w := funext fun e ↦ by rw [mark, huri, hproperty, mark]
  have hfind : w'.find? 0 = w.find? 0 := funext fun uri ↦ by rw [World.find?, hstore, World.find?]
  have hcurrent : ∀ e : EntityRef, e.store = 0 → w'.isCurrent e = w.isCurrent e := fun e he ↦ by
    rw [World.isCurrent, he, hstore, huri, World.isCurrent, he]
  have hlist : w'.entitiesOf 0 sourceKind = w.entitiesOf 0 sourceKind := by
    rw [World.entitiesOf, hstore]
    rfl
  have hsource' : sourceOn w' path = sourceOn w path := by rw [sourceOn, hlist, hproperty, sourceOn]
  refine Scene.ext hsource' ?_ (funext fun e' ↦ ?_)
  · have hmarks : (scene w' path).marks = linked w' source := by
      rw [scene, hsource', hsource]
      rfl
    have hmarks' : ((scene w path).linking (mark w e)).marks = linked w source ++ [mark w e] := by
      rw [Scene.linking, scene, hsource]
      rfl
    have hlast : edges.sources (w.uriOf source) Schema.sourceKind =
        (w.store 0).edges.sources (w.uriOf source) Schema.sourceKind ++ [uri] :=
      Adjacency.sources_insert? hinsert
    have hedges : (w'.store 0).edges = edges := by rw [hstore]
    rw [hmarks, hmarks', linked, hedges, huri, hlast, hfind, hkind', hmark, List.filterMap_append,
      List.filterMap_cons_some hfound, List.filterMap_nil, List.filter_append,
      List.filter_cons_of_pos (by simpa using hkind), List.map_append]
    rfl
  · have hstated : (scene w' path).stated e' = stated w' path e' := rfl
    have hstated' : ((scene w path).linking (mark w e)).stated e' = stated w path e' := rfl
    rw [hstated, hstated', stated, hkind', hproperty, hmark, stated]
    refine if_congr (and_congr_right fun he' ↦ ?_) rfl rfl
    rw [hcurrent e' he']

end LiveGraph.Breakpoint
