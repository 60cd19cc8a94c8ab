import LiveGraph.Breakpoint.Basic
import LiveGraph.Proofs.Index.Listing
import Mathlib.Data.List.Sort

/-!
# What there is on a path

The source of a path is the oldest one that has the path, and its breakpoints are those that are linked
to it, in order. Others may say of themselves that they are on the path. All that is said without the
index of sources, so that it holds while changes are not told yet. The service finds its source by the
index; between operations that comes to the same.
-/

namespace LiveGraph.Breakpoint

/-- A breakpoint with its URI, line and column. -/
structure Mark where
  entity : EntityRef
  uri : Uri
  line : Option Int64
  column : Option Int64
  deriving DecidableEq

/-- What there is on a path: its source, what is linked to that, and what says to be there. -/
@[ext]
structure Scene where
  source : Option EntityRef
  marks : List Mark
  stated : EntityRef → Option Mark

def mark (w : World) (e : EntityRef) : Mark :=
  ⟨e, w.uriOf e, (w.property e "line").asInt?, (w.property e "column").asInt?⟩

/-- The oldest source that has a path. -/
def sourceOn (w : World) (path : String) : Option EntityRef :=
  ((w.entitiesOf 0 sourceKind).filter fun e ↦ w.property e "path" = .str path).head?

/-- The breakpoints that are linked to a source. -/
def linked (w : World) (source : EntityRef) : List Mark :=
  let es := ((w.store 0).edges.sources (w.uriOf source) Schema.sourceKind).filterMap (w.find? 0)
  (es.filter fun e ↦ w.kindOf e = kind).map (mark w)

/-- A breakpoint that says to be on a path, whether or not it is linked to the source. -/
def stated (w : World) (path : String) (e : EntityRef) : Option Mark :=
  if e.store = 0 ∧ w.isCurrent e ∧ w.kindOf e = kind ∧ w.property e "path" = .str path then
    some (mark w e)
  else none

def scene (w : World) (path : String) : Scene where
  source := sourceOn w path
  marks := (sourceOn w path).elim [] (linked w)
  stated := stated w path

/-- The world is the same on a path. -/
def SamePath (path : String) (w w' : World) : Prop :=
  scene w' path = scene w path

namespace Scene

def onLine (ς : Scene) (line : Nat) : List Mark :=
  ς.marks.filter fun m ↦ m.line = some (Int64.ofNat line)

/-- The breakpoint that a location means. -/
def find (ς : Scene) (l : Location) : Option EntityRef :=
  choose (l.column.map Int64.ofNat) ((ς.onLine l.line).map fun m ↦ (m.entity, m.column))

end Scene

section Readings

variable {own : String → Prop} {δ : Definitions} {β : Background} {w : World} {e : EntityRef}

theorem sourceExtractor_eq_some (value? : String → Option Value) (path : String) :
    sourceExtractor value? = some (.str path) ↔ (value? "path").getD .nil = .str path := by
  have hkey : sourceExtractor value? = if ((value? "path").getD .nil).isNil then none
      else some ((value? "path").getD .nil) := rfl
  rw [hkey]
  cases (value? "path").getD .nil <;> simp [Value.isNil]

theorem keyOf?_sourceExtractor (path : String) :
    w.keyOf? sourceExtractor e = some (.str path) ↔ w.property e "path" = .str path := by
  rw [World.keyOf?, sourceExtractor_eq_some, World.getD_property?]

variable (h : Indexed own δ β (.whole ∅) w) (heffects : w.effects = []) (hown : own sourceIndex)
  (hδ : δ sourceIndex = some (sourceKind, sourceExtractor))
include h heffects hown hδ

/-- Where nothing is left to be told, the index of sources gives the source of a path. -/
theorem source_value (path : String) : (source 0 path).value w = sourceOn w path := by
  obtain ⟨x, hx, habout⟩ := Option.map_eq_some_iff.mp ((h.defined sourceIndex hown).trans hδ)
  obtain ⟨hkind, hextractor⟩ := Prod.mk.inj habout
  have hlists := h.lists heffects hx (.str path)
  rw [hkind, hextractor] at hlists
  have hground : Ground (fun _ ↦ False) w := h.ground
  have heq : (Store.filed 0 sourceIndex (.str path)).value w =
      (w.entitiesOf 0 sourceKind).filter fun e ↦ w.property e "path" = .str path := by
    have : Std.Antisymm fun a b : EntityRef ↦ a.serial < b.serial :=
      ⟨fun a b hab hba ↦ absurd hab (Nat.lt_asymm hba)⟩
    have : Std.Irrefl fun a b : EntityRef ↦ a.serial < b.serial := ⟨fun a ↦ Nat.lt_irrefl _⟩
    refine hlists.sorted.eq_of_mem_iff (World.sorted_entitiesOf sourceKind |>.filter _) fun e ↦ ?_
    rw [hlists.mem_iff, List.mem_filter, World.mem_entitiesOf_of_coherent hground.coherent,
      keyOf?_sourceExtractor, decide_eq_true_eq, and_assoc]
  calc (source 0 path).value w
    _ = ((Store.filed 0 sourceIndex (.str path)).value w).head? := hlists.first_eq
    _ = sourceOn w path := by rw [heq, sourceOn]

/-- The service then lists the breakpoints that are linked to the source. -/
theorem onPath_value (path : String) :
    ((onPath 0 path).value w).map (mark w) = (scene w path).marks := by
  have hsource := source_value h heffects hown hδ path
  rw [onPath, Reads.value_bind, hsource, scene]
  cases sourceOn w path with
  | none => rfl
  | some e =>
    rw [Option.elim_some, linked, ← Store.value_lookupAll]
    rfl

/-- The service then finds the breakpoint that a location means. -/
theorem find_value (l : Location) : (find 0 l).value w = (scene w l.path).find l := by
  rw [find, Reads.value_bind, Scene.find, Scene.onLine, ← onPath_value h heffects hown hδ, List.filter_map,
    List.map_map]
  rfl

end Readings

section Alike

variable {hidden : Nat → Prop} {w w' : World}

/-- Two worlds with the same entities to be found, the same edges and the same properties. -/
structure Alike (w w' : World) : Prop where
  live_eq : (w'.store 0).live = (w.store 0).live
  byKind_eq : (w'.store 0).byKind = (w.store 0).byKind
  edges_eq : (w'.store 0).edges = (w.store 0).edges
  uri_eq : ∀ e : EntityRef, e.store = 0 → w.isCurrent e → w'.uriOf e = w.uriOf e
  kind_eq : ∀ e : EntityRef, e.store = 0 → w.isCurrent e → w'.kindOf e = w.kindOf e
  property_eq : ∀ e : EntityRef, e.store = 0 → w.isCurrent e → ∀ prop,
    w'.property? e prop = w.property? e prop

namespace Alike

/-- A change of parts of the first store that no scene has to do with. -/
theorem modifyStore (w : World) {s : StoreId} {F : Store → Store} (hlive : ∀ s, (F s).live = s.live)
    (hbyKind : ∀ s, (F s).byKind = s.byKind) (hedges : ∀ s, (F s).edges = s.edges)
    (hincarnations : ∀ s, (F s).incarnations = s.incarnations) : Alike w (w.modifyStore s F) := by
  have hentity : ∀ e, (w.modifyStore s F).entity e = w.entity e := fun e ↦ by
    rw [World.entity, Store.incarnation, w.part_modifyStore (·.incarnations) hincarnations]
    rfl
  refine ⟨w.part_modifyStore (·.live) hlive s 0, w.part_modifyStore (·.byKind) hbyKind s 0,
    w.part_modifyStore (·.edges) hedges s 0, fun e _ _ ↦ ?_, fun e _ _ ↦ ?_, fun e _ _ prop ↦ ?_⟩
  · rw [World.uriOf, hentity, World.uriOf]
  · rw [World.kindOf, hentity, World.kindOf]
  · rw [World.property?, hentity, World.property?]
    rfl

/-- A change of signals that leaves the values of all properties. -/
theorem signals (hstores : w'.stores = w.stores)
    (hvalue : ∀ (e : EntityRef) prop id, e.store = 0 → w.isCurrent e →
      (w.entity e).props.get? prop = some id → w'.valueOf id = w.valueOf id) : Alike w w' := by
  have hstore : ∀ s, w'.store s = w.store s := fun s ↦ by rw [World.store, hstores, World.store]
  have hentity : ∀ e, w'.entity e = w.entity e := fun e ↦ by
    rw [World.entity, hstore, World.entity]
  refine ⟨by rw [hstore], by rw [hstore], by rw [hstore], fun e _ _ ↦ ?_, fun e _ _ ↦ ?_,
    fun e he hcurrent prop ↦ ?_⟩
  · rw [World.uriOf, hentity, World.uriOf]
  · rw [World.kindOf, hentity, World.kindOf]
  · rw [World.property?, hentity, World.property?]
    cases hprop : (w.entity e).props.get? prop with
    | none => rfl
    | some id => exact congrArg some (hvalue e prop id he hcurrent hprop)

end Alike

/-- What is listed under a type is what can be found of it. -/
theorem mem_entitiesOf (hground : Ground hidden w) {kind : String} {e : EntityRef} :
    e ∈ w.entitiesOf 0 kind ↔ e.store = 0 ∧ w.isCurrent e ∧ w.kindOf e = kind := by
  rw [World.entitiesOf, List.mem_map, World.isCurrent, decide_eq_true_eq]
  constructor
  · rintro ⟨n, hn, rfl⟩
    rw [Store.serialsOf, Std.TreeMap.mem_keys, ← Std.TreeMap.isSome_getElem?_iff_mem,
      Option.isSome_iff_exists] at hn
    obtain ⟨uri, huri⟩ := hn
    obtain ⟨hlive, hkind⟩ := (hground.coherent.bucket_iff kind n uri).mp huri
    refine ⟨rfl, ?_, hkind⟩
    rw [World.uriOf, World.entity, hground.coherent.uri_eq hlive]
    exact hlive
  · rintro ⟨he, hlive, hkind⟩
    rw [World.kindOf, World.entity, he] at hkind
    rw [he] at hlive
    refine ⟨e.serial, ?_, EntityRef.eq_of_serial he.symm rfl⟩
    rw [Store.serialsOf, Std.TreeMap.mem_keys, ← Std.TreeMap.isSome_getElem?_iff_mem,
      Option.isSome_iff_exists]
    exact ⟨w.uriOf e, (hground.coherent.bucket_iff kind _ _).mpr ⟨hlive, hkind⟩⟩

theorem isCurrent_of_find? (hground : Ground hidden w) {uri : Uri} {e : EntityRef}
    (hfind : w.find? 0 uri = some e) : e.store = 0 ∧ w.isCurrent e ∧ w.uriOf e = uri := by
  obtain ⟨n, hlive, rfl⟩ := Option.map_eq_some_iff.mp hfind
  have huri : w.uriOf ⟨0, n⟩ = uri := hground.coherent.uri_eq hlive
  refine ⟨rfl, ?_, huri⟩
  rw [World.isCurrent, decide_eq_true_eq, huri]
  exact hlive

theorem find?_of_isCurrent {e : EntityRef} (he : e.store = 0) (hcurrent : w.isCurrent e) :
    w.find? 0 (w.uriOf e) = some e := by
  rw [World.isCurrent, he, decide_eq_true_eq] at hcurrent
  rw [World.find?, hcurrent]
  exact congrArg some (EntityRef.eq_of_serial he.symm rfl)

theorem contains_of_isCurrent {e : EntityRef} (he : e.store = 0) (hcurrent : w.isCurrent e) :
    w.contains 0 (w.uriOf e) := by
  obtain ⟨n, hn, -⟩ := Option.map_eq_some_iff.mp (find?_of_isCurrent he hcurrent)
  rw [World.contains, Std.TreeMap.contains_eq_isSome_getElem?, ← Std.TreeMap.get?_eq_getElem?, hn]
  rfl

theorem sourceOn_current (hground : Ground hidden w) {path : String} {e : EntityRef}
    (he : sourceOn w path = some e) :
    e.store = 0 ∧ w.isCurrent e ∧ w.kindOf e = sourceKind ∧ w.property e "path" = .str path := by
  obtain ⟨hmem, hpath⟩ := List.mem_filter.mp (List.mem_of_head? he)
  obtain ⟨hstore, hcurrent, hkind⟩ := (mem_entitiesOf hground).mp hmem
  exact ⟨hstore, hcurrent, hkind, of_decide_eq_true hpath⟩

theorem mem_linked {source : EntityRef} {m : Mark} : m ∈ linked w source ↔
    (∃ uri ∈ (w.store 0).edges.sources (w.uriOf source) Schema.sourceKind, w.find? 0 uri = some m.entity) ∧
      w.kindOf m.entity = kind ∧ mark w m.entity = m := by
  simp only [linked, List.mem_map, List.mem_filter, List.mem_filterMap, decide_eq_true_eq]
  constructor
  · rintro ⟨e, ⟨hfound, hkind⟩, rfl⟩
    exact ⟨hfound, hkind, rfl⟩
  · rintro ⟨hfound, hkind, hmark⟩
    exact ⟨m.entity, ⟨hfound, hkind⟩, hmark⟩

theorem stated_eq_some {path : String} {e : EntityRef} {m : Mark} : stated w path e = some m ↔
    (e.store = 0 ∧ w.isCurrent e ∧ w.kindOf e = kind ∧ w.property e "path" = .str path) ∧ mark w e = m := by
  rw [stated, Option.ite_none_right_eq_some, Option.some_inj]

/-- The breakpoints on a path are there to be found. -/
theorem marks_current (hground : Ground hidden w) {path : String} {m : Mark}
    (hm : m ∈ (scene w path).marks) : m.entity.store = 0 ∧ w.isCurrent m.entity ∧
      w.kindOf m.entity = kind ∧ mark w m.entity = m := by
  have hmarks : (scene w path).marks = (sourceOn w path).elim [] (linked w) := rfl
  rw [hmarks] at hm
  cases hsource : sourceOn w path with
  | none =>
    rw [hsource] at hm
    exact absurd hm List.not_mem_nil
  | some source =>
    rw [hsource] at hm
    obtain ⟨⟨uri, -, hfound⟩, habout⟩ := mem_linked.mp hm
    obtain ⟨he, hcurrent, -⟩ := isCurrent_of_find? hground hfound
    exact ⟨he, hcurrent, habout⟩

namespace Alike

variable (h : Alike w w') (hground : Ground hidden w)
include h hground

theorem isCurrent_eq {e : EntityRef} (he : e.store = 0) : w'.isCurrent e = w.isCurrent e := by
  rw [Bool.eq_iff_iff]
  constructor
  · intro hcurrent
    rw [World.isCurrent, he, h.live_eq, decide_eq_true_eq] at hcurrent
    have huri : w.uriOf e = w'.uriOf e := by
      rw [World.uriOf, World.entity, he]
      exact hground.coherent.uri_eq hcurrent
    rw [World.isCurrent, he, huri, decide_eq_true_eq]
    exact hcurrent
  · intro hcurrent
    rw [World.isCurrent, h.uri_eq e he hcurrent, he, h.live_eq]
    rw [World.isCurrent, he] at hcurrent
    exact hcurrent

omit hground in
theorem mark_eq {e : EntityRef} (he : e.store = 0) (hcurrent : w.isCurrent e) : mark w' e = mark w e := by
  have hprop := fun prop ↦ World.property_congr (h.property_eq e he hcurrent prop)
  rw [mark, h.uri_eq e he hcurrent, hprop, hprop, mark]

theorem sourceOn_eq (path : String) : sourceOn w' path = sourceOn w path := by
  have hlist : w'.entitiesOf 0 sourceKind = w.entitiesOf 0 sourceKind := by
    rw [World.entitiesOf, Store.serialsOf, Store.bucket, h.byKind_eq]
    rfl
  rw [sourceOn, hlist, sourceOn]
  rw [List.filter_congr fun e he ↦ ?_]
  obtain ⟨hstore, hcurrent, -⟩ := (mem_entitiesOf hground).mp he
  rw [World.property_congr (h.property_eq e hstore hcurrent "path")]

theorem linked_eq {e : EntityRef} (he : e.store = 0) (hcurrent : w.isCurrent e) :
    linked w' e = linked w e := by
  have hfind : w'.find? 0 = w.find? 0 := by
    funext uri
    rw [World.find?, h.live_eq, World.find?]
  rw [linked, h.edges_eq, h.uri_eq e he hcurrent, hfind, linked]
  have hfound : ∀ e' ∈ ((w.store 0).edges.sources (w.uriOf e) Schema.sourceKind).filterMap (w.find? 0),
      e'.store = 0 ∧ w.isCurrent e' := fun e' he' ↦ by
    obtain ⟨uri, -, hfind⟩ := List.mem_filterMap.mp he'
    obtain ⟨hstore, hcurrent, -⟩ := isCurrent_of_find? hground hfind
    exact ⟨hstore, hcurrent⟩
  rw [List.filter_congr fun e' he' ↦ by
    rw [h.kind_eq e' (hfound e' he').1 (hfound e' he').2]]
  refine List.map_congr_left fun e' he' ↦ ?_
  obtain ⟨hstore, hcurrent'⟩ := hfound e' (List.mem_of_mem_filter he')
  exact h.mark_eq hstore hcurrent'

theorem stated_eq (path : String) : stated w' path = stated w path := by
  funext e
  unfold stated
  by_cases he : e.store = 0 ∧ w.isCurrent e
  · obtain ⟨he, hcurrent⟩ := he
    rw [h.kind_eq e he hcurrent, World.property_congr (h.property_eq e he hcurrent "path"),
      h.mark_eq he hcurrent, h.isCurrent_eq hground he]
  · refine (if_neg fun hcond ↦ he ?_).trans (if_neg fun hcond ↦ he ⟨hcond.1, hcond.2.1⟩).symm
    exact ⟨hcond.1, (h.isCurrent_eq hground hcond.1).symm.trans hcond.2.1⟩

theorem scene_eq (path : String) : scene w' path = scene w path := by
  have hsource := h.sourceOn_eq hground path
  refine Scene.ext hsource ?_ (h.stated_eq hground path)
  rw [scene, hsource, scene]
  cases heq : sourceOn w path with
  | none => rfl
  | some e =>
    obtain ⟨he, hcurrent, -⟩ := sourceOn_current hground heq
    exact h.linked_eq hground he hcurrent

end Alike

end Alike

end LiveGraph.Breakpoint
