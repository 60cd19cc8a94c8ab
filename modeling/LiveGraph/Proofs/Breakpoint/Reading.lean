import LiveGraph.Proofs.Breakpoint.Insertion
import LiveGraph.Proofs.Breakpoint.Removal
import LiveGraph.Proofs.Breakpoint.Roster
import LiveGraph.Proofs.Snapshot.Contents

/-!
# What the service reads

All that the service for breakpoints reads off a store is in the roster of the store, and the roster is in what is
captured of it. So the service goes on from a snapshot as it would have gone on from the store.
-/

namespace LiveGraph

namespace World

variable {w w' : World}

/-- The entities of a type are listed by age as well. -/
theorem entitiesOf_eq_filter {hidden : Nat → Prop} (h : Ground hidden w) (hcoherent : (w.store 0).Coherent)
    (kind : String) : w.entitiesOf 0 kind = (w.byAge 0).filter fun e ↦ w.kindOf e = kind := by
  have : Std.Antisymm fun a b : EntityRef ↦ a.serial < b.serial :=
    ⟨fun a b hab hba ↦ absurd hab (Nat.lt_asymm hba)⟩
  have : Std.Irrefl fun a b : EntityRef ↦ a.serial < b.serial := ⟨fun a ↦ Nat.lt_irrefl _⟩
  refine (sorted_entitiesOf kind).eq_of_mem_iff ((w.sorted_byAge 0).filter _) fun e ↦ ?_
  rw [Breakpoint.mem_entitiesOf h, List.mem_filter, mem_byAge hcoherent, decide_eq_true_eq, and_assoc]

/-- What a store holds is in its normal form. -/
theorem normal_contents (h : (w.store 0).Coherent) : (w.contents 0).normal = w.contents 0 := by
  have hentities : (w.contents 0).entities.map (·.normal) = (w.contents 0).entities := by
    refine (List.map_congr_left fun spec hspec ↦ ?_).trans (List.map_id _)
    obtain ⟨e, -, rfl⟩ := List.mem_map.mp hspec
    have hprops : (w.specOf e).props = (w.specOf e).normal.props :=
      (w.specOf e).eq_normal (w.pairwise_properties e) fun p ↦
        ((find?_key_eq_some (w.nodup_properties e)).trans (and_iff_left rfl)).symm
    rw [EntitySpec.normal, ← EntitySpec.normal, id]
    exact (congrArg (EntitySpec.mk (w.uriOf e) (w.kindOf e)) hprops).symm
  have hjoins : (w.contents 0).edges.filter (w.contents 0).joins = (w.contents 0).edges := by
    refine List.filter_eq_self.mpr fun edge hedge ↦ ?_
    rw [joins_contents h, Bool.and_eq_true_iff]
    exact h.ends edge hedge
  have hedges : Snapshot.sorted Edge.byEnd (w.contents 0).standing = (w.contents 0).edges := by
    rw [Snapshot.standing, hjoins, Snapshot.firsts_of_nodup]
    · exact (w.store 0).edges.sorted_edges
    · rw [List.map_id]
      exact h.edges.lists.nodup_edges
  rw [Snapshot.normal, hentities, hedges]
  rfl

end World

/-! ## The roster of a snapshot -/

/-- The value that is told of a property, the first one if there are several. -/
def EntitySpec.value (s : EntitySpec) (prop : String) : Value :=
  ((s.props.find? (·.1 = prop)).map (·.2)).getD .nil

theorem EntitySpec.value_normal (s : EntitySpec) (prop : String) : s.normal.value prop = s.value prop := by
  rw [value, s.find?_normal, value]

namespace Breakpoint

def Item.ofSpec (s : EntitySpec) : Item :=
  ⟨s.uri, s.kind, s.value "path", s.value "line", s.value "column"⟩

theorem Item.ofSpec_normal (s : EntitySpec) : Item.ofSpec s.normal = Item.ofSpec s := by
  rw [Item.ofSpec, s.value_normal, s.value_normal, s.value_normal]
  rfl

/-- The roster of a snapshot. -/
def rosterOf (s : Snapshot) : Roster where
  items := s.entities.map Item.ofSpec
  linked uri := (s.edges.filter fun e ↦ e.target = uri ∧ e.kind = Schema.sourceKind).map (·.source)

theorem rosterOf_withEntity (s : Snapshot) (spec : EntitySpec) :
    rosterOf (s.withEntity spec) = (rosterOf s).withItem (.ofSpec spec) := by
  have hitems : (s.entities ++ [spec.normal]).map Item.ofSpec = s.entities.map Item.ofSpec ++ [.ofSpec spec] := by
    rw [List.map_append, List.map_singleton, Item.ofSpec_normal]
  exact congrArg (fun items ↦ (⟨items, (rosterOf s).linked⟩ : Roster)) hitems

/-- A new edge from a breakpoint links it to its source. -/
theorem rosterOf_withEdge {s : Snapshot} {source target : Uri}
    (hjoins : s.joins ⟨Schema.sourceKind, source, target⟩ = true)
    (hnew : ⟨Schema.sourceKind, source, target⟩ ∉ s.edges) :
    rosterOf (s.withEdge ⟨Schema.sourceKind, source, target⟩) = (rosterOf s).link source target := by
  let e : Edge := ⟨Schema.sourceKind, source, target⟩
  have hfilter : ∀ l : List Edge, ∀ uri, (Snapshot.sorted Edge.byEnd l).filter (fun e ↦ e.target = uri ∧
      e.kind = Schema.sourceKind) = l.filter fun e ↦ e.target = uri ∧ e.kind = Schema.sourceKind := fun l uri ↦ by
    rw [Adjacency.filter_ends _ ⟨Schema.sourceKind, "", uri⟩, Snapshot.filter_sorted, ← Adjacency.filter_ends]
  rw [Snapshot.withEdge, if_pos ⟨hjoins, hnew⟩]
  refine Roster.ext rfl (funext fun uri ↦ ?_)
  change ((Snapshot.sorted Edge.byEnd (s.edges ++ [e])).filter _).map _ = _
  rw [hfilter, List.filter_append, List.map_append]
  by_cases huri : uri = target
  · subst huri
    simp [rosterOf, Roster.link, e]
  · simp [rosterOf, Roster.link, e, huri, Ne.symm huri]

/-! ## The roster of a store -/

def item (w : World) (e : EntityRef) : Item :=
  ⟨w.uriOf e, w.kindOf e, w.property e "path", w.property e "line", w.property e "column"⟩

/-- What the service goes by in a store. -/
def roster (w : World) : Roster where
  items := (w.byAge 0).map (item w)
  linked uri := (w.store 0).edges.sources uri Schema.sourceKind

variable {w w' : World}

theorem value_specOf (w : World) (e : EntityRef) (prop : String) : (w.specOf e).value prop = w.property e prop := by
  rw [← World.getD_property?, EntitySpec.value, w.find?_specOf, Option.map_map]
  cases w.property? e prop <;> rfl

theorem rosterOf_contents (w : World) : rosterOf (w.contents 0) = roster w := by
  refine Roster.ext ?_ (funext fun uri ↦ ?_)
  · change ((w.byAge 0).map w.specOf).map Item.ofSpec = _
    rw [List.map_map]
    refine List.map_congr_left fun e _ ↦ ?_
    rw [Function.comp_apply, Item.ofSpec, value_specOf, value_specOf, value_specOf]
    rfl
  · exact ((w.store 0).edges.sources_eq uri Schema.sourceKind).symm

theorem mem_uris_roster (h : (w.store 0).Coherent) {uri : Uri} :
    uri ∈ (roster w).uris ↔ w.contains 0 uri = true := by
  rw [← World.holds_contents h, Snapshot.holds, decide_eq_true_iff, World.uris_contents, Roster.uris, roster,
    List.map_map]
  rfl

theorem nodup_uris (h : (w.store 0).Coherent) : ((w.byAge 0).map w.uriOf).Nodup := by
  have hnodup : (w.byAge 0).Nodup := (w.sorted_byAge 0).imp fun hlt heq ↦ Nat.ne_of_lt hlt (congrArg _ heq)
  refine hnodup.map_on fun e he e' he' heq ↦ ?_
  obtain ⟨hstore, hcurrent⟩ := (World.mem_byAge h).mp he
  obtain ⟨hstore', hcurrent'⟩ := (World.mem_byAge h).mp he'
  exact World.eq_of_isCurrent (hstore.trans hstore'.symm) hcurrent hcurrent' heq

/-- Each entity that can be found is on the roster, and is found there by its URI. -/
theorem item?_roster {hidden : Nat → Prop} (hground : Ground hidden w) (h : (w.store 0).Coherent) (uri : Uri) :
    (roster w).item? uri = (w.find? 0 uri).map (item w) := by
  have hitem : (roster w).item? uri = ((w.byAge 0).find? fun e ↦ w.uriOf e = uri).map (item w) := List.find?_map
  rw [hitem]
  congr 1
  refine Option.ext fun e ↦ ?_
  rw [find?_key_eq_some (nodup_uris h), World.mem_byAge h]
  constructor
  · rintro ⟨⟨hstore, hcurrent⟩, rfl⟩
    exact find?_of_isCurrent hstore hcurrent
  · intro hfind
    obtain ⟨hstore, hcurrent, huri⟩ := isCurrent_of_find? hground hfind
    exact ⟨⟨hstore, hcurrent⟩, huri⟩

theorem closed_roster (h : (w.store 0).Coherent) : (roster w).Closed where
  nodup := by
    rw [Roster.uris, roster, List.map_map]
    exact nodup_uris h
  linked_mem target uri huri := by
    have hedge := ((w.store 0).edges.mem_edges ⟨Schema.sourceKind, uri, target⟩).mpr huri
    exact (mem_uris_roster h).mpr (h.ends _ hedge).1
  linked_nil target hnot := by
    refine List.eq_nil_iff_forall_not_mem.mpr fun uri huri ↦ hnot ?_
    have hedge := ((w.store 0).edges.mem_edges ⟨Schema.sourceKind, uri, target⟩).mpr huri
    exact (mem_uris_roster h).mpr (h.ends _ hedge).2

/-! ## Changes of the roster -/

theorem item_congr {e : EntityRef} (huri : w'.uriOf e = w.uriOf e) (hkind : w'.kindOf e = w.kindOf e)
    (hproperty : ∀ prop, w'.property e prop = w.property e prop) : item w' e = item w e := by
  rw [item, huri, hkind, hproperty, hproperty, hproperty, item]

/-- What leaves entities, edges and properties as they are leaves the roster. -/
theorem Alike.roster_eq (h : Alike w w') (hground : Ground (fun _ ↦ False) w)
    (h' : (w'.store 0).Coherent) : roster w' = roster w := by
  have hbyAge := World.byAge_congr hground.coherent h' fun e he ↦ by rw [h.isCurrent_eq hground he]
  refine Roster.ext ?_ (funext fun uri ↦ by rw [roster, h.edges_eq, roster])
  rw [roster, hbyAge]
  refine List.map_congr_left fun e he ↦ ?_
  obtain ⟨hstore, hcurrent⟩ := (World.mem_byAge hground.coherent).mp he
  exact item_congr (h.uri_eq e hstore hcurrent) (h.kind_eq e hstore hcurrent) fun prop ↦
    World.property_congr (h.property_eq e hstore hcurrent prop)

/-- An entity that ends leaves the roster, with its links. -/
theorem Departed.roster_eq {e : EntityRef} (h : Departed w w' e) (hground : Ground (fun _ ↦ False) w)
    (h' : (w'.store 0).Coherent) (he : e.store = 0) (hcurrent : w.isCurrent e) :
    roster w' = (roster w).without (w.uriOf e) := by
  have hbyAge := World.byAge_eq_filter hground.coherent h' (fun e' ↦ e ≠ e') fun e' he' ↦ by
    rw [h.isCurrent_iff e' he', decide_eq_true_eq]
  refine Roster.ext ?_ (funext fun uri ↦ ?_)
  · have hkept : (w.byAge 0).filter (fun e' ↦ e ≠ e') = (w.byAge 0).filter fun e' ↦ (item w e').uri ≠ w.uriOf e := by
      refine List.filter_congr fun e' he' ↦ decide_eq_decide.mpr (not_congr ⟨fun heq ↦ heq ▸ rfl, fun heq ↦ ?_⟩)
      obtain ⟨hstore', hcurrent'⟩ := (World.mem_byAge hground.coherent).mp he'
      exact World.eq_of_isCurrent (he.trans hstore'.symm) hcurrent hcurrent' heq.symm
    have hitems : (w'.byAge 0).map (item w') = ((w.byAge 0).filter fun e' ↦ e ≠ e').map (item w) := by
      rw [hbyAge]
      refine List.map_congr_left fun e' he' ↦ ?_
      obtain ⟨hmem, hne⟩ := List.mem_filter.mp he'
      obtain ⟨hstore', hcurrent'⟩ := (World.mem_byAge hground.coherent).mp hmem
      have hne := of_decide_eq_true hne
      exact item_congr (h.uri_eq e' hstore' hcurrent' hne) (h.kind_eq e' hstore' hcurrent' hne)
        (h.property_eq e' hstore' hcurrent' hne)
    refine hitems.trans ?_
    rw [hkept, Roster.without, roster, List.filter_map]
    rfl
  · change (w'.store 0).edges.sources uri Schema.sourceKind = if uri = w.uriOf e then [] else _
    split
    · rename_i huri
      rw [huri]
      have hgone : w.uriOf e ∉ (roster w').uris := fun hmem ↦ by
        have hfound : (w'.find? 0 (w.uriOf e)).isSome := by
          rw [mem_uris_roster h', World.contains, Std.TreeMap.contains_eq_isSome_getElem?] at hmem
          rw [World.find?, Option.isSome_map]
          exact hmem
        rw [h.find?_eq, if_pos rfl] at hfound
        exact Bool.noConfusion hfound
      exact (closed_roster h').linked_nil _ hgone
    · rename_i huri
      rw [h.edges_eq, hground.coherent.edges.sources_detach huri]
      rfl

/-! ## What is read -/

section Readings

variable {hidden : Nat → Prop} (hground : Ground hidden w) (hcoherent : (w.store 0).Coherent)
include hground hcoherent

theorem source?_roster (path : String) : (roster w).source? path = (sourceOn w path).map (item w) := by
  have hsource : (roster w).source? path =
      ((w.byAge 0).find? fun e ↦ w.kindOf e = sourceKind ∧ w.property e "path" = .str path).map (item w) :=
    List.find?_map
  rw [hsource, sourceOn, World.entitiesOf_eq_filter hground hcoherent, List.filter_filter, ← List.head?_filter]
  congr 2
  refine List.filter_congr fun e _ ↦ ?_
  rw [Bool.eq_iff_iff, decide_eq_true_iff, Bool.and_eq_true_iff, decide_eq_true_iff, decide_eq_true_iff]
  exact and_comm

theorem onPath_roster (path : String) :
    (roster w).onPath path = (scene w path).marks.map fun m ↦ item w m.entity := by
  have hmarks : (scene w path).marks = (sourceOn w path).elim [] (linked w) := rfl
  rw [Roster.onPath, source?_roster hground hcoherent, hmarks]
  cases sourceOn w path with
  | none => rfl
  | some e =>
    have hfound : ((roster w).linked (w.uriOf e)).filterMap (roster w).item? =
        (((roster w).linked (w.uriOf e)).filterMap (w.find? 0)).map (item w) := by
      rw [List.map_filterMap]
      exact List.filterMap_congr fun uri _ ↦ item?_roster hground hcoherent uri
    change (((roster w).linked (w.uriOf e)).filterMap (roster w).item?).filter _ = _
    rw [hfound, Option.elim_some, linked, List.map_map, List.filter_map]
    rfl

theorem meant_roster (l : Location) : (roster w).meant l = ((scene w l.path).find l).map (item w) := by
  rw [Roster.meant, onPath_roster hground hcoherent, Scene.find, ← choose_map, List.filter_map, List.map_map,
    List.map_map, Scene.onLine]
  have hstated : ∀ m ∈ (scene w l.path).marks, mark w m.entity = m := fun m hm ↦ by
    have hmarks : (scene w l.path).marks = (sourceOn w l.path).elim [] (linked w) := rfl
    rw [hmarks] at hm
    cases hsource : sourceOn w l.path with
    | none =>
      rw [hsource] at hm
      exact absurd hm List.not_mem_nil
    | some e =>
      rw [hsource] at hm
      exact (mem_linked.mp hm).2.2
  have hline : ∀ m ∈ (scene w l.path).marks, ((fun x ↦ decide (x.line.asInt? = some (Int64.ofNat l.line))) ∘
      fun m : Mark ↦ item w m.entity) m = decide (m.line = some (Int64.ofNat l.line)) := fun m hm ↦ by
    have heq := congrArg Mark.line (hstated m hm)
    rw [Function.comp_apply, ← heq]
    rfl
  rw [List.filter_congr hline]
  congr 1
  refine List.map_congr_left fun m hm ↦ ?_
  have heq := congrArg Mark.column (hstated m (List.mem_filter.mp hm).1)
  rw [Function.comp_apply, Function.comp_apply, ← heq]
  rfl

/-- A place for a source is found where the roster has one. -/
theorem placeFrom_roster (path : String) (tries n : Nat) :
    (∀ uri, placeFrom w 0 path tries n = some (.vacant uri) →
      (roster w).seatFrom path tries n = some uri ∧ (roster w).item? uri = none) ∧
    (∀ e, placeFrom w 0 path tries n = some (.untagged e) →
      (roster w).seatFrom path tries n = some (w.uriOf e) ∧ (roster w).item? (w.uriOf e) = some (item w e)) ∧
    (placeFrom w 0 path tries n = none → (roster w).seatFrom path tries n = none) := by
  induction tries generalizing n with
  | zero => exact ⟨fun uri h ↦ absurd h.symm (Option.some_ne_none _), fun e h ↦ absurd h.symm (Option.some_ne_none _),
      fun _ ↦ rfl⟩
  | succ tries ih =>
    have hitem := item?_roster hground hcoherent (sourceUri path n)
    rw [placeFrom, Roster.seatFrom]
    cases hfind : w.find? 0 (sourceUri path n) with
    | none =>
      rw [hfind, Option.map_none] at hitem
      rw [hitem, Option.all_none, if_pos rfl]
      refine ⟨fun uri h ↦ ?_, fun e h ↦ Place.noConfusion (Option.some.inj h), fun h ↦ absurd h (Option.some_ne_none _)⟩
      obtain rfl := Place.vacant.inj (Option.some.inj h)
      exact ⟨rfl, hitem⟩
    | some e =>
      obtain ⟨-, -, huri⟩ := isCurrent_of_find? hground hfind
      rw [hfind, Option.map_some] at hitem
      rw [hitem, Option.all_some]
      have huntagged : (item w e).isUntagged = (w.kindOf e = sourceKind && (w.property e "path").isNil) := rfl
      rw [huntagged]
      dsimp only
      split
      · refine ⟨fun uri h ↦ Place.noConfusion (Option.some.inj h), fun e' h ↦ ?_,
          fun h ↦ absurd h (Option.some_ne_none _)⟩
        obtain rfl := Place.untagged.inj (Option.some.inj h)
        rw [huri]
        exact ⟨rfl, hitem⟩
      · exact ih (n + 1)

end Readings

end Breakpoint

end LiveGraph
