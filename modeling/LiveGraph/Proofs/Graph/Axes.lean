import LiveGraph.Proofs.Focus.Propagation
import LiveGraph.Proofs.Graph.Walks
import LiveGraph.Resolution

/-!
# Moving along an axis

An axis leads from an entity to its container, the nearest entity of some type above it, and from there to the
members of the container, its children of another type. Where no entity has two parents, all members of a container
have that container. So they stand in one line, and to move along it twice is to move by the sum.
-/

namespace LiveGraph

namespace Reads.OfStores

theorem sources (s : StoreId) (uri : Uri) (kind : String) : (Store.sources s uri kind).OfStores :=
  fun w w' h ↦ by
    change (w'.store s).edges.sources uri kind = (w.store s).edges.sources uri kind
    rw [World.store, h]
    rfl

theorem lookupAll (s : StoreId) (uris : List Uri) : (Store.lookupAll s uris).OfStores := by
  induction uris with
  | nil => exact pure []
  | cons uri rest ih =>
    apply bind (lookup s uri)
    intro e
    apply bind ih
    intro es
    exact pure _

theorem kindOf {w w' : World} (h : w'.stores = w.stores) : w'.kindOf = w.kindOf := by
  funext e
  rw [World.kindOf, World.entity, World.store, h]
  rfl

theorem admits {w w' : World} (h : w'.stores = w.stores) (r : Relation) : r.admits w' = r.admits w := by
  funext e
  rw [Relation.admits, kindOf h, Relation.admits]

theorem step (r : Relation) (s : StoreId) (e : EntityRef) : (r.step s e).OfStores := by
  apply bind (uriOf e)
  intro uri
  cases r.direction with
  | outgoing => exact bind (targets s uri r.edge) (lookupAll s)
  | incoming => exact bind (sources s uri r.edge) (lookupAll s)

theorem stepAll (r : Relation) (s : StoreId) (es : List EntityRef) (walk : Relation.Walk) :
    (r.stepAll s es walk).OfStores := by
  induction es generalizing walk with
  | nil => exact pure walk
  | cons e rest ih =>
    apply bind (step r s e)
    intro met
    refine bind (fun w w' h ↦ ?_) ih
    have hmeet : r.meet w' = r.meet w := by
      funext walk e
      have huri : w'.uriOf e = w.uriOf e := uriOf e w w' h
      rw [Relation.meet, huri, admits h, Relation.meet]
    change met.foldl (r.meet w') walk = met.foldl (r.meet w) walk
    rw [hmeet]

theorem walk (r : Relation) (s : StoreId) (n : Nat) (walked : Relation.Walk) : (r.walk s n walked).OfStores := by
  induction n generalizing walked with
  | zero => exact pure walked
  | succ n ih =>
    apply bind (stepAll r s walked.next _)
    intro walked
    split
    · exact pure walked
    · exact ih walked

/-- What a relation leads to is found in the store. -/
theorem follow (r : Relation) (s : StoreId) (e : EntityRef) : (r.follow s e).OfStores := by
  rw [Relation.follow]
  split
  · exact bind (uriOf e) fun uri ↦ bind (walk r s Schema.maxSteps _) fun _ ↦ pure _
  · refine bind (step r s e) fun met w w' h ↦ ?_
    change met.filter (r.admits w') = met.filter (r.admits w)
    rw [admits h]

theorem related (schema : Schema) (s : StoreId) (e : EntityRef) (relation : String) :
    (schema.related s e relation).OfStores := by
  rw [Schema.related]
  cases schema.relations.get? relation with
  | none => exact pure none
  | some r => exact bind (follow r s e) fun es ↦ pure (some es)

end Reads.OfStores

/-- No entity has two edges to parents. -/
def World.SingleParents (w : World) (s : StoreId) : Prop :=
  ∀ x ∈ (w.store s).edges.edges, ∀ y ∈ (w.store s).edges.edges,
    x.kind = Schema.parentKind → y.kind = Schema.parentKind → x.source = y.source → x = y

/-- What is read of a store fits together in every world with that store. -/
theorem World.Integral.congr {w w' : World} {s : StoreId} (h : w.Integral s) (hstores : w'.stores = w.stores) :
    w'.Integral s := by
  have hsame : { w' with stores := w.stores } = w' := by rw [← hstores]
  rw [← hsame]
  exact ⟨h.uri_inj, h.find_iff, h.mem_entities, h.nodup_entities, h.mem_entitiesOf, h.sorted_entitiesOf,
    h.entities_count, h.mem_kinds, h.nodup_kinds, h.sum_kinds, h.ends_live, h.mem_targets, h.mem_sources,
    h.nodup_edges, h.nodup_targets, h.nodup_sources, h.edges_count⟩

/-! ## Places in a line -/

namespace Schema

variable {members : List EntityRef} {e f : EntityRef} {p : Nat} (hnodup : members.Nodup)
include hnodup

/-- A neighbour is found by its place, if there is such a place. -/
theorem neighbour_eq (hp : members[p]? = some e) (n : Int) :
    neighbour members e n = if p + n < 0 then none else members[(p + n).toNat]? := by
  obtain ⟨hlt, rfl⟩ := List.getElem?_eq_some_iff.mp hp
  have hplace : members.findIdx? (· = members[p]) = some p := by
    refine List.findIdx?_eq_some_iff_getElem.mpr ⟨hlt, by simp, fun j hj ↦ ?_⟩
    simpa using fun heq ↦ Nat.ne_of_lt hj (hnodup.getElem_inj_iff.mp heq)
  rw [neighbour, hplace]
  rfl

/-- Everything is its own neighbour. -/
theorem neighbour_zero (he : e ∈ members) : neighbour members e 0 = some e := by
  obtain ⟨p, hp⟩ := List.mem_iff_getElem?.mp he
  rw [neighbour_eq hnodup hp, if_neg (by omega), Int.add_zero, Int.toNat_natCast, hp]

theorem neighbour_eq_none (hp : members[p]? = some e) {n : Int} (hout : p + n < 0 ∨ members.length ≤ p + n) :
    neighbour members e n = none := by
  rw [neighbour_eq hnodup hp]
  split
  · rfl
  · exact List.getElem?_eq_none (by omega)

/-- To go on from a neighbour is to go by the sum. -/
theorem neighbour_neighbour {a : Int} (he : neighbour members f a = some e) (b : Int) :
    neighbour members e b = neighbour members f (a + b) := by
  obtain ⟨p, hp⟩ : ∃ p : Nat, members[p]? = some f := by
    rw [neighbour, Option.bind_eq_bind, Option.bind_eq_some_iff] at he
    obtain ⟨p, hp, -⟩ := he
    obtain ⟨hlt, heq, -⟩ := List.findIdx?_eq_some_iff_getElem.mp hp
    exact ⟨p, List.getElem?_eq_some_iff.mpr ⟨hlt, of_decide_eq_true heq⟩⟩
  rw [neighbour_eq hnodup hp] at he
  split at he
  · exact nomatch he
  · rename_i hpos
    have hplace : ((p + a).toNat : Int) = p + a := Int.toNat_of_nonneg (by omega)
    rw [neighbour_eq hnodup he, neighbour_eq hnodup hp, hplace, Int.add_assoc]

end Schema

theorem Schema.mem_of_neighbour {members : List EntityRef} {e f : EntityRef} {n : Int}
    (h : neighbour members f n = some e) : f ∈ members ∧ e ∈ members := by
  rw [neighbour, Option.bind_eq_bind, Option.bind_eq_some_iff] at h
  obtain ⟨p, hp, h⟩ := h
  obtain ⟨hlt, heq, -⟩ := List.findIdx?_eq_some_iff_getElem.mp hp
  refine ⟨of_decide_eq_true heq ▸ List.getElem_mem hlt, ?_⟩
  split at h
  · exact nomatch h
  · exact List.mem_of_getElem? h

/-! ## Containers and members -/

namespace Relation

variable {w : World} {s : StoreId} {x t : EntityRef} {K R : String} (hw : w.Integral s)
include hw

theorem mem_children : x ∈ ((Schema.children R).follow s t).value w ↔
    w.IsLive s x ∧ w.kindOf x = R ∧ ⟨Schema.parentKind, w.uriOf x, w.uriOf t⟩ ∈ (w.store s).edges.edges := by
  have hfollow : ((Schema.children R).follow s t).value w =
      (((Schema.children R).step s t).value w).filter ((Schema.children R).admits w) := rfl
  rw [hfollow, List.mem_filter, mem_step hw, Leads]
  simp only [admits, Schema.children, edgeTo, Option.all_some, decide_eq_true_eq]
  tauto

theorem nodup_children : (((Schema.children R).follow s t).value w).Nodup := by
  have hstep : ((Schema.children R).step s t).value w =
      ((Store.sources s (w.uriOf t) Schema.parentKind).value w).filterMap (w.find? s) :=
    Store.value_lookupAll s w _
  refine List.Nodup.filter _ ?_
  change (((Schema.children R).step s t).value w).Nodup
  rw [hstep]
  refine (hw.nodup_sources _ _).filterMap fun uri uri' e he he' ↦ ?_
  rw [← ((hw.find_iff uri e).mp he).2, ← ((hw.find_iff uri' e).mp he').2]

/-- Where no entity has two parents, the nearest container of a child is its parent, and there is no other. -/
theorem follow_nearest_child (hsingle : w.SingleParents s) (hne : R ≠ K) (ht : w.IsLive s t)
    (hkind : w.kindOf t = K) (hx : x ∈ ((Schema.children R).follow s t).value w) :
    ((Schema.nearest K).follow s x).value w = [t] := by
  obtain ⟨hlive, hmember, hedge⟩ := (mem_children hw).mp hx
  have hnearest := follow_nearest (Schema.nearest K) w s x hw rfl
  have hleads : (Schema.nearest K).Leads w s x t := ⟨ht, hedge⟩
  have hends : (Schema.nearest K).endsAt w t = true := by simp [endsAt, Schema.nearest, admits, hkind]
  -- A path goes to the parent first, and no further since that is of the type that is looked for.
  have honly : ∀ n y, (Schema.nearest K).Path w s x n y → 0 < n → y = t := by
    intro n y hpath hpos
    induction hpath with
    | start => exact absurd hpos (Nat.lt_irrefl 0)
    | @step n z y hz hinner hleads' ih =>
      rcases Nat.eq_zero_or_pos n with rfl | hn
      · cases hz
        have hsame := hsingle _ hleads'.2 _ hedge rfl rfl rfl
        exact hw.uri_inj y t hleads'.1 ht (Edge.mk.inj hsame).2.2
      · obtain rfl := ih hn
        exact absurd hends (by rw [hinner hn]; decide)
  have huri : w.uriOf t ≠ w.uriOf x := fun heq ↦ by
    obtain rfl := hw.uri_inj t x ht hlive heq
    exact hne (hmember.symm.trans hkind)
  have hmem : ∀ y, y ∈ ((Schema.nearest K).follow s x).value w ↔ y = t := fun y ↦ by
    rw [hnearest.mem_iff]
    constructor
    · rintro ⟨-, -, hother, n, -, hpath⟩
      refine honly n y hpath (Nat.pos_of_ne_zero ?_)
      rintro rfl
      cases hpath
      exact hother rfl
    · rintro rfl
      refine ⟨ht, by simp [admits, Schema.nearest, hkind], huri, 1, by decide, ?_⟩
      exact .step .start (fun h ↦ absurd h (Nat.lt_irrefl 0)) hleads
  exact List.perm_singleton.mp ((List.perm_ext_iff_of_nodup hnearest.nodup (List.nodup_singleton t)).mpr
    fun y ↦ (hmem y).trans List.mem_singleton.symm)

end Relation

/-! ## Lines -/

namespace Schema

/-- The line that an entity may stand in: the members of the container of its role's axis. -/
def lineup (schema : Schema) (s : StoreId) (role : String) (e : EntityRef) : Reads (Option (List EntityRef)) := do
  match schema.axes.get? role with
  | none => return none
  | some axis =>
    match ← schema.related s e axis.container with
    | some (container :: _) => schema.related s container axis.members
    | _ => return none

/-- What stands an offset away from an entity; without an offset that is the entity itself. -/
def along (schema : Schema) (s : StoreId) (role : String) (e : EntityRef) (n : Int) : Reads (Option EntityRef) :=
  if n = 0 then pure (some e) else schema.shift s role e n

/-- The axis of a role goes to the nearest container of a type, and from there to its children that fill the role. -/
structure Lines (schema : Schema) (K R : String) : Prop where
  ne : R ≠ K
  axis : ∃ axis, schema.axes.get? R = some axis ∧ schema.relations.get? axis.container = some (nearest K) ∧
    schema.relations.get? axis.members = some (children R)

variable {schema : Schema} {w : World} {s : StoreId} {K R : String} {e f : EntityRef}

theorem value_shift (role : String) (n : Int) : (schema.shift s role e n).value w =
    ((schema.lineup s role e).value w).bind (neighbour · e n) := by
  rw [shift, lineup]
  cases schema.axes.get? role with
  | none => rfl
  | some axis =>
    simp only [Reads.value_bind]
    cases (schema.related s e axis.container).value w with
    | none => rfl
    | some containers =>
      cases containers with
      | nil => rfl
      | cons container rest =>
        simp only [Reads.value_bind]
        cases (schema.related s container axis.members).value w <;> rfl

namespace Lines

variable {members : List EntityRef} (h : schema.Lines K R)
include h

theorem value_lineup (e : EntityRef) : (schema.lineup s R e).value w =
    (((nearest K).follow s e).value w).head?.map fun t ↦ ((children R).follow s t).value w := by
  obtain ⟨axis, haxis, hcontainer, hmembers⟩ := h.axis
  have hrelated : (schema.related s e axis.container).value w = some (((nearest K).follow s e).value w) := by
    rw [related, hcontainer]
    rfl
  rw [lineup, haxis]
  simp only [Reads.value_bind, hrelated]
  cases ((nearest K).follow s e).value w with
  | nil => rfl
  | cons t rest =>
    simp only [related, hmembers]
    rfl

variable (hw : w.Integral s)
include hw

/-- Who stands in a line is a child, of the type of the role, of some container. -/
theorem exists_container (hline : (schema.lineup s R f).value w = some members) :
    ∃ t, w.IsLive s t ∧ w.kindOf t = K ∧ members = ((children R).follow s t).value w := by
  rw [h.value_lineup, Option.map_eq_some_iff] at hline
  obtain ⟨t, hhead, rfl⟩ := hline
  have hmem : t ∈ ((nearest K).follow s f).value w := List.mem_of_head? hhead
  obtain ⟨hlive, hkind, -⟩ := ((Relation.follow_nearest (nearest K) w s f hw rfl).mem_iff t).mp hmem
  exact ⟨t, hlive, by simpa [Relation.admits, nearest] using hkind, rfl⟩

theorem nodup (hline : (schema.lineup s R f).value w = some members) : members.Nodup := by
  obtain ⟨t, -, -, rfl⟩ := h.exists_container hw hline
  exact Relation.nodup_children hw

theorem of_mem (hline : (schema.lineup s R f).value w = some members) (he : e ∈ members) :
    w.IsLive s e ∧ w.kindOf e = R := by
  obtain ⟨t, -, -, rfl⟩ := h.exists_container hw hline
  obtain ⟨hlive, hkind, -⟩ := (Relation.mem_children hw).mp he
  exact ⟨hlive, hkind⟩

/-- An offset that leaves the line leads nowhere. -/
theorem along_eq_none (hline : (schema.lineup s R f).value w = some members) {p : Nat} (hp : members[p]? = some f)
    {n : Int} (hout : p + n < 0 ∨ members.length ≤ p + n) : (schema.along s R f n).value w = none := by
  obtain ⟨hlt, -⟩ := List.getElem?_eq_some_iff.mp hp
  rw [along, if_neg (by omega), value_shift, hline]
  exact neighbour_eq_none (h.nodup hw hline) hp hout

variable (hsingle : w.SingleParents s)
include hsingle

/-- All who stand in a line stand in the same. -/
theorem lineup_of_mem (hline : (schema.lineup s R f).value w = some members) (he : e ∈ members) :
    (schema.lineup s R e).value w = some members := by
  obtain ⟨t, hlive, hkind, rfl⟩ := h.exists_container hw hline
  rw [h.value_lineup, Relation.follow_nearest_child hw hsingle h.ne hlive hkind he]
  rfl

/-- Within a line, to stay is an offset as well. -/
theorem along_eq (hline : (schema.lineup s R f).value w = some members) (he : e ∈ members) (n : Int) :
    (schema.along s R e n).value w = neighbour members e n := by
  rw [along]
  split
  · rename_i hn
    rw [hn, neighbour_zero (h.nodup hw hline) he]
    rfl
  · rw [value_shift, h.lineup_of_mem hw hsingle hline he]
    rfl

/-- To move along a line twice is to move by the sum. -/
theorem along_along {a : Int} (he : (schema.along s R f a).value w = some e) (b : Int) :
    (schema.along s R e b).value w = (schema.along s R f (a + b)).value w := by
  by_cases ha : a = 0
  · subst ha
    rw [along, if_pos rfl] at he
    obtain rfl := Option.some.inj he
    rw [Int.zero_add]
  · have hshift := he
    rw [along, if_neg ha, value_shift, Option.bind_eq_some_iff] at hshift
    obtain ⟨members, hline, hneighbour⟩ := hshift
    obtain ⟨hf, he'⟩ := mem_of_neighbour hneighbour
    rw [h.along_eq hw hsingle hline he', h.along_eq hw hsingle hline hf,
      neighbour_neighbour (h.nodup hw hline) hneighbour]

end Lines

/-- Frames stand in the line of their thread, and threads in that of their session. -/
theorem lines_debugger : debugger.Lines "thread" "frame" ∧ debugger.Lines "session" "thread" := by
  refine ⟨⟨by decide, ⟨"thread", "frames"⟩, by decide +kernel, by decide +kernel, by decide +kernel⟩,
    ⟨by decide, ⟨"session", "threads"⟩, by decide +kernel, by decide +kernel, by decide +kernel⟩⟩

end Schema

theorem Reads.OfStores.along (schema : Schema) (s : StoreId) (role : String) (e : EntityRef) (n : Int) :
    (schema.along s role e n).OfStores := by
  have hlineup : (schema.lineup s role e).OfStores := by
    rw [Schema.lineup]
    cases schema.axes.get? role with
    | none => exact pure none
    | some axis =>
      refine bind (related schema s e axis.container) fun containers ↦ ?_
      match containers with
      | none => exact pure none
      | some [] => exact pure none
      | some (container :: _) => exact related schema s container axis.members
  intro w w' h
  rw [Schema.along]
  split
  · rfl
  · rw [Schema.value_shift, Schema.value_shift, hlineup w w' h]

end LiveGraph
