import LiveGraph.Proofs.Store.Start
import LiveGraph.Proofs.View.Moves

/-!
# What windows show

Code edits a store, opens views over it and moves their windows, and callbacks may move windows as
well. Whenever the code looks at the world outside of all batches, every view of a filter shows the
slice of its matches, in order, that its window is over.
-/

namespace LiveGraph

open Act

/-- What code does with a store that it has views over. -/
inductive Viewing
  | edit (e : Edit)
  | listen (event : StoreEvent) (kind name : String)
  | openView (name : String) (query : Query) (window : Window)
  | watch (id : ViewId) (what : WindowEvent) (name : String)
  | move (m : Move)

/-- Carries out an operation; a view is kept under a name, and a name is given to one view only. -/
def Viewing.perform [Dispatch] : Viewing → Act Unit
  | edit e => e.perform 0
  | listen event kind name => do
    let _ ← modifyGet (·.subscribe (.store 0 event) (.script name (.kind kind) []))
  | openView name query window => do
    if (← get).session.views.contains name then return
    match ← View.open 0 query window with
    | .ok id => modify (·.nameView name id)
    | .error _ => pure ()
  | watch id what name => do let _ ← View.watch id (.script name (.window what) [])
  | move m => m.perform

variable {w w' : World} {U : Set EntityRef} {D : Dispatch} {d : Nat} {f : Bool} {C : World → Prop}

/-- A session starts without views, and there is nothing to be told. -/
theorem viewed_start (schema : Schema) (keepsFirst : Bool) :
    At (Viewed (.whole ∅)) 0 false (Session.start schema keepsFirst) := by
  have hground := ground_start schema keepsFirst
  obtain ⟨hstore, hviews⟩ := start_parts schema keepsFirst
  have hlisteners : ∀ event, ∀ entry ∈ (((Session.start schema keepsFirst).store 0).listeners.get
      event).entries, entry.2 = .forget 0 := by
    rw [hstore]
    intro event entry hentry
    cases event with
    | removed =>
      rw [List.mem_singleton.mp (show entry ∈ [(1, Callback.forget 0)] from hentry)]
    | added => exact absurd hentry List.not_mem_nil
    | updated => exact absurd hentry List.not_mem_nil
    | edgeAdded => exact absurd hentry List.not_mem_nil
    | edgeRemoved => exact absurd hentry List.not_mem_nil
  refine ⟨⟨⟨hground.holds.1, hground.holds.2, ⟨tied_start schema keepsFirst,
    ⟨fun event entry hentry ↦ ?_, fun id hid ↦ ?_⟩, fun id hid ↦ ?_⟩, fun _ he ↦ nomatch he⟩,
    hground.depth_eq, hground.flushing_eq⟩, hground.idle⟩
  · rw [hlisteners event entry hentry]
    exact trivial
  · rw [hviews] at hid
    exact absurd hid (Nat.not_lt_zero id)
  · rw [hviews] at hid
    exact absurd hid (Nat.not_lt_zero id)

theorem SameGround.attach (w : World) (id : ViewId) : SameGround w (w.attach id) :=
  let added := (w.subscribe (.store 0 .added) (.view id .added)).2
  let removed := (added.subscribe (.store 0 .removed) (.view id .removed)).2
  ((modifyWatchers w (.store 0 .added) (·.add (.view id .added))).trans
    (modifyWatchers added (.store 0 .removed) (·.add (.view id .removed)))).trans
    (modifyWatchers removed (.store 0 .updated) (·.add (.view id .updated)))

/-- Opening a view under a new name leaves everything else as it is. -/
theorem Viewed.openView (h : Viewed (.whole ∅) w) {query : Query} {kind : String} (window : Window)
    {name : String}
    (hkind : ∀ qkind predicates sort, query = .filter qkind predicates sort → kind = qkind)
    (hname : w.session.views.contains name = false) :
    let w' := (w.addView 0 query kind window).2.nameView name w.views.size
    w' = ((w.addView 0 query kind window).2.modifySession fun s ↦
        { s with views := s.views.insert name w.views.size }) ∧
      Viewed (.whole ∅) w' ∧ w.Quiet w' := by
  intro w'
  have harranged := h.arranged.openView h.ground window hkind hname
  have hversion : SameGround w (w.addSignal (.int 0) .same (.view w.views.size)).2 :=
    ⟨.refl _, rfl, fun h ↦ ⟨h, rfl⟩, rfl, rfl, rfl, rfl⟩
  have hattach := hversion.trans (.attach _ w.views.size)
  have hsame : SameGround w ((w.addView 0 query kind window).2.modifySession fun s ↦
      { s with views := s.views.insert name w.views.size }) :=
    hattach.trans ⟨.refl _, rfl, fun h ↦ ⟨h, rfl⟩, rfl, rfl, rfl, rfl⟩
  have hplain := h.plain.same hsame
  have heq : w' = _ := World.reap_eq harranged.hooked hplain.noDeriveds
  rw [heq]
  exact ⟨rfl, ⟨OnGround.same h.ground hsame, hplain, harranged, fun _ he ↦ nomatch he⟩,
    ⟨rfl, rfl, rfl, rfl⟩⟩

/-- Scripts may listen to the store. -/
theorem Viewed.listen (h : Viewed (.whole ∅) w) (event : StoreEvent) (name : String) (filter : EventFilter) :
    Viewed (.whole ∅) (w.subscribe (.store 0 event) (.script name filter [])).2 := by
  have hsame := SameGround.modifyWatchers w (.store 0 event) (·.add (.script name filter []))
  have hground : Ground (fun _ ↦ False) w := h.ground
  exact ⟨OnGround.same h.ground hsame, h.plain.same hsame, h.arranged.listen (hground.stores_size ▸ Nat.one_pos)
    h.isLive event (.script name filter []) fun _ ↦ trivial, fun _ he ↦ nomatch he⟩

/-- Scripts may watch views. -/
theorem Viewed.watch (h : Viewed (.whole ∅) w) (id : ViewId) (name : String) (filter : EventFilter) :
    Viewed (.whole ∅) (w.subscribe (.view id) (.script name filter [])).2 := by
  have hsame := SameGround.modifyWatchers w (.view id) (·.add (.script name filter []))
  exact ⟨OnGround.same h.ground hsame, h.plain.same hsame, h.arranged.watch id name filter [],
    fun _ he ↦ nomatch he⟩

/-- What is kept when views are opened and scripts are registered. -/
structure Laying (I : World → Prop) : Prop where
  listen : ∀ w event name filter, I w → I (w.subscribe (.store 0 event) (.script name filter [])).2
  watch : ∀ w id name filter, I w → I (w.subscribe (.view id) (.script name filter [])).2
  openView : ∀ (w : World) query kind window name, I w →
    (∀ qkind predicates sort, query = .filter qkind predicates sort → kind = qkind) →
    w.session.views.contains name = false →
    I ((w.addView 0 query kind window).2.nameView name w.views.size) ∧
      w.Quiet ((w.addView 0 query kind window).2.nameView name w.views.size)

theorem Viewed.laying : Laying (Viewed (.whole ∅)) where
  listen _ event name filter h := h.listen event name filter
  watch _ id name filter h := h.watch id name filter
  openView _ _ _ window _ h hkind hname := (h.openView window hkind hname).2

namespace Laying

variable {I : World → Prop} (h : Laying I)
include h

theorem agree_openView (name : String) (query : Query) (window : Window) :
    Agree (At I d f) (@Viewing.perform D (.openView name query window))
      (@Viewing.perform D (.openView name query window)) (fun _ ↦ At I d f) C := by
  refine agree_get fun w hw ↦ agree_ite (fun _ ↦ agree_pure fun w' hw' ↦ hw' ▸ hw) fun hnew ↦ ?_
  have hname : w.session.views.contains name = false := Bool.eq_false_iff.mpr hnew
  let Opened : Except Fault ViewId → World → Prop := fun r w' ↦ match r with
    | .ok id => At I d f (w'.nameView name id)
    | .error _ => At I d f w'
  have hadd {q : Query} {kind : String}
      (hkind : ∀ qkind predicates sort, q = .filter qkind predicates sort → kind = qkind) :
      Agree (· = w) (do return .ok (← modifyGet (·.addView 0 q kind window)))
        (do return .ok (← modifyGet (·.addView 0 q kind window))) Opened C := by
    refine agree_bind (Q := fun id w' ↦ At I d f (w'.nameView name id))
      (agree_modifyGet fun w' hw' ↦ ?_) fun id ↦ agree_pure fun _ hw' ↦ hw'
    subst hw'
    obtain ⟨hopened, hquiet⟩ := h.openView w' q kind window name hw.holds hkind hname
    exact hw.quiet hquiet hopened
  have hopen : Agree (· = w) (View.open 0 query window) (View.open 0 query window) Opened C := by
    match query with
    | .filter kind predicates sort => exact hadd fun _ _ _ heq ↦ (Query.filter.inj heq).1
    | .index key value =>
      refine agree_get fun w' hw' ↦ ?_
      subst hw'
      cases ((w'.store 0).indices.get? key) with
      | none => exact agree_pure fun _ hw' ↦ hw' ▸ hw
      | some index => exact hadd (q := .index key value) fun _ _ _ ↦ nofun
  refine agree_bind hopen fun r ↦ ?_
  match r with
  | .ok id => exact agree_modify fun _ hw' ↦ hw'
  | .error _ => exact agree_pure fun _ hw' ↦ hw'

/-- Code keeps what is kept by edits, by moving windows, and when views are opened and scripts registered. -/
theorem agree_viewing
    (hedit : ∀ e, Agree (At I d f) (@Edit.perform D 0 e) (@Edit.perform D 0 e) (fun _ ↦ At I d f) C)
    (hmove : ∀ m, Agree (At I d f) (@Move.perform D m) (@Move.perform D m) (fun _ ↦ At I d f) C)
    (op : Viewing) :
    Agree (At I d f) (@Viewing.perform D op) (@Viewing.perform D op) (fun _ ↦ At I d f) C := by
  match op with
  | .edit e => exact hedit e
  | .listen event kind name =>
    refine agree_bind (Q := fun _ ↦ At I d f) (agree_modifyGet fun w hw ↦ ?_) fun _ ↦ agree_pure fun _ hw ↦ hw
    exact hw.quiet ⟨rfl, rfl, rfl, rfl⟩ (h.listen w event name _ hw.holds)
  | .openView name query window => exact h.agree_openView name query window
  | .watch id what name =>
    refine agree_bind (Q := fun _ ↦ At I d f) (agree_get fun w hw ↦ agree_ite
      (fun _ ↦ agree_pure fun w' hw' ↦ hw' ▸ hw) fun _ ↦ agree_modifyGet fun w' hw' ↦ ?_)
      fun _ ↦ agree_pure fun _ hw ↦ hw
    subst hw'
    exact hw.quiet ⟨rfl, rfl, rfl, rfl⟩ (h.watch w' id name _ hw.holds)
  | .move m => exact hmove m

end Laying

/-- Every operation of code leaves the views right. -/
theorem Tame.agree_viewing (h : Tame D) (op : Viewing) :
    Agree (At (Viewed (.whole ∅)) d f) (@Viewing.perform D op) (@Viewing.perform D op)
      (fun _ ↦ At (Viewed (.whole ∅)) d f) fun _ ↦ False :=
  Viewed.laying.agree_viewing h.agree_edit
    (h.quietly.agree_move Viewed.depthFree (calmAt_viewed ∅) fun _ _ ↦ h.agree_flush ∅) op

namespace World

/-- One entity stands before another under a sort key; without one, or where they have the same
value, by age. -/
def StandsBefore (w : World) (sort : Option SortKey) (a b : EntityRef) : Prop :=
  match sort with
  | none => a.serial < b.serial
  | some key =>
    let order := if key.descending then compare (w.property b key.field) (w.property a key.field)
      else compare (w.property a key.field) (w.property b key.field)
    order = .lt ∨ order = .eq ∧ a.serial < b.serial

/-- A view of a filter shows a slice of all matches. -/
structure Shows (w : World) (id : ViewId) (kind : String) (predicates : List Predicate)
    (sort : Option SortKey) (all : List EntityRef) : Prop where
  mem_iff : ∀ e, e ∈ all ↔ w.IsLive 0 e ∧ w.kindOf e = kind ∧
    ∀ p ∈ predicates, p.op.holds (w.property e p.field) p.value
  sorted : all.Pairwise (w.StandsBefore sort)
  items_eq : (View.items id).value w = (all.drop (w.view id).offset).take (w.view id).limit
  total_eq : (View.total id).value w = all.length

/-- Every view of a filter over one type shows what it should. -/
def Consistent (w : World) : Prop :=
  ∀ id < w.views.size, ∀ kind predicates sort, (w.view id).query = .filter kind predicates sort →
    kind ≠ "*" → ∃ all, w.Shows id kind predicates sort all

theorem standsBefore_of_precedes {kind : String} {predicates : List Predicate}
    {sort : Option SortKey} {a b : Row}
    (ha : a.key = (Query.filter kind predicates sort).sortKey w a.entity)
    (hb : b.key = (Query.filter kind predicates sort).sortKey w b.entity)
    (h : (Query.filter kind predicates sort).precedes a b = true) :
    w.StandsBefore sort a.entity b.entity := by
  rw [Query.precedes_iff, Query.compareKeys, ha, hb] at h
  cases sort with
  | none =>
    have heq : compare Value.nil Value.nil = .eq := Std.ReflCmp.compare_self
    simpa [StandsBefore, Query.isDescending, Query.sortKey, heq] using h
  | some key => exact h

end World

/-- Where nothing is left to be told, views that are right but for what is pending are right. -/
theorem Viewed.consistent (h : Viewed (.whole ∅) w) (heffects : w.effects = []) : w.Consistent := by
  intro id hid kind predicates sort hquery hwild
  have hkind := (h.arranged.hooked.views id hid).kind_eq kind predicates sort hquery
  have hfilters : (w.view id).Filters := ⟨predicates, sort, hkind.symm ▸ hquery, hkind.symm ▸ hwild⟩
  have hfiled := h.arranged.filed id hid hfilters
  have hpending : ∀ e, ¬w.Pending e := by
    rintro e ⟨prop, signal, -, hmem⟩
    rw [heffects] at hmem
    exact List.not_mem_nil hmem
  have hlive {e : EntityRef} (he : e.store = 0) : w.isCurrent e ↔ w.IsLive 0 e :=
    Ground.isCurrent_iff_isLive h.ground he
  have hadmits : ∀ e, (w.view id).query.admits w e ↔
      ∀ p ∈ predicates, p.op.holds (w.property e p.field) p.value := fun e ↦ by
    rw [hquery]
    exact List.all_eq_true
  have hrow : ∀ row ∈ (w.view id).rows, w.IsLive 0 row.entity ∧ w.kindOf row.entity = kind ∧
      row.key = (w.view id).query.sortKey w row.entity := fun row hmem ↦ by
    obtain ⟨hstore, hrowKind, hcurrent⟩ := hfiled.current row hmem
    have hcurrent := hcurrent.resolve_right fun h ↦ h
    exact ⟨(hlive hstore).mp hcurrent, hrowKind.trans hkind,
      hfiled.key_eq row hmem hcurrent (Set.notMem_empty _) (hpending _)⟩
  refine ⟨(w.view id).rows.map (·.entity), fun e ↦ ⟨fun hmem ↦ ?_, fun ⟨he, hekind, hholds⟩ ↦ ?_⟩,
    ?_, ?_, (List.length_map _).symm⟩
  · obtain ⟨row, hmemRow, rfl⟩ := List.mem_map.mp hmem
    obtain ⟨he, hekind, -⟩ := hrow row hmemRow
    refine ⟨he, hekind, (hadmits _).mp ?_⟩
    exact (hfiled.mem_iff _ he.1 ((hlive he.1).mpr he) (hekind.trans hkind.symm)
      (Set.notMem_empty _) (hpending _)).mp hmem
  · exact (hfiled.mem_iff e he.1 ((hlive he.1).mpr he) (hekind.trans hkind.symm)
      (Set.notMem_empty _) (hpending _)).mpr ((hadmits e).mpr hholds)
  · rw [List.pairwise_map]
    refine hfiled.sorted.imp_of_mem fun ha hb hbefore ↦ ?_
    have hkeya := (hrow _ ha).2.2
    have hkeyb := (hrow _ hb).2.2
    rw [hquery] at hkeya hkeyb hbefore
    exact World.standsBefore_of_precedes hkeya hkeyb hbefore
  · rw [← List.map_drop, ← List.map_take]
    exact hfiled.window_eq

namespace Viewing

/-- Runs code whose callbacks move windows and look at the world, to a given depth. -/
def run (react : String → Event → Client Move) (n : Nat) (c : Client Viewing) : Act Unit :=
  @Client.run _ (Move.dispatch react n) (@perform (Move.dispatch react n)) c

/-- Whatever code does to a store and to the windows over it, each view of a filter shows the slice
of its matches that its window is over, whenever the code looks at it outside of all batches: code
does the same under an observation that would stop it where a view shows anything else. -/
theorem run_consistent (react : String → Event → Client Move) (n : Nat) (c : Client Viewing)
    (schema : Schema) (keepsFirst : Bool) :
    run react n c (Session.start schema keepsFirst) =
        run react n (c.checked fun w ↦ w.depth = 0 → w.Consistent)
          (Session.start schema keepsFirst) ∧
      ∀ w, run react n c (Session.start schema keepsFirst) = .ok () w → w.Consistent := by
  have htame := tame_dispatch react n
  have hshows : ∀ d w, At (Viewed (.whole ∅)) d false w → w.depth = 0 → w.Consistent :=
    fun d w hw hdepth ↦ hw.holds.consistent (hw.idle hdepth hw.flushing_eq).2
  have hrun : Agree (At (Viewed (.whole ∅)) 0 false) (run react n c) (run react n (c.checked _))
      (fun _ ↦ At (Viewed (.whole ∅)) 0 false) (Held (Viewed (.whole ∅)) 0 false) :=
    Client.agree_run_checked Viewed.depthFree (fun op d f ↦ htame.agree_viewing op)
      (htame.agree_flush ∅) hshows c 0
  obtain ⟨heq, hout⟩ := hrun _ (viewed_start schema keepsFirst)
  refine ⟨heq, fun w hw ↦ ?_⟩
  change Act.Outcome _ _ (run react n c (Session.start schema keepsFirst)) at hout
  rw [hw] at hout
  exact hshows 0 w hout hout.depth_eq

end Viewing

end LiveGraph
