import LiveGraph.Proofs.Snapshot.Adding
import LiveGraph.Proofs.Store.Start

/-!
# Restoring into an empty store

Restoring a snapshot brings it to its normal form: it comes to an end, is refused at the first URI that repeats,
and otherwise leaves a store that holds the normal form, the lists of all targets included. What is captured then
can be restored and captured again, and stays the same.
-/

namespace LiveGraph

open Act

variable {s : StoreId} {id : StateId} {w : World}

namespace Snapshot

/-- The first URI that was there before. -/
def repeated? (known : List Uri) : List Uri → Option Uri
  | [] => none
  | uri :: rest => if uri ∈ known then some uri else repeated? (known ++ [uri]) rest

theorem repeated?_eq_none {known uris : List Uri} (h : known.Nodup) :
    repeated? known uris = none ↔ (known ++ uris).Nodup := by
  induction uris generalizing known with
  | nil => simp [repeated?, h]
  | cons uri rest ih =>
    rw [repeated?]
    split
    · rename_i hmem
      refine iff_of_false (Option.some_ne_none uri) fun hnodup ↦ ?_
      exact (List.nodup_append.mp hnodup).2.2 uri hmem uri List.mem_cons_self rfl
    · rename_i hnew
      rw [ih (List.nodup_append.mpr ⟨h, List.nodup_singleton uri, ?_⟩), List.append_assoc, List.singleton_append]
      rintro a ha b hb rfl
      exact hnew (List.mem_singleton.mp hb ▸ ha)

/-- Before it none repeats. -/
theorem repeated?_eq_some {known uris : List Uri} {uri : Uri} (h : known.Nodup)
    (hrepeated : repeated? known uris = some uri) :
    ∃ before after, uris = before ++ uri :: after ∧ (known ++ before).Nodup ∧ uri ∈ known ++ before := by
  induction uris generalizing known with
  | nil => exact absurd hrepeated.symm (Option.some_ne_none uri)
  | cons first rest ih =>
    rw [repeated?] at hrepeated
    split at hrepeated
    · rename_i hmem
      obtain rfl := Option.some.inj hrepeated
      exact ⟨[], rest, rfl, by rwa [List.append_nil], by rwa [List.append_nil]⟩
    · rename_i hnew
      have hnodup : (known ++ [first]).Nodup := by
        refine List.nodup_append.mpr ⟨h, List.nodup_singleton first, ?_⟩
        rintro a ha b hb rfl
        exact hnew (List.mem_singleton.mp hb ▸ ha)
      obtain ⟨before, after, rfl, hbefore, hmem⟩ := ih hnodup hrepeated
      rw [List.append_assoc, List.singleton_append] at hbefore hmem
      exact ⟨first :: before, after, rfl, hbefore, hmem⟩

/-- What comes of entities that are added to what is there: they are refused at the first URI that was there
before, and all of them are there otherwise. -/
structure Came (before : Snapshot) (specs : List EntitySpec) (r : Except Fault Unit) (after : Snapshot) :
    Prop where
  refused : ∀ uri, repeated? (before.entities.map (·.uri)) (specs.map (·.uri)) = some uri → r = .error (.taken uri)
  taken : repeated? (before.entities.map (·.uri)) (specs.map (·.uri)) = none →
    r = .ok () ∧ after = specs.foldl withEntity before

/-- What comes of restoring into an empty store: it is refused at the first URI that repeats, and what is there is
the normal form otherwise. -/
structure Restored (snapshot : Snapshot) (r : Except Fault Unit) (after : Snapshot) : Prop where
  refused : ∀ uri, repeated? [] (snapshot.entities.map (·.uri)) = some uri → r = .error (.taken uri)
  taken : repeated? [] (snapshot.entities.map (·.uri)) = none → r = .ok () ∧ after = snapshot.normal

end Snapshot

namespace Stocked

section Run

variable [Dispatch] (hdepth : 0 < w.depth) (hrounds : 0 < Dispatch.rounds)
include hdepth hrounds

/-- Entities are added one after the other, up to the first whose URI was there before. -/
theorem ends_addAll (h : Stocked s w) (specs : List EntitySpec) : (Snapshot.addAll s specs).Ends w fun r w' ↦
    Grown s w w' ∧ Stocked s w' ∧ Snapshot.Came (w.contents s) specs r (w'.contents s) := by
  induction specs generalizing w with
  | nil =>
    refine ends_pure ⟨.refl s w, h, fun uri hsome ↦ ?_, fun _ ↦ ⟨rfl, rfl⟩⟩
    exact absurd hsome.symm (Option.some_ne_none uri)
  | cons spec rest ih =>
    refine (h.ends_add hdepth hrounds spec).bind fun r w₁ hadded ↦ ?_
    have hknown : spec.uri ∈ (w.contents s).entities.map (·.uri) ↔ w.contains s spec.uri = true := by
      rw [← World.holds_contents h.coherent, Snapshot.holds, decide_eq_true_iff]
    have hnext : Snapshot.repeated? ((w.contents s).entities.map (·.uri)) ((spec :: rest).map (·.uri)) =
        if spec.uri ∈ (w.contents s).entities.map (·.uri) then some spec.uri
        else Snapshot.repeated? ((w.contents s).entities.map (·.uri) ++ [spec.uri]) (rest.map (·.uri)) := rfl
    cases hfree : w.contains s spec.uri with
    | true =>
      obtain ⟨rfl, -⟩ := hadded.refused hfree
      rw [if_pos (hknown.mpr hfree)] at hnext
      refine ends_pure ⟨hadded.grown, hadded.stocked, fun uri hsome ↦ ?_, fun hnone ↦ ?_⟩
      · rw [Option.some.inj (hnext.symm.trans hsome)]
      · exact absurd (hnext.symm.trans hnone) (Option.some_ne_none _)
    | false =>
      obtain ⟨rfl, -, -, hcontents⟩ := hadded.taken hfree
      rw [if_neg fun hmem ↦ Bool.false_ne_true (hfree.symm.trans (hknown.mp hmem))] at hnext
      refine (ih (hadded.grown.depth_eq ▸ hdepth) hadded.stocked).mono fun r w' hrest ↦ ?_
      obtain ⟨hgrown, hstocked, hdone⟩ := hrest
      have huris : (w₁.contents s).entities.map (·.uri) = (w.contents s).entities.map (·.uri) ++ [spec.uri] := by
        rw [hcontents, Snapshot.withEntity, List.map_append]
        rfl
      rw [← huris] at hnext
      refine ⟨hadded.grown.trans hgrown, hstocked, fun uri hsome ↦ ?_, fun hnone ↦ ?_⟩
      · exact hdone.refused uri (hnext.symm.trans hsome)
      · obtain ⟨hr, hcontents'⟩ := hdone.taken (hnext.symm.trans hnone)
        exact ⟨hr, hcontents'.trans (by rw [hcontents]; rfl)⟩

/-- Edges are added one after the other, each where it can be. -/
theorem ends_linkAll (h : Stocked s w) (edges : List Edge) : (Snapshot.linkAll s edges).Ends w fun _ w' ↦
    Grown s w w' ∧ Stocked s w' ∧ w'.contents s = edges.foldl Snapshot.withEdge (w.contents s) := by
  induction edges generalizing w with
  | nil => exact ends_pure ⟨.refl s w, h, rfl⟩
  | cons edge rest ih =>
    refine (h.ends_link hdepth hrounds edge).bind fun _ w₁ hlinked ↦ ?_
    obtain ⟨hgrown₁, hstocked₁, hcontents⟩ := hlinked
    refine (ih (hgrown₁.depth_eq ▸ hdepth) hstocked₁).mono fun _ w' hrest ↦ ?_
    obtain ⟨hgrown, hstocked, hdone⟩ := hrest
    exact ⟨hgrown₁.trans hgrown, hstocked, hdone.trans (by rw [hcontents]; rfl)⟩

end Run

end Stocked

/-- A debug state whose store holds nothing, and nobody hears of what comes into it. -/
structure Vacant (id : StateId) (w : World) : Prop extends Stocked (w.state id).store w where
  empty : ∀ uri, w.contains (w.state id).store uri = false
  calm : w.Busy ∨ w.Idle

theorem Vacant.contents_eq (h : Vacant id w) : w.contents (w.state id).store = ⟨[], [], []⟩ := by
  have hentities : w.byAge (w.state id).store = [] := List.eq_nil_iff_forall_not_mem.mpr fun e he ↦ by
    have hholds : (w.contents (w.state id).store).holds (w.uriOf e) = true := by
      rw [Snapshot.holds, decide_eq_true_iff, World.uris_contents]
      exact List.mem_map.mpr ⟨e, he, rfl⟩
    rw [World.holds_contents h.coherent, h.empty] at hholds
    exact Bool.false_ne_true hholds
  have hedges : (w.store (w.state id).store).edges.edges = [] := List.eq_nil_iff_forall_not_mem.mpr fun e he ↦ by
    have hsource := (h.coherent.ends e he).1
    exact Bool.false_ne_true ((h.empty e.source).symm.trans hsource)
  rw [World.contents, hentities, hedges]
  rfl

/-- So is the debug state that a session starts with. -/
theorem vacant_start (schema : Schema) (keepsFirst : Bool) : Vacant 0 (Session.start schema keepsFirst) := by
  have hground := ground_start schema keepsFirst
  obtain ⟨scopes, hstates⟩ := start_states schema keepsFirst
  have hstate : ((Session.start schema keepsFirst).state 0).store = 0 := by
    rw [World.state, hstates]
    rfl
  have hstore := (start_parts schema keepsFirst).1
  have hnone : ∀ uri, (Session.start schema keepsFirst).contains 0 uri = false := fun uri ↦ by
    rw [World.contains, hstore]
    exact Std.TreeMap.contains_emptyc
  refine ⟨?_, hstate.symm ▸ hnone, .inr hground.idle⟩
  rw [hstate]
  refine ⟨?_, hground.holds.1.coherent, ?_, ?_, ?_, fun e he hcurrent ↦ ?_⟩
  · rw [hground.holds.1.stores_size]
    exact Nat.one_pos
  · rw [hstore]
    rfl
  · rw [hstore]
    rfl
  · rw [hstore]
    rfl
  · have hlive := hground.holds.1.isLive_of_isCurrent he hcurrent
    exact absurd hlive (not_isLive_start schema keepsFirst e)

namespace Snapshot

/-- In a restored store the list of a target has the edges of the snapshot in order. -/
theorem sources_normal (snapshot : Snapshot) (h : w.contents s = snapshot.normal)
    (uri : Uri) (kind : String) : (Store.sources s uri kind).value w =
      (snapshot.standing.filter fun e ↦ e.target = uri ∧ e.kind = kind).map (·.source) := by
  have hedges : (w.store s).edges.edges = sorted Edge.byEnd snapshot.standing := congrArg edges h
  have hfilter := filter_sorted Edge.byEnd snapshot.standing ⟨kind, "", uri⟩
  change (w.store s).edges.sources uri kind = _
  rw [Adjacency.sources_eq, hedges]
  rw [← Adjacency.filter_ends, ← Adjacency.filter_ends] at hfilter
  rw [hfilter]

section Run

variable [Dispatch] (hrounds : 0 < Dispatch.rounds)
include hrounds

/-- Restoring into an empty store comes to an end, and nobody hears of it. -/
theorem ends_restore (h : Vacant id w) (snapshot : Snapshot) : (snapshot.restore id false).Ends w fun r w' ↦
    Grown (w.state id).store w w' ∧ Stocked (w.state id).store w' ∧
      Restored snapshot r (w'.contents (w.state id).store) := by
  let s := (w.state id).store
  let w₁ := w.setDepth (w.depth + 1)
  have h₁ : Stocked s w₁ := h.toStocked.setDepth _
  have hcontents : w₁.contents s = ⟨[], [], []⟩ := h.contents_eq
  refine ends_get (Ends.bind (ends_batch_quiet h.calm hrounds (Q := fun r w' ↦ Grown s w w' ∧ Stocked s w' ∧
      Restored snapshot r (w'.contents s)) ?_) fun r w' hdone ↦ ?_)
  · refine (h₁.ends_addAll (Nat.succ_pos _) hrounds snapshot.entities).bind fun r w₂ hadded ↦ ?_
    obtain ⟨hgrown₂, hstocked₂, hcame⟩ := hadded
    rw [hcontents] at hcame
    cases hrepeated : repeated? [] (snapshot.entities.map (·.uri)) with
    | some uri =>
      obtain rfl := hcame.refused uri hrepeated
      refine ends_pure ⟨hgrown₂.toQuiet, hgrown₂.setDepth, hstocked₂.setDepth _, fun uri' hsome ↦ ?_,
        fun hnone ↦ ?_⟩
      · rw [Option.some.inj (hrepeated.symm.trans hsome)]
      · exact absurd (hrepeated.symm.trans hnone) (Option.some_ne_none _)
    | none =>
      obtain ⟨rfl, hcontents₂⟩ := hcame.taken hrepeated
      have hdepth₂ : 0 < w₂.depth := hgrown₂.depth_eq ▸ Nat.succ_pos w.depth
      refine (hstocked₂.ends_linkAll hdepth₂ hrounds snapshot.edges).bind fun _ w₃ hlinked ↦ ?_
      obtain ⟨hgrown₃, hstocked₃, hcontents₃⟩ := hlinked
      have hgrown := hgrown₂.trans hgrown₃
      refine ends_pure ⟨hgrown.toQuiet, hgrown.setDepth, hstocked₃.setDepth _, fun uri hsome ↦ ?_,
        fun _ ↦ ⟨rfl, ?_⟩⟩
      · exact absurd (hrepeated.symm.trans hsome).symm (Option.some_ne_none uri)
      · refine hcontents₃.trans ?_
        rw [hcontents₂, normal_eq_foldl]
  · cases r with
    | error why => exact ends_pure hdone
    | ok u => exact ends_pure hdone

/-- Restoring into an empty store succeeds exactly if no URI repeats, and else is refused at the first that does.
What is captured then is the normal form, in which the list of every target is in order, and stays the same when it
is restored and captured again. -/
theorem restore_normal (h : Vacant id w) (snapshot : Snapshot) : (snapshot.restore id false).Ends w fun r w' ↦
    (r = .ok () ↔ (snapshot.entities.map (·.uri)).Nodup) ∧
      (∀ why, r = .error why → ∃ before uri after, snapshot.entities.map (·.uri) = before ++ uri :: after ∧
        before.Nodup ∧ uri ∈ before ∧ why = .taken uri) ∧
      (r = .ok () → w'.capture id false = snapshot.normal ∧
        (∀ uri kind, (Store.sources (w'.state id).store uri kind).value w' =
          (snapshot.standing.filter fun e ↦ e.target = uri ∧ e.kind = kind).map (·.source)) ∧
        ∀ v id', Vacant id' v → ((w'.capture id false).restore id' false).Ends v fun r' v' ↦
          r' = .ok () ∧ v'.capture id' false = w'.capture id false) := by
  have hnodup {uris : List Uri} : repeated? [] uris = none ↔ uris.Nodup := repeated?_eq_none List.nodup_nil
  refine (ends_restore hrounds h snapshot).mono fun r w' hrestored ↦ ?_
  obtain ⟨hgrown, -, hdone⟩ := hrestored
  have hstate : (w'.state id).store = (w.state id).store := by rw [World.state, hgrown.states_eq, World.state]
  cases hrepeated : repeated? [] (snapshot.entities.map (·.uri)) with
  | some uri =>
    obtain rfl := hdone.refused uri hrepeated
    refine ⟨iff_of_false (by simp) fun huris ↦ ?_, fun why hwhy ↦ ?_,
      fun hok ↦ absurd hok (by simp)⟩
    · exact absurd (hrepeated.symm.trans (hnodup.mpr huris)) (Option.some_ne_none uri)
    · obtain ⟨before, after, heq, hbefore, hmem⟩ := repeated?_eq_some List.nodup_nil hrepeated
      exact ⟨before, uri, after, heq, hbefore, hmem, (Except.error.inj hwhy).symm⟩
  | none =>
    obtain ⟨rfl, hcontents⟩ := hdone.taken hrepeated
    have hcapture : w'.capture id false = snapshot.normal := by rw [World.capture_false, hstate, hcontents]
    refine ⟨iff_of_true rfl (hnodup.mp hrepeated), fun why hwhy ↦ absurd hwhy (by simp),
      fun _ ↦ ⟨hcapture, ?_, ?_⟩⟩
    · rw [hstate]
      exact sources_normal snapshot hcontents
    · intro v id' hv
      have huris : (snapshot.normal.entities.map (·.uri)) = snapshot.entities.map (·.uri) := by
        rw [normal, List.map_map]
        rfl
      rw [hcapture]
      refine (ends_restore hrounds hv snapshot.normal).mono fun r' v' hagain ↦ ?_
      obtain ⟨hgrown', -, hdone'⟩ := hagain
      obtain ⟨rfl, hcontents'⟩ := hdone'.taken (huris ▸ hrepeated)
      have hstate' : (v'.state id').store = (v.state id').store := by
        rw [World.state, hgrown'.states_eq, World.state]
      refine ⟨rfl, ?_⟩
      rw [World.capture_false, hstate', hcontents', normal_normal]

end Run

/-- A session that repeats a property, with a thread, an edge that repeats and one without its source. -/
def repeating : Snapshot where
  entities := [⟨"s", "session", [("name", .str "b"), ("host", .nil), ("name", .str "a")]⟩, ⟨"t", "thread", []⟩]
  edges := [⟨"parent", "t", "s"⟩, ⟨"parent", "u", "s"⟩, ⟨"parent", "t", "s"⟩]
  focus := []

/-- It is restored into the store that a session of a debugger starts with. -/
theorem restore_normal_repeating : 0 < (dispatch 2).rounds ∧ Vacant 0 (Session.start .debugger false) ∧
    (repeating.entities.map (·.uri)).Nodup ∧ (@restore (dispatch 2) repeating 0 false).Ends
      (Session.start .debugger false) fun r w' ↦ r = .ok () ∧ w'.capture 0 false = repeating.normal := by
  have hrounds : 0 < (dispatch 2).rounds := by decide
  have hvacant := vacant_start .debugger false
  have hnodup : (repeating.entities.map (·.uri)).Nodup := by decide
  refine ⟨hrounds, hvacant, hnodup, ?_⟩
  refine (@restore_normal _ _ (dispatch 2) hrounds hvacant repeating).mono fun r w' hdone ↦ ?_
  have hr : r = .ok () := hdone.1.mpr hnodup
  exact ⟨hr, (hdone.2.2 hr).1⟩

end Snapshot

end LiveGraph
