import LiveGraph.Proofs.Breakpoint.Arrival
import LiveGraph.Proofs.Breakpoint.Choice
import Mathlib.Data.List.Perm.Subperm

/-!
# Breakpoints that are inserted

A breakpoint is inserted by up to three operations within one batch: its source is made if there is none,
the breakpoint is added under the next free number, and both are linked. Listeners are told after each of
them. As long as they leave the path alone, the breakpoint comes last on it.
-/

namespace LiveGraph.Breakpoint

open Act

section Numbers

variable (w : World)

theorem numbered_inj {m n : Nat} (h : numbered m = numbered n) : m = n := by
  have hrepr : m.repr = n.repr := (String.append_right_inj "breakpoint:").mp h
  have hdigits := congrArg (fun s : String ↦ Nat.ofDigitChars 10 s.toList 0) hrepr
  simpa only [Nat.toList_repr, Nat.ofDigitChars_ten_toDigits] using hdigits

/-- Of one more number than there are entities, one is free. -/
theorem exists_free (n : Nat) :
    ∃ m, n < m ∧ m ≤ n + (w.store 0).live.size + 1 ∧ w.contains 0 (numbered m) = false := by
  by_contra hnone
  let uris := (List.range' (n + 1) ((w.store 0).live.size + 1)).map numbered
  have hnodup : uris.Nodup := (List.nodup_range' ..).map fun _ _ ↦ numbered_inj
  have hsubset : uris ⊆ (w.store 0).live.keys := fun uri hmem ↦ by
    obtain ⟨m, hm, rfl⟩ := List.mem_map.mp hmem
    rw [List.mem_range'_1] at hm
    rw [Std.TreeMap.mem_keys, ← Std.TreeMap.contains_iff_mem]
    exact by_contra fun hfree ↦ hnone ⟨m, by omega, by omega, Bool.eq_false_iff.mpr hfree⟩
  have hlength := (hnodup.subperm hsubset).length_le
  rw [List.length_map, List.length_range', Std.TreeMap.length_keys] at hlength
  omega

/-- The next number is free, as long as enough numbers are tried. -/
theorem nextNumber_free (tries n : Nat) (h : ∃ m, n < m ∧ m ≤ n + tries + 1 ∧
    w.contains 0 (numbered m) = false) : w.contains 0 (numbered (nextNumber w 0 tries n)) = false := by
  obtain ⟨m, hlt, hle, hfree⟩ := h
  induction tries generalizing n with
  | zero =>
    obtain rfl : m = n + 1 := by omega
    exact hfree
  | succ tries ih =>
    rw [nextNumber]
    split
    · rename_i htaken
      have hne : m ≠ n + 1 := fun heq ↦ by
        rw [← heq, hfree] at htaken
        exact Bool.noConfusion htaken
      exact ih (n + 1) (by omega) (by omega)
    · rename_i hnot
      exact Bool.eq_false_iff.mpr hnot

end Numbers

/-- A world where every source has a path. -/
def Tagged (w : World) : Prop :=
  ∀ e : EntityRef, e.store = 0 → w.isCurrent e → w.kindOf e = sourceKind → w.property e "path" ≠ .nil

section Places

variable {hidden : Nat → Prop} {w : World} {path : String}

theorem placeFrom_vacant {tries n : Nat} {uri : Uri}
    (h : placeFrom w 0 path tries n = some (.vacant uri)) : w.contains 0 uri = false := by
  induction tries generalizing n with
  | zero => exact absurd h.symm (Option.some_ne_none _)
  | succ tries ih =>
    rw [placeFrom] at h
    split at h
    · rename_i hnone
      obtain rfl := Place.vacant.inj (Option.some.inj h)
      rw [World.contains, Std.TreeMap.contains_eq_isSome_getElem?]
      rw [World.find?, Option.map_eq_none_iff] at hnone
      exact Option.isSome_eq_false_iff.mpr (Option.isNone_iff_eq_none.mpr hnone)
    · split at h
      · exact Place.noConfusion (Option.some.inj h)
      · exact ih h

theorem placeFrom_untagged {tries n : Nat} {e : EntityRef}
    (h : placeFrom w 0 path tries n = some (.untagged e)) :
    (∃ uri, w.find? 0 uri = some e) ∧ w.kindOf e = sourceKind ∧ w.property e "path" = .nil := by
  induction tries generalizing n with
  | zero => exact absurd h.symm (Option.some_ne_none _)
  | succ tries ih =>
    rw [placeFrom] at h
    split at h
    · exact Place.noConfusion (Option.some.inj h)
    · rename_i e' hfound
      split at h
      · rename_i huntagged
        obtain rfl := Place.untagged.inj (Option.some.inj h)
        rw [Bool.and_eq_true, decide_eq_true_eq] at huntagged
        refine ⟨⟨_, hfound⟩, huntagged.1, ?_⟩
        cases hvalue : w.property e' "path" with
        | nil => rfl
        | bool b => rw [hvalue] at huntagged; exact Bool.noConfusion huntagged.2
        | int i => rw [hvalue] at huntagged; exact Bool.noConfusion huntagged.2
        | str s => rw [hvalue] at huntagged; exact Bool.noConfusion huntagged.2
      · exact ih h

/-- Where every source has a path, none is there to be reused. -/
theorem Tagged.place_ne (h : Tagged w) (hground : Ground hidden w) (e : EntityRef) :
    place w 0 path ≠ some (.untagged e) := fun hplace ↦ by
  obtain ⟨⟨uri, hfound⟩, hkind, hnil⟩ := placeFrom_untagged hplace
  obtain ⟨he, hcurrent, -⟩ := isCurrent_of_find? hground hfound
  exact h e he hcurrent hkind hnil

end Places

section Adding

open Act

variable {own : String → Prop} {δ : Definitions} {β : Background} {path : String} {Φ Ψ : Scene → Prop}
variable {D : Dispatch} {d : Nat} {f : Bool} {e : EntityRef} {uri : Uri} {kind : String}

/-- An entity that is being added has the properties it was given. -/
structure Given (own : String → Prop) (δ : Definitions) (β : Background) (path : String)
    (Φ : Scene → Prop) (e : EntityRef) (uri : Uri) (kind : String) (props : List (String × Value))
    (w : World) : Prop where
  scened : Scened own δ β path Φ (.coming e uri kind) w
  property?_eq : ∀ prop, w.property? e prop = props.lookup prop

theorem lookup_concat {α : Type} (props : List (String × α)) (prop prop' : String) (v : α) :
    (props ++ [(prop, v)]).lookup prop' =
      (props.lookup prop').or (if prop = prop' then some v else none) := by
  rw [List.lookup_append, List.lookup_cons, List.lookup_nil]
  by_cases heq : prop = prop'
  · rw [if_pos heq, heq, beq_self_eq_true]
  · rw [if_neg heq, beq_eq_false_iff_ne.mpr (Ne.symm heq)]

theorem Given.coming : Coming (Given own δ β path Φ e uri kind) 0 e where
  depthFree props w d h := ⟨Scened.viewless.depthFree w d h.scened, h.property?_eq⟩
  hidden props w h := OnGround.coming h.scened.indexed.ground
  kept props w prop v id h hid := by
    refine ⟨h.scened, fun prop' ↦ ?_⟩
    rw [lookup_concat, ← h.property?_eq]
    by_cases heq : prop = prop'
    · rw [← heq, World.property?, hid]
      rfl
    · rw [if_neg heq, Option.or_none]
  given props w prop v h hnone := by
    have hindexed := h.scened.indexed
    obtain ⟨-, hnew⟩ := hindexed.ground
    have hlive := World.isLive_of_live hnew.store_eq hnew.serial_pos hnew.live
    let w' := (w.addProperty e prop v).2
    have hadded : Given own δ β path Φ e uri kind (props ++ [(prop, v)]) w' := by
      refine ⟨h.scened.alike (hindexed.addComing hnone) (alike_addProperty hindexed prop v),
        fun prop' ↦ ?_⟩
      rw [property?_addProperty hindexed prop v hlive, lookup_concat, ← h.property?_eq]
      by_cases heq : prop = prop'
      · rw [if_pos ⟨rfl, heq⟩, if_pos heq, ← heq, World.property?, hnone]
        rfl
      · rw [if_neg fun hboth ↦ heq hboth.2, if_neg heq, Option.or_none]
    obtain heq | ⟨-, v', heq⟩ := w'.advanced_cases (w.entity e).shape
    · rwa [heq]
    · have hindexed' := hadded.scened.indexed
      obtain ⟨-, hnew'⟩ := hindexed'.ground
      have hlive' := World.isLive_of_live hnew'.store_eq hnew'.serial_pos hnew'.live
      -- The signal that counts the properties is watched by nobody, so it is no property itself.
      have hshape : ∀ e' prop', ¬w'.HasProperty e' prop' (w.entity e).shape := fun e' prop' hid ↦ by
        obtain ⟨hlt, hunwatched⟩ := hindexed.tied.shape e hlive
        obtain ⟨n, hentries⟩ := (hindexed'.tied.property e' prop' _ hid).entries_eq
        rw [World.signal_addProperty, if_neg (Nat.ne_of_lt hlt), hunwatched] at hentries
        exact absurd hentries (List.cons_ne_nil _ _).symm
      rw [heq]
      refine ⟨hadded.scened.alike (hindexed'.write _ v') (Scened.alike_write hindexed' hshape v'),
        fun prop' ↦ ?_⟩
      rw [Scened.property?_write hindexed' hshape hlive', hadded.property?_eq]

variable (h : ∀ Φ, Filing (Scened own δ β path Φ) D D)
include h

/-- An entity is added, from what is known of a path before to what is known once it can be found. -/
theorem agree_add (spec : EntitySpec) (n : Nat) (henlist : ∀ w,
      Given own δ β path Φ ⟨0, n + 1⟩ spec.uri spec.kind spec.props w →
        Ψ (scene (w.enlist ⟨0, n + 1⟩) path)) :
    Agree (Held (fun w ↦ Scened own δ β path Φ (.whole ∅) w ∧ w.contains 0 spec.uri = false ∧
        (w.store 0).incarnations.size = n) d f)
      (@Store.add D 0 spec) (@Store.add D 0 spec)
      (fun r w ↦ r = .ok ⟨0, n + 1⟩ ∧ At (Scened own δ β path Ψ (.whole ∅)) d f w) fun _ ↦ False := by
  have hcoming : Coming (Given own δ β path Φ ⟨0, n + 1⟩ spec.uri spec.kind) 0 ⟨0, n + 1⟩ := Given.coming
  refine ((h Ψ).telling Scened.filed).agree_add ((h Ψ).telling Scened.filed).flushes spec
    (fun w d hw ↦ ⟨Scened.viewless.depthFree w d hw.1, hw.2⟩) hcoming (fun w hw ↦ ?_) fun w hw ↦ ?_
  · obtain ⟨hscened, hfree, rfl⟩ := hw
    have hground : Ground (fun _ ↦ False) w := hscened.indexed.ground
    refine ⟨hfree, rfl, hscened.alike (hscened.indexed.addIncarnation spec.uri spec.kind hfree)
      (alike_addIncarnation hground hscened.indexed.tied spec.uri spec.kind), fun prop ↦ ?_⟩
    rw [World.property?, hground.entity_addIncarnation spec.uri spec.kind rfl (Nat.succ_pos _), if_pos rfl]
    rfl
  · exact ⟨⟨hw.scened.indexed.enlist, henlist w hw⟩, (OnGround.enlist hw.scened.indexed.ground).2⟩

variable {ς : Scene} {known : Prop}

/-- A breakpoint was added to a path, with a source if there was none. -/
def Scene.Gains (ς : Scene) (l : Location) (ς' : Scene) : Prop :=
  ∃ source m, (ς.source = none ∨ ς.source = some source) ∧ m.line = some (Int64.ofNat l.line) ∧
    m.column = l.column.map Int64.ofNat ∧ ς' = ((ς.founding source).stating m).linking m

/-- The source of a path is found or made. What becomes of the path is known if there is no source
without a path. -/
theorem agree_ensureSource (hindexed : Filing (Indexed own δ β) D D) (hown : own sourceIndex)
    (hδ : δ sourceIndex = some (sourceKind, sourceExtractor)) :
    Agree (Held (fun w ↦ Scened own δ β path (· = ς) (.whole ∅) w ∧ w.effects = [] ∧
        (known → Tagged w)) (d + 1) f)
      (@ensureSource D 0 path) (@ensureSource D 0 path)
      (fun r w ↦ ∃ source, (r = .ok source ∧ (ς.source = none ∨ ς.source = some source)) ∧
        Held (Scened own δ β path (fun ς' ↦ known → ς' = ς.founding source) (.whole ∅)) (d + 1) f w)
      fun _ ↦ False := by
  refine agree_get fun w hw ↦ ?_
  obtain ⟨hscened, heffects, htagged⟩ := hw.holds
  have hground : Ground (fun _ ↦ False) w := hscened.indexed.ground
  have hsource : sourceOn w path = ς.source := congrArg Scene.source hscened.known
  rw [source_value hscened.indexed heffects hown hδ, hsource]
  cases hς : ς.source with
  | some source =>
    refine agree_pure fun w' hw' ↦ ?_
    subst hw'
    refine ⟨source, ⟨rfl, .inr rfl⟩, ⟨hscened.indexed, fun _ ↦ ?_⟩, hw.depth_eq, hw.flushing_eq⟩
    rw [hscened.known, Scene.founding, ← hς]
  | none =>
    dsimp only
    cases hplace : place w 0 path with
    | none => exact fun _ _ ↦ ⟨rfl, trivial⟩
    | some found =>
      cases found with
      | vacant uri =>
        have hfree : w.contains 0 uri = false := placeFrom_vacant hplace
        have hadd := agree_add (d := d + 1) (f := f) (Φ := (· = ς))
          (Ψ := fun ς' ↦ known → ς' = ς.founding ⟨0, (w.store 0).incarnations.size + 1⟩) h
          ⟨uri, sourceKind, [("path", .str path)]⟩ (w.store 0).incarnations.size fun w' hgiven _ ↦ ?_
        · refine hadd.mono (fun w' hw' ↦ ?_) (fun r w' hw' ↦ ?_) fun _ h ↦ h
          · subst hw'
            exact ⟨⟨hscened, hfree, rfl⟩, hw.depth_eq, hw.flushing_eq⟩
          · exact ⟨_, ⟨hw'.1, .inl rfl⟩, hw'.2.toHeld⟩
        · have hcoming := hgiven.scened.indexed.ground
          have hpath : w'.property ⟨0, (w.store 0).incarnations.size + 1⟩ "path" = .str path := by
            rw [← World.getD_property?, hgiven.property?_eq]
            rfl
          have hnone : sourceOn w' path = none :=
            (congrArg Scene.source hgiven.scened.known).trans hς
          rw [(arrived_enlist hcoming).scene_source hcoming.1 (OnGround.enlist hcoming).1 rfl
            hcoming.2.kind_eq hpath hnone, hgiven.scened.known]
      | untagged e =>
        obtain ⟨⟨uri, hfound⟩, -, -⟩ := placeFrom_untagged hplace
        obtain ⟨he, hcurrent, -⟩ := isCurrent_of_find? hground hfound
        have hlive := hscened.indexed.isLive he hcurrent
        have hset := (Indexed.kept hindexed).agree_set_live (d := d + 1) (f := f) flushes_succ he
          ((hground.isCurrent_iff he).mp hcurrent).1 "path" (.str path)
        refine agree_bind (hset.pre fun w' hw' ↦ ?_) fun r ↦ agree_pure fun w' hw' ↦ ?_
        · subst hw'
          refine ⟨?_, ((hground.isCurrent_iff he).mp hcurrent).2.2.2, fun id hid ↦ ?_⟩
          · exact (hw.mono fun _ hw ↦ hw.1.indexed).at_busy (.inl (Nat.succ_pos d))
          · exact (hscened.indexed.tied.property e "path" id ⟨hlive, hid⟩).undisposed
        · obtain ⟨rfl, hw'⟩ := hw'
          refine ⟨e, ⟨rfl, .inl rfl⟩, ⟨hw'.holds, fun hknown ↦ ?_⟩, hw'.depth_eq, hw'.flushing_eq⟩
          exact absurd hplace ((htagged hknown).place_ne hground e)

omit h in
/-- The next number is issued, of a URI that nobody has. -/
theorem issue_run {id : StateId} {w : World} (hindexed : Indexed own δ β (.whole ∅) w)
    (hid : (β.states id).store = 0) : ∃ n, let w' := w.modifyState id fun s ↦ { s with issued := n }
      issue id w = .ok (numbered n) w' ∧ w.contains 0 (numbered n) = false ∧ Indexed own δ β (.whole ∅) w' := by
  have hground : Ground (fun _ ↦ False) w := hindexed.ground
  have hstore : (w.state id).store = 0 := by
    rw [← hid, ← hindexed.behind.background_eq]
    rfl
  let n := nextNumber w 0 (w.store 0).live.size (w.state id).issued
  let F : State → State := fun s ↦ { s with issued := n }
  let w' := w.modifyState id F
  have hissue : issue id w = .ok (numbered n) w' := by
    have hrun : issue id w = .ok (numbered (nextNumber w (w.state id).store
      (w.store (w.state id).store).live.size (w.state id).issued)) (w.modifyState id fun s ↦ { s with
        issued := nextNumber w (w.state id).store (w.store (w.state id).store).live.size
          (w.state id).issued }) := rfl
    rw [hrun, hstore]
  have hpart {α : Type} (part : State → α) (hF : ∀ s, part (F s) = part s) (id' : StateId) :
      part (w'.state id') = part (w.state id') := w.part_modifyState part hF id id'
  have haside := hindexed.aside w.session w'.states w.pins
    ⟨Nat.lt_of_lt_of_eq hground.current.1 (w.size_modifyState id F).symm,
      (hpart (·.store) (fun _ ↦ rfl) w.session.current).trans hground.current.2⟩
    (hpart State.allRoles fun _ ↦ rfl)
  have hbackground : w'.background = β := by
    rw [← hindexed.behind.background_eq]
    exact Background.ext rfl (funext (hpart (fun s ↦ { s with issued := 0 }) fun _ ↦ rfl))
  exact ⟨n, hissue, nextNumber_free w (w.store 0).live.size (w.state id).issued (exists_free w (w.state id).issued),
    hbackground ▸ haside⟩

omit h in
/-- A new breakpoint gets a URI that nobody has. -/
theorem agree_issue {id : StateId} (hid : (β.states id).store = 0) :
    Agree (Held (Scened own δ β path Φ (.whole ∅)) d f) (issue id) (issue id)
      (fun uri ↦ Held (fun w ↦ Scened own δ β path Φ (.whole ∅) w ∧ w.contains 0 uri = false) d f)
      fun _ ↦ False := by
  intro w hw
  obtain ⟨n, hissue, hfree, hindexed⟩ := issue_run hw.holds.indexed hid
  refine ⟨rfl, ?_⟩
  rw [hissue]
  exact ⟨⟨⟨hindexed, hw.holds.known⟩, hfree⟩, hw.depth_eq, hw.flushing_eq⟩

/-- A breakpoint that says to be on a path is linked to the source of the path. -/
theorem agree_link {source : EntityRef} {m : Mark} {sourceUri : Uri} (hknown : known →
      ς.source = some source ∧ ς.stated m.entity = some m ∧ ∀ m' ∈ ς.marks, m'.entity ≠ m.entity) :
    Agree (Held (fun w ↦ Scened own δ β path (fun ς' ↦ known → ς' = ς) (.whole ∅) w ∧
        w.uriOf source = sourceUri) d f)
      (@Store.link D 0 ⟨Schema.sourceKind, m.uri, sourceUri⟩ false)
      (@Store.link D 0 ⟨Schema.sourceKind, m.uri, sourceUri⟩ false)
      (fun _ ↦ At (Scened own δ β path (fun ς' ↦ known → ς' = ς.linking m) (.whole ∅)) d f)
      fun _ ↦ False := by
  have hplaced (w : World) (hw : Scened own δ β path (fun ς' ↦ known → ς' = ς) (.whole ∅) w)
      (hk : known) : sourceOn w path = some source ∧ stated w path m.entity = some m :=
    ⟨(congrArg Scene.source (hw.known hk)).trans (hknown hk).1,
      (congrFun (congrArg Scene.stated (hw.known hk)) m.entity).trans (hknown hk).2.1⟩
  have htelling := (h fun ς' ↦ known → ς' = ς.linking m).telling Scened.filed
  refine htelling.agree_link htelling.flushes _ false
    (fun w d hw ↦ ⟨Scened.viewless.depthFree w d hw.1, hw.2⟩) (fun w hw habsent ↦ ?_)
    fun w edges hw hsource htarget hinsert ↦ ?_
  · obtain ⟨hscened, rfl⟩ := hw
    refine ⟨hscened.indexed, fun hk ↦ absurd (hknown hk).2.2 ?_⟩
    obtain ⟨hsource, hstated⟩ := hplaced w hscened hk
    have hground : Ground (fun _ ↦ False) w := hscened.indexed.ground
    obtain ⟨hsource0, hsourceCurrent, -⟩ := sourceOn_current hground hsource
    obtain ⟨⟨he, hcurrent, hkind, -⟩, hmark⟩ := stated_eq_some.mp hstated
    have huri : w.uriOf m.entity = m.uri := congrArg Mark.uri hmark
    -- An edge that is not new would have the breakpoint on the path already.
    have hnone := habsent ⟨huri ▸ contains_of_isCurrent he hcurrent,
      contains_of_isCurrent hsource0 hsourceCurrent⟩
    have hcontained : (w.store 0).edges.contains ⟨Schema.sourceKind, m.uri, w.uriOf source⟩ = true := by
      by_contra hnot
      rw [Adjacency.insert?, if_neg hnot] at hnone
      exact Option.some_ne_none _ hnone
    have hmem := (hground.coherent.edges.lists.mem_sources ⟨Schema.sourceKind, m.uri, w.uriOf source⟩).mpr
      (hground.coherent.edges.contains_iff.mp hcontained)
    have hlinked : m ∈ linked w source :=
      mem_linked.mpr ⟨⟨m.uri, hmem, huri ▸ find?_of_isCurrent he hcurrent⟩, hkind, hmark⟩
    have hmarks : ς.marks = linked w source := by
      rw [← hscened.known hk, scene, hsource, Option.elim_some]
    exact fun hfresh ↦ hfresh m (hmarks ▸ hlinked) rfl
  · obtain ⟨hscened, rfl⟩ := hw
    refine ⟨hscened.indexed.modifyStore (fun _ ↦ rfl) (fun _ ↦ rfl) (fun _ ↦ rfl) (fun h ↦ h)
      (OnGround.link hscened.indexed.ground hsource htarget hinsert), fun hk ↦ ?_⟩
    obtain ⟨hsource, hstated⟩ := hplaced w hscened hk
    obtain ⟨⟨he, hcurrent, hkind, -⟩, hmark⟩ := stated_eq_some.mp hstated
    have hfound : w.find? 0 m.uri = some m.entity :=
      congrArg Mark.uri hmark ▸ find?_of_isCurrent he hcurrent
    rw [scene_link hscened.indexed.ground hsource hfound hkind hinsert, hmark, hscened.known hk]

omit h in
/-- A new breakpoint is what it was told to be. -/
theorem mark_given {l : Location} {w : World}
    (hw : Given own δ β path Φ e uri Breakpoint.kind (spec uri l).props w) :
    mark w e = ⟨e, uri, some (Int64.ofNat l.line), l.column.map Int64.ofNat⟩ ∧
      w.property e "path" = .str l.path := by
  have hproperty (prop : String) : w.property e prop = ((spec uri l).props.lookup prop).getD .nil := by
    rw [← World.getD_property?, hw.property?_eq]
  have hline : w.property e "line" = .int (Int64.ofNat l.line) := hproperty "line"
  have hcolumn : (w.property e "column").asInt? = l.column.map Int64.ofNat := by
    rw [hproperty]
    cases hcolumn : l.column with
    | none => rw [spec, hcolumn]; rfl
    | some column => rw [spec, hcolumn]; rfl
  refine ⟨?_, hproperty "path"⟩
  rw [mark, hw.scened.indexed.ground.2.uri_eq, hline, hcolumn]
  rfl

/-- A breakpoint is inserted on a path that listeners leave alone. -/
theorem agree_insert (hindexed : Filing (Indexed own δ β) D D) (hown : own sourceIndex)
    (hδ : δ sourceIndex = some (sourceKind, sourceExtractor)) {id : StateId}
    (hid : (β.states id).store = 0) {l : Location} (hl : l.path = path) :
    Agree (Held (fun w ↦ Scened own δ β path (· = ς) (.whole ∅) w ∧ w.effects = [] ∧
        (known → Tagged w)) d f)
      (@insert D id l) (@insert D id l)
      (fun r w ↦ (∃ e, r = .ok e) ∧
        At (Scened own δ β path (fun ς' ↦ known → ς.Gains l ς') (.whole ∅)) d f w) fun _ ↦ False := by
  subst hl
  refine agree_batch_result (fun w d hw ↦ ⟨Scened.viewless.depthFree w d hw.1, hw.2⟩)
    Scened.viewless.depthFree (agree_get fun w hw ↦ ?_) (fun _ _ ↦ (h _).agree_flush Scened.filed)
    fun _ h ↦ h
  have hstore : (w.state id).store = 0 := by
    rw [← hid, ← hw.holds.1.indexed.behind.background_eq]
    rfl
  simp only [hstore]
  refine agree_bind ((agree_ensureSource h hindexed hown hδ).pre fun w' (hw' : w' = w) ↦ hw' ▸ hw)
    fun r w₁ hw₁ ↦ ?_
  obtain ⟨source, ⟨rfl, hς⟩, hw₁⟩ := hw₁
  refine agree_bind (agree_issue hid) (fun uri w₂ hw₂ ↦ ?_) w₁ hw₁
  let n := (w₂.store 0).incarnations.size
  let m : Mark := ⟨⟨0, n + 1⟩, uri, some (Int64.ofNat l.line), l.column.map Int64.ofNat⟩
  have hfresh (hk : known) : ∀ m' ∈ ς.marks, m'.entity ≠ m.entity := fun m' hm' heq ↦ by
    have hground : Ground (fun _ ↦ False) w₂ := hw₂.holds.1.indexed.ground
    have hmarks : (scene w₂ l.path).marks = (ς.founding source).marks :=
      congrArg Scene.marks (hw₂.holds.1.known hk)
    obtain ⟨he, hcurrent, -⟩ := marks_current hground (hmarks.symm ▸ hm')
    have hle := ((hground.isCurrent_iff he).mp hcurrent).2.1
    rw [heq] at hle
    exact absurd hle (Nat.not_succ_le_self n)
  have hadd := agree_add (d := d + 1) (f := f) (Φ := fun ς' ↦ known → ς' = ς.founding source)
    (Ψ := fun ς' ↦ known → ς' = (ς.founding source).stating m) h (spec uri l) n fun w' hgiven hk ↦ ?_
  · refine agree_bind hadd (fun r w₃ hw₃ ↦ ?_) w₂ ⟨⟨hw₂.holds.1, hw₂.holds.2, rfl⟩, hw₂.depth_eq, hw₂.flushing_eq⟩
    obtain ⟨rfl, hw₃⟩ := hw₃
    refine agree_get (fun w₄ hw₄ ↦ ?_) w₃ hw₃
    have hstating (hk : known) : ((ς.founding source).stating m).source = some source ∧
        ((ς.founding source).stating m).stated m.entity = some m ∧
        ∀ m' ∈ ((ς.founding source).stating m).marks, m'.entity ≠ m.entity :=
      ⟨rfl, Function.update_self .., hfresh hk⟩
    refine agree_bind ((agree_link (d := d + 1) (f := f) h hstating).pre fun w' hw' ↦ ?_) fun _ ↦ agree_pure fun w' hw' ↦ ?_
    · subst hw'
      exact ⟨⟨hw₄.holds, rfl⟩, hw₄.depth_eq, hw₄.flushing_eq⟩
    · exact ⟨⟨_, rfl⟩, hw'.toHeld.mono fun w hw ↦ hw.mono fun ς' hς' hk ↦
        ⟨source, m, hς, rfl, rfl, hς' hk⟩⟩
  · have hcoming := hgiven.scened.indexed.ground
    obtain ⟨hmark, hpath⟩ := mark_given hgiven
    rw [(arrived_enlist hcoming).scene_breakpoint hcoming.1 (OnGround.enlist hcoming).1 rfl
      hcoming.2.kind_eq hpath, hmark, hgiven.scened.known hk]
    rfl

end Adding

end LiveGraph.Breakpoint

/-!
## What a toggle makes of a path

A toggle that is accepted takes the breakpoint that its location means off the path, or adds one at the
location if there is none. As long as the breakpoint it found is still the one that the location means, it
always comes to one of these.
-/

namespace LiveGraph.Breakpoint

namespace Scene

variable {ς : Scene} {l : Location}

/-- The breakpoint that a location means is on its line. -/
theorem mem_of_find {e : EntityRef} (h : ς.find l = some e) : ∃ m ∈ ς.onLine l.line, m.entity = e := by
  have hchosen : choose (l.column.map Int64.ofNat) ((ς.onLine l.line).map fun m ↦ (m.entity, m.column)) = some e := h
  obtain ⟨column, hmem⟩ := mem_of_choose hchosen
  obtain ⟨m, hm, heq⟩ := List.mem_map.mp hmem
  exact ⟨m, hm, congrArg Prod.fst heq⟩

/-- A path before and after a toggle that was accepted. -/
inductive Toggles (ς : Scene) (l : Location) : Scene → Prop
  | remove (m : Mark) : m ∈ ς.onLine l.line → ς.find l = some m.entity → Toggles ς l (ς.without m)
  | add (ς' : Scene) : ς.find l = none → ς.Gains l ς' → Toggles ς l ς'

end Scene

open Act

variable {own : String → Prop} {δ : Definitions} {β : Background} {path : String} {D : Dispatch}
variable {d : Nat} {f : Bool} {ς : Scene} {known : Prop}

/-- A toggle that is carried out on a path where its location means the same still. It is done, and
neither refused nor broken off. -/
theorem agree_carryOut (h : ∀ Φ, Filing (Scened own δ β path Φ) D D)
    (hindexed : Filing (Indexed own δ β) D D) (hown : own sourceIndex)
    (hδ : δ sourceIndex = some (sourceKind, sourceExtractor)) {id : StateId}
    (hid : (β.states id).store = 0) {l : Location} (hl : l.path = path) :
    Agree (Held (fun w ↦ Scened own δ β path (· = ς) (.whole ∅) w ∧ w.effects = [] ∧
        (known → Tagged w)) d f)
      (@carryOut D id l (ς.find l)) (@carryOut D id l (ς.find l))
      (fun r w ↦ (∃ t, r = .ok t ∧ t ≠ .rejected) ∧
        At (Scened own δ β path (fun ς' ↦ known → ς.Toggles l ς') (.whole ∅)) d f w) fun _ ↦ False := by
  refine agree_get fun w hw ↦ ?_
  have hscened := hw.holds.1
  have hground : Ground (fun _ ↦ False) w := hscened.indexed.ground
  have hstore : (w.state id).store = 0 := by
    rw [← hid, ← hscened.indexed.behind.background_eq]
    rfl
  cases hfound : ς.find l with
  | none =>
    refine agree_bind ((agree_insert h hindexed hown hδ hid hl).pre fun w' (hw' : w' = w) ↦ hw' ▸ hw)
      fun r w₁ hw₁ ↦ ?_
    obtain ⟨⟨e, rfl⟩, hw₁⟩ := hw₁
    refine agree_get (fun w₂ hw₂ ↦ agree_pure fun w' hw' ↦ ?_) w₁ hw₁
    subst hw'
    exact ⟨⟨_, rfl, Toggled.noConfusion⟩, hw₂.mono fun w hw ↦ hw.mono fun ς' hς' hk ↦
      .add ς' hfound (hς' hk)⟩
  | some e =>
    obtain ⟨m, hm, rfl⟩ := Scene.mem_of_find hfound
    have hmarks : m ∈ (scene w path).marks := by
      rw [hscened.known]
      exact List.mem_of_mem_filter hm
    obtain ⟨he, hcurrent, hkind, hmark⟩ := marks_current hground hmarks
    have hlive : (w.entity m.entity).live = true := ((hground.isCurrent_iff he).mp hcurrent).2.2.2
    have hfilter : (some m.entity).filter (fun e ↦ (w.entity e).live) = some m.entity :=
      Option.filter_some_pos hlive
    rw [hfilter, hstore]
    have hremove := agree_remove (d := d) (f := f) (ς := ς) (m := m) h (w.uriOf m.entity)
    refine agree_bind (hremove.pre fun w' hw' ↦ ?_) fun _ ↦ agree_pure fun w' hw' ↦ ?_
    · subst hw'
      exact ⟨⟨hscened, find?_of_isCurrent he hcurrent, hkind, hmark⟩, hw.depth_eq, hw.flushing_eq⟩
    · refine ⟨⟨_, rfl, Toggled.noConfusion⟩, hw'.mono fun w hw ↦ hw.mono fun ς' hς' hk ↦ ?_⟩
      exact hς' ▸ .remove m hm hfound

end LiveGraph.Breakpoint
