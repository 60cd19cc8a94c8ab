import LiveGraph.Proofs.Breakpoint.Secluded
import Mathlib.Data.List.Perm.Subperm

/-!
# The service by itself

On a debug state that nobody else has to do with, what the service for breakpoints does comes to an end, and does to
the roster what it is to do.
-/

namespace LiveGraph.Breakpoint

open Act World

section Seats

theorem sourceUri_inj {path : String} {m n : Nat} (h : sourceUri path m = sourceUri path n) : m = n := by
  have hne : ∀ k, sourceUri path 0 ≠ sourceUri path (k + 1) := fun k heq ↦ by
    have hlength := congrArg String.length heq
    simp only [sourceUri, String.length_append] at hlength
    have hhash : "#".length = 1 := rfl
    omega
  cases m with
  | zero => cases n with
    | zero => rfl
    | succ n => exact absurd h (hne n)
  | succ m => cases n with
    | zero => exact absurd h.symm (hne m)
    | succ n =>
      have hrepr : (m + 1).repr = (n + 1).repr := (String.append_right_inj _).mp h
      have hdigits := congrArg (fun s : String ↦ Nat.ofDigitChars 10 s.toList 0) hrepr
      simpa only [Nat.toList_repr, Nat.ofDigitChars_ten_toDigits] using hdigits

variable {R : Roster} {path : String}

theorem Roster.mem_of_seatFrom_eq_none {tries n : Nat} (h : R.seatFrom path tries n = none) :
    ∀ m, n ≤ m → m < n + tries → sourceUri path m ∈ R.uris := by
  induction tries generalizing n with
  | zero => exact fun m hle hlt ↦ absurd hlt (Nat.not_lt.mpr hle)
  | succ tries ih =>
    rw [Roster.seatFrom] at h
    split at h
    · exact absurd h (Option.some_ne_none _)
    · rename_i htaken
      intro m hle hlt
      rcases Nat.eq_or_lt_of_le hle with rfl | hlt'
      · refine Roster.isSome_item?.mp ?_
        cases hitem : R.item? (sourceUri path n) with
        | none => exact absurd (by rw [hitem]; rfl) htaken
        | some x => rfl
      · exact ih h m hlt' (by omega)

/-- One more try than there are items finds a place for a source. -/
theorem Roster.isSome_seat (R : Roster) (path : String) : (R.seat path).isSome := by
  by_contra hnone
  have htaken := R.mem_of_seatFrom_eq_none (Option.not_isSome_iff_eq_none.mp hnone)
  let uris := (List.range (R.items.length + 1)).map (sourceUri path)
  have hnodup : uris.Nodup := List.nodup_range.map fun _ _ ↦ sourceUri_inj
  have hsubset : uris ⊆ R.uris := fun uri hmem ↦ by
    obtain ⟨m, hm, rfl⟩ := List.mem_map.mp hmem
    exact htaken m (Nat.zero_le m) (by rw [Nat.zero_add]; exact List.mem_range.mp hm)
  have hlength := (hnodup.subperm hsubset).length_le
  rw [List.length_map, List.length_range, Roster.uris, List.length_map] at hlength
  omega

/-- The roster has as many items as the store has entities. -/
theorem length_roster {w : World} (h : (w.store 0).Coherent) : (roster w).items.length = (w.store 0).live.size := by
  have hkeys : (w.store 0).live.keys.Nodup := (w.store 0).live.distinct_keys.imp fun hne heq ↦
    hne (Std.LawfulEqOrd.compare_eq_iff_eq.mpr heq)
  have hmem : ∀ uri, uri ∈ (w.byAge 0).map w.uriOf ↔ uri ∈ (w.store 0).live.keys := fun uri ↦ by
    have huris : (roster w).uris = (w.byAge 0).map w.uriOf := by
      rw [Roster.uris, roster, List.map_map]
      rfl
    rw [← huris, mem_uris_roster h, Std.TreeMap.mem_keys, ← Std.TreeMap.contains_iff_mem]
    rfl
  have hperm := (List.perm_ext_iff_of_nodup (nodup_uris h) hkeys).mpr hmem
  rw [← Std.TreeMap.length_keys, ← hperm.length_eq, List.length_map, roster, List.length_map]

end Seats

theorem Item.ofSpec_spec (uri : Uri) (l : Location) : Item.ofSpec (spec uri l) = Item.ofLocation uri l := by
  have hcolumn : (spec uri l).value "column" = l.column.elim .nil fun column ↦ .int (Int64.ofNat column) := by
    rw [EntitySpec.value, spec]
    cases l.column <;> rfl
  rw [Item.ofSpec, hcolumn]
  rfl

section Within

variable [D : Dispatch] {w : World} {path : String} (hrounds : 0 < Dispatch.rounds) (h : Secluded w)
  (hdepth : 0 < w.depth)
include hrounds h hdepth

/-- An entity is added at a URI that nobody has. -/
theorem Secluded.ends_add (howing : Owing w) {spec : EntitySpec} (hfree : w.contains 0 spec.uri = false) :
    (Store.add 0 spec).Ends w fun r w' ↦ r = .ok (w.newcomer 0) ∧ Worked w w' ∧
      roster w' = (roster w).withItem (.ofSpec spec) ∧ w'.isCurrent (w.newcomer 0) ∧
      w'.uriOf (w.newcomer 0) = spec.uri ∧
      ∀ e : EntityRef, e.store = 0 → w.isCurrent e → w'.isCurrent e ∧ w'.uriOf e = w.uriOf e := by
  refine (h.stocked.ends_add hdepth hrounds spec).mono fun r w' hadded ↦ ?_
  obtain ⟨hr, hcurrent, hspec, hcontents⟩ := hadded.taken hfree
  have hroster : roster w' = (roster w).withItem (.ofSpec spec) := by
    rw [← rosterOf_contents, hcontents, rosterOf_withEntity, rosterOf_contents]
  refine ⟨hr, h.grown hadded.grown howing, hroster, hcurrent, congrArg EntitySpec.uri hspec, fun e he hcurrent' ↦ ?_⟩
  obtain ⟨hkept, hsame⟩ := hadded.grown.kept e he hcurrent'
  exact ⟨hkept, congrArg EntitySpec.uri hsame⟩

/-- The source of a path is found, or put at the first place for it. -/
theorem Secluded.ends_ensureSource (heffects : w.effects = []) (path : String) :
    (ensureSource 0 path).Ends w fun r w' ↦ ∃ source : EntityRef, r = .ok source ∧ Worked w w' ∧
      roster w' = ((roster w).ensured path).2 ∧ source.store = 0 ∧ w'.isCurrent source ∧
      w'.uriOf source = ((roster w).ensured path).1 := by
  have hground := h.ground
  have hcoherent := hground.coherent
  have hsource := source?_roster hground hcoherent path
  refine ends_get ?_
  rw [source_value h.editable.indexed heffects rfl rfl]
  cases hfound : sourceOn w path with
  | some e =>
    obtain ⟨he, hcurrent, -⟩ := sourceOn_current hground hfound
    rw [hfound, Option.map_some] at hsource
    rw [Roster.ensured, hsource]
    exact ends_pure ⟨e, rfl, ⟨h, .inl heffects, rfl, rfl, rfl⟩, rfl, he, hcurrent, rfl⟩
  | none =>
    rw [hfound, Option.map_none] at hsource
    obtain ⟨hvacant, huntagged, hnone⟩ := placeFrom_roster hground hcoherent path ((w.store 0).live.size + 1) 0
    rw [← length_roster hcoherent] at hvacant huntagged hnone
    rw [Roster.ensured, hsource, Option.elim_none]
    dsimp only
    rw [place, ← length_roster hcoherent]
    cases hplace : placeFrom w 0 path ((roster w).items.length + 1) 0 with
    | none =>
      have hseat := (roster w).isSome_seat path
      rw [Roster.seat, hnone hplace] at hseat
      exact Bool.noConfusion hseat
    | some found =>
      cases found with
      | vacant uri =>
        obtain ⟨hseat, hitem⟩ := hvacant uri hplace
        have hseated : (roster w).seated uri path = (roster w).withItem (.ofPath uri path) := by
          rw [Roster.seated, hitem]
          rfl
        have hadd : (Store.add 0 ⟨uri, sourceKind, [("path", .str path)]⟩).Ends w _ :=
          h.ends_add hrounds hdepth (.inl heffects) (placeFrom_vacant hplace)
        rw [Roster.seat, hseat, Option.elim_some, hseated]
        refine hadd.mono fun r w' hw' ↦ ?_
        obtain ⟨rfl, hworked, hroster, hcurrent, huri, -⟩ := hw'
        exact ⟨_, rfl, hworked, hroster, rfl, hcurrent, huri⟩
      | untagged e =>
        obtain ⟨hseat, hitem⟩ := huntagged e hplace
        obtain ⟨⟨uri, hfind⟩, -, -⟩ := placeFrom_untagged hplace
        obtain ⟨he, hcurrent, -⟩ := isCurrent_of_find? hground hfind
        have hseated : (roster w).seated (w.uriOf e) path = (roster w).tagged (w.uriOf e) path := by
          rw [Roster.seated, hitem]
          rfl
        rw [Roster.seat, hseat, Option.elim_some, hseated]
        refine (h.ends_set heffects hdepth he hcurrent "path" (.str path)).bind fun r w' hw' ↦ ?_
        obtain ⟨rfl, hworked, hretold⟩ := hw'
        refine ends_pure ⟨e, rfl, hworked, ?_, he, ?_, hretold.uri_eq e he hcurrent⟩
        · exact roster_retold hretold hcoherent hworked.secluded.ground.coherent he hcurrent
        · rw [hretold.isCurrent_eq e he]
          exact hcurrent

omit D hrounds hdepth in
/-- The next number is issued, and nothing else is changed. -/
theorem Secluded.ends_issue (howing : Owing w) : (issue 0).Ends w fun uri w' ↦ Worked w w' ∧ IsNumbered uri ∧
    w.contains 0 uri = false ∧ ∃ F, w' = w.modifyState 0 F := by
  obtain ⟨n, hissue, hfree, hindexed⟩ := issue_run h.editable.indexed
    (show (w.background.states 0).store = 0 from h.store_eq)
  let F : State → State := fun s ↦ { s with issued := n }
  have hsecluded : Secluded (w.modifyState 0 F) := h.restated (fun _ ↦ rfl) (fun _ ↦ rfl) fun _ ↦
    funext fun slot ↦ by cases slot <;> rfl
  exact ⟨_, w.modifyState 0 F, hissue, ⟨hsecluded, howing, hindexed.behind.background_eq, rfl, rfl⟩, ⟨n, rfl⟩, hfree, F,
    rfl⟩

/-- A breakpoint is linked to its source. -/
theorem Secluded.ends_link (howing : Owing w) {uri target : Uri} (huri : w.contains 0 uri = true)
    (htarget : w.contains 0 target = true) (hnew : uri ∉ (roster w).linked target) :
    (Store.link 0 ⟨Schema.sourceKind, uri, target⟩ false).Ends w fun _ w' ↦
      Worked w w' ∧ roster w' = (roster w).link uri target ∧
      ∀ e : EntityRef, e.store = 0 → w.isCurrent e → w'.isCurrent e ∧ w'.uriOf e = w.uriOf e := by
  have hjoins : (w.contents 0).joins ⟨Schema.sourceKind, uri, target⟩ = true := by
    rw [World.joins_contents h.ground.coherent, huri, htarget]
    rfl
  have hnone : ⟨Schema.sourceKind, uri, target⟩ ∉ (w.contents 0).edges := fun hmem ↦
    hnew (((w.store 0).edges.mem_edges ⟨Schema.sourceKind, uri, target⟩).mp hmem)
  refine (h.stocked.ends_link hdepth hrounds _).mono fun _ w' hlinked ↦ ?_
  obtain ⟨hgrown, -, hcontents⟩ := hlinked
  refine ⟨h.grown hgrown howing, ?_, fun e he hcurrent ↦
    (hgrown.kept e he hcurrent).imp_right (congrArg EntitySpec.uri)⟩
  rw [← rosterOf_contents, hcontents, rosterOf_withEdge hjoins hnone, rosterOf_contents]

end Within

/-- What inserting a breakpoint under a new URI comes to. -/
structure Inserted (R : Roster) (l : Location) (fresh : Uri) (R' : Roster) : Prop where
  isNumbered : IsNumbered fresh
  not_mem : fresh ∉ (R.ensured l.path).2.uris
  roster_eq : R' = R.inserted fresh l

/-- A breakpoint is added under a new URI and linked to its source. -/
theorem Secluded.ends_insert [D : Dispatch] (hD : Deep D) {w : World} (h : Secluded w) (hdepth : w.depth = 0)
    (hflushing : w.flushing = false) (heffects : w.effects = []) (l : Location) :
    (insert 0 l).Ends w fun r w' ↦ Worked w w' ∧ w'.effects = [] ∧
      ∃ e fresh, r = .ok e ∧ w'.find? 0 fresh = some e ∧ Inserted (roster w) l fresh (roster w') := by
  have hrounds : 0 < D.rounds := Nat.zero_lt_of_lt hD.rounds_pos
  let w₀ := w.setDepth (w.depth + 1)
  have h₀ : Secluded w₀ := h.setDepth _
  refine Secluded.ends_batch hD hdepth hflushing
    (Q := fun (r : Except Fault EntityRef) R' found ↦
      ∃ e fresh, r = .ok e ∧ found fresh = some e ∧ Inserted (roster w) l fresh R') (ends_get ?_)
  have hstore : ((w.setDepth (w.depth + 1)).state 0).store = 0 := h₀.store_eq
  simp only [hstore]
  refine (h₀.ends_ensureSource hrounds (Nat.succ_pos _) heffects l.path).bind fun r w₁ hw₁ ↦ ?_
  obtain ⟨source, rfl, hworked₁, hroster₁, hsource, hcurrent₁, huri₁⟩ := hw₁
  refine (hworked₁.secluded.ends_issue hworked₁.owing).bind fun fresh w₂ hw₂ ↦ ?_
  obtain ⟨hworked₂, hnumbered, hfree, F, rfl⟩ := hw₂
  have hdepth₂ : 0 < (w₁.modifyState 0 F).depth := hworked₁.depth_eq.symm ▸ Nat.succ_pos _
  have hadd : (Store.add 0 (spec fresh l)).Ends (w₁.modifyState 0 F) _ :=
    hworked₂.secluded.ends_add hrounds hdepth₂ hworked₂.owing hfree
  refine hadd.bind fun r w₃ hw₃ ↦ ?_
  obtain ⟨rfl, hworked₃, hroster₃, hcurrent₃, huri₃, hkept⟩ := hw₃
  obtain ⟨hkept₃, hsame₃⟩ := hkept source hsource hcurrent₁
  have hnew : fresh ∉ (roster w₁).uris := fun hmem ↦ by
    rw [mem_uris_roster hworked₁.secluded.ground.coherent, hfree] at hmem
    exact Bool.noConfusion hmem
  have hunlinked : fresh ∉ (roster w₃).linked (w₃.uriOf source) := fun hmem ↦ by
    rw [hroster₃] at hmem
    exact hnew ((closed_roster hworked₁.secluded.ground.coherent).linked_mem _ fresh hmem)
  have hdepth₃ : 0 < w₃.depth := hworked₃.depth_eq.symm ▸ hdepth₂
  have hcontains : w₃.contains 0 fresh = true := by
    have hcontains := contains_of_isCurrent rfl hcurrent₃
    rwa [huri₃] at hcontains
  refine ends_get ((hworked₃.secluded.ends_link hrounds hdepth₃ hworked₃.owing hcontains
    (contains_of_isCurrent hsource hkept₃) hunlinked).bind fun _ w₄ hw₄ ↦ ends_pure ?_)
  obtain ⟨hworked₄, hroster₄, hkept₄⟩ := hw₄
  obtain ⟨hcurrent₄, huri₄⟩ := hkept₄ _ rfl hcurrent₃
  refine ⟨((hworked₁.trans hworked₂).trans hworked₃).trans hworked₄, _, fresh, rfl, ?_, hnumbered, ?_, ?_⟩
  · have hfind := find?_of_isCurrent rfl hcurrent₄
    rwa [huri₄, huri₃] at hfind
  · rw [← show roster w₁ = ((roster w).ensured l.path).2 from hroster₁]
    exact hnew
  · rw [hroster₄, hroster₃, Item.ofSpec_spec, hsame₃]
    have hsame : (w₁.modifyState 0 F).uriOf source = ((roster w).ensured l.path).1 := huri₁
    have hroster : roster (w₁.modifyState 0 F) = ((roster w).ensured l.path).2 := hroster₁
    rw [hsame, hroster, Roster.inserted]

end LiveGraph.Breakpoint
