import LiveGraph.Proofs.Breakpoint.Toggling

/-!
# The breakpoints that are listed on a line

A breakpoint that is removed leaves its line, and one that is added comes after those that are linked to its source
already. If that source was listed for the path before, there are none of these on the line. If it was one without a
path, there may be some, which are listed from then on, and the new breakpoint is not the only one on its line.
-/

namespace LiveGraph.Breakpoint

namespace Roster

variable {R R' : Roster} {path : String} {l : Location} {uri fresh : Uri} {x y : Item}

/-- The breakpoints that are linked to an entity. -/
def under (R : Roster) (target : Uri) : List Item :=
  ((R.linked target).filterMap R.item?).filter (·.kind = Breakpoint.kind)

def isOnLine (l : Location) (x : Item) : Bool :=
  x.line.asInt? = some (Int64.ofNat l.line)

/-- The breakpoints on the line of a location. -/
def onLine (R : Roster) (l : Location) : List Item :=
  (R.onPath l.path).filter (isOnLine l)

/-- The breakpoints on the line of a location that are linked to the entity that is its source, or that becomes its
source with the next breakpoint on the path. -/
def awaiting (R : Roster) (l : Location) : List Item :=
  (R.under (R.ensured l.path).1).filter (isOnLine l)

/-- A location means a breakpoint exactly if there is one on its line. -/
theorem meant_eq_none_iff : R.meant l = none ↔ R.onLine l = [] :=
  choose_eq_none_iff.trans List.map_eq_nil_iff

theorem meant_of_singleton (h : R.onLine l = [x]) : R.meant l = some x := by
  have hline : (R.onPath l.path).filter (fun x ↦ x.line.asInt? = some (Int64.ofNat l.line)) = [x] := h
  rw [meant, hline]
  exact choose_singleton _ _ _

/-! ## The source of a path -/

theorem source?_withItem (h : R.source? path = some x) (y : Item) : (R.withItem y).source? path = some x := by
  rw [source?, withItem, List.find?_append]
  exact congrArg (Option.or · _) h

/-- A new source has its path. -/
theorem source?_ofPath (h : R.source? path = none) (uri : Uri) :
    (R.withItem (.ofPath uri path)).source? path = some (.ofPath uri path) := by
  have hnew : [Item.ofPath uri path].find? (fun x ↦ x.kind = sourceKind ∧ x.path = .str path) =
      some (.ofPath uri path) := List.find?_cons_of_pos (by simp [Item.ofPath])
  rw [source?, withItem, List.find?_append, hnew]
  exact congrArg (Option.or · _) h

/-- A source without a path has the path that it is given. -/
theorem source?_tagged (hR : R.Closed) (h : R.source? path = none) (hitem : R.item? uri = some x)
    (hkind : x.kind = sourceKind) : (R.tagged uri path).source? path = some (x.withPath path) := by
  obtain ⟨hmem, rfl⟩ := item?_eq_some hitem
  have hnone : ∀ y ∈ R.items, ¬(y.kind = sourceKind ∧ y.path = .str path) := fun y hy hand ↦
    List.find?_eq_none.mp h y hy (decide_eq_true hand)
  have honly : ∀ y ∈ R.items, y.uri = x.uri → y = x := fun y hy heq ↦ List.inj_on_of_nodup_map hR.nodup hy hmem heq
  have hcond : ∀ y ∈ R.items, ((fun y : Item ↦ decide (y.kind = sourceKind ∧ y.path = .str path)) ∘
      fun y ↦ if y.uri = x.uri then y.withPath path else y) y = decide (y.uri = x.uri) := fun y hy ↦ by
    rw [Function.comp_apply]
    by_cases heq : y.uri = x.uri
    · rw [if_pos heq, decide_eq_decide, honly y hy heq]
      exact iff_of_true ⟨hkind, rfl⟩ rfl
    · rw [if_neg heq, decide_eq_decide]
      exact iff_of_false (hnone y hy) heq
  rw [item?] at hitem
  rw [source?, tagged, List.find?_map, ← List.head?_filter, List.filter_congr hcond, List.head?_filter, hitem,
    Option.map_some, if_pos rfl]

/-- The source of a path is found where it was made. -/
theorem source?_ensured (hR : R.Closed) (path : String) :
    ∃ s, (R.ensured path).2.source? path = some s ∧ s.uri = (R.ensured path).1 := by
  rw [ensured]
  cases hsource : R.source? path with
  | some s => exact ⟨s, hsource, rfl⟩
  | none =>
    obtain ⟨uri, hseat⟩ := Option.isSome_iff_exists.mp (R.isSome_seat path)
    rw [hseat, Option.elim_none, Option.elim_some, seated]
    obtain ⟨-, huntagged⟩ := seatFrom_eq_some hseat
    cases hitem : R.item? uri with
    | none => exact ⟨_, source?_ofPath hsource uri, rfl⟩
    | some x =>
      rw [hitem, Option.all_some, Item.isUntagged, Bool.and_eq_true, decide_eq_true_eq] at huntagged
      exact ⟨_, source?_tagged hR hsource hitem huntagged.1, (item?_eq_some hitem).2⟩

/-! ## What is linked to it -/

theorem onPath_of_source (h : R.source? path = some x) : R.onPath path = R.under x.uri := by
  rw [onPath, h]
  rfl

theorem under_withItem (hR : R.Closed) (x : Item) (target : Uri) :
    (R.withItem x).under target = R.under target := by
  have hitem : ∀ uri ∈ R.linked target, (R.withItem x).item? uri = R.item? uri := fun uri huri ↦ by
    obtain ⟨y, hy⟩ := Option.isSome_iff_exists.mp (isSome_item?.mpr (hR.linked_mem target uri huri))
    have hfound : (R.items ++ [x]).find? (·.uri = uri) = (R.item? uri).or _ := List.find?_append
    rw [item?, withItem, hfound, hy, Option.some_or]
  rw [under, under, ← List.filterMap_congr hitem]
  rfl

/-- A source that is given a path is no breakpoint, and has the same linked to it as before. -/
theorem under_tagged (hitem : R.item? uri = some x) (hkind : x.kind = sourceKind) (path : String) (target : Uri) :
    (R.tagged uri path).under target = R.under target := by
  let tag : Item → Item := fun y ↦ if y.uri = uri then y.withPath path else y
  have hfound : ∀ u, (R.tagged uri path).item? u = (R.item? u).map tag := fun u ↦ by
    have huri : ((fun y : Item ↦ decide (y.uri = u)) ∘ tag) = fun y ↦ decide (y.uri = u) := funext fun y ↦ by
      simp only [Function.comp_apply, tag]
      split <;> rfl
    rw [item?, tagged, List.find?_map, huri]
    rfl
  have hsame : ∀ y ∈ (R.linked target).filterMap R.item?, y.kind = Breakpoint.kind → tag y = y := fun y hy hbreak ↦ by
    obtain ⟨u, -, hu⟩ := List.mem_filterMap.mp hy
    refine if_neg fun heq ↦ ?_
    rw [(item?_eq_some hu).2] at heq
    rw [heq, hitem] at hu
    rw [← Option.some.inj hu, hkind] at hbreak
    exact absurd hbreak (by decide)
  have hkinds : ((fun y : Item ↦ decide (y.kind = Breakpoint.kind)) ∘ tag) =
      fun y ↦ decide (y.kind = Breakpoint.kind) :=
    funext fun y ↦ by
      simp only [Function.comp_apply, tag]
      split <;> rfl
  calc
    (R.tagged uri path).under target
      = (((R.linked target).filterMap R.item?).map tag).filter (·.kind = Breakpoint.kind) := by
        rw [under, List.map_filterMap]
        exact congrArg _ (List.filterMap_congr fun u _ ↦ hfound u)
    _ = (R.under target).map tag := by rw [List.filter_map, hkinds, under]
    _ = R.under target := (List.map_congr_left fun y hy ↦ hsame y (List.mem_filter.mp hy).1
        (of_decide_eq_true (List.mem_filter.mp hy).2)).trans (List.map_id _)

/-- To make a source for a path does not change what is linked to it. -/
theorem under_ensured (hR : R.Closed) (path : String) (target : Uri) :
    (R.ensured path).2.under target = R.under target := by
  rw [ensured]
  cases R.source? path with
  | some s => rfl
  | none =>
    cases hseat : R.seat path with
    | none => rfl
    | some uri =>
      rw [Option.elim_none, Option.elim_some, seated]
      obtain ⟨-, huntagged⟩ := seatFrom_eq_some hseat
      cases hitem : R.item? uri with
      | none => exact under_withItem hR (.ofPath uri path) target
      | some x =>
        rw [hitem, Option.all_some, Item.isUntagged, Bool.and_eq_true, decide_eq_true_eq] at huntagged
        exact under_tagged hitem huntagged.1 path target

/-! ## What is changed -/

/-- The new breakpoint comes last. -/
theorem under_link (hR : R.Closed) (hnew : x.uri ∉ R.uris) (hkind : x.kind = Breakpoint.kind) (target : Uri) :
    ((R.withItem x).link x.uri target).under target = R.under target ++ [x] := by
  have hitem : (R.withItem x).item? x.uri = some x := by
    have hfound : (R.items ++ [x]).find? (·.uri = x.uri) = (R.item? x.uri).or _ := List.find?_append
    have hnone : R.item? x.uri = none := Option.not_isSome_iff_eq_none.mp fun hsome ↦ hnew (isSome_item?.mp hsome)
    rw [item?, withItem, hfound, hnone]
    simp
  have hlinked : ((R.withItem x).link x.uri target).linked target = R.linked target ++ [x.uri] :=
    Function.update_self ..
  have hold : ((R.linked target).filterMap (R.withItem x).item?).filter (·.kind = Breakpoint.kind) = R.under target :=
    under_withItem hR x target
  calc
    ((R.withItem x).link x.uri target).under target
      = ((R.linked target ++ [x.uri]).filterMap (R.withItem x).item?).filter (·.kind = Breakpoint.kind) :=
        congrArg (fun uris ↦ (uris.filterMap (R.withItem x).item?).filter (·.kind = Breakpoint.kind)) hlinked
    _ = R.under target ++ [x] := by
        rw [List.filterMap_append, List.filter_append, hold]
        simp [hitem, hkind]

end Roster

open Roster

variable {R R' : Roster} {l : Location} {fresh : Uri} {x : Item}

/-- On its line the new breakpoint comes after those that are linked to its source already. -/
theorem Inserted.onLine_eq (hR : R.Closed) (h : Inserted R l fresh R') :
    R'.onLine l = R.awaiting l ++ [.ofLocation fresh l] := by
  obtain ⟨s, hsource, huri⟩ := source?_ensured hR l.path
  have hfound : (R.inserted fresh l).source? l.path = some s := source?_withItem hsource (.ofLocation fresh l)
  have hunder : (R.inserted fresh l).under (R.ensured l.path).1 =
      (R.ensured l.path).2.under (R.ensured l.path).1 ++ [.ofLocation fresh l] :=
    under_link (hR.ensured l.path) h.not_mem rfl _
  have hline : isOnLine l (.ofLocation fresh l) = true := decide_eq_true rfl
  rw [h.roster_eq, onLine, onPath_of_source hfound, huri, hunder, under_ensured hR, List.filter_append, awaiting,
    List.filter_cons_of_pos hline, List.filter_nil]

theorem Roster.item?_without {u uri : Uri} (hne : u ≠ uri) : (R.without uri).item? u = R.item? u := by
  rw [item?, without, List.find?_filter, item?]
  congr 1
  funext y
  rw [decide_eq_decide, decide_eq_true_eq, decide_eq_true_eq]
  exact and_iff_right_of_imp fun heq hgone ↦ hne (heq.symm.trans hgone)

/-- A breakpoint that is removed leaves its line. -/
theorem Roster.onLine_without (hR : R.Closed) (hmem : x ∈ R.items) (hkind : x.kind = Breakpoint.kind) (l : Location) :
    (R.without x.uri).onLine l = (R.onLine l).filter (·.uri ≠ x.uri) := by
  have hsource : (R.without x.uri).source? l.path = R.source? l.path := by
    rw [source?, without, List.find?_filter, source?, ← List.head?_filter, ← List.head?_filter]
    congr 1
    refine List.filter_congr fun y hy ↦ ?_
    rw [decide_eq_decide, decide_eq_true_eq, decide_eq_true_eq]
    refine and_iff_right_of_imp fun hand heq ↦ ?_
    rw [List.inj_on_of_nodup_map hR.nodup hy hmem heq, hkind] at hand
    exact absurd hand.1 (by decide)
  rw [onLine, onLine, List.filter_comm]
  congr 1
  cases hfound : R.source? l.path with
  | none => rw [onPath, hsource, hfound, onPath, hfound]; rfl
  | some s =>
    have hne : s.uri ≠ x.uri := fun heq ↦ by
      have hs := List.find?_some hfound
      rw [List.inj_on_of_nodup_map hR.nodup (source?_mem hfound) hmem heq, decide_eq_true_eq, hkind] at hs
      exact absurd hs.1 (by decide)
    rw [onPath_of_source (hsource.trans hfound), onPath_of_source hfound, under, under, List.filter_comm]
    congr 1
    have hlinked : (R.without x.uri).linked s.uri = (R.linked s.uri).filter (· ≠ x.uri) := if_neg hne
    rw [hlinked, List.filter_filterMap, List.filterMap_filter]
    refine List.filterMap_congr fun u _ ↦ ?_
    by_cases hu : u = x.uri
    · rw [if_neg (by simpa using hu), Option.filter_eq_none_iff.mpr]
      exact fun y hy hkept ↦ of_decide_eq_true hkept ((item?_eq_some hy).2.trans hu)
    · rw [if_pos (by simpa using hu), item?_without hu]
      cases hitem : R.item? u with
      | none => rfl
      | some y =>
        have hne : y.uri ≠ x.uri := (item?_eq_some hitem).2.symm ▸ hu
        exact (Option.filter_some_pos (by simpa using hne)).symm

/-! ## What a toggle does to its line -/

namespace Roster

theorem subset_uris_ensured (R : Roster) (path : String) : R.uris ⊆ (R.ensured path).2.uris := by
  rw [ensured]
  cases R.source? path with
  | some s => exact List.Subset.refl _
  | none =>
    cases R.seat path with
    | none => exact List.Subset.refl _
    | some uri =>
      rw [Option.elim_none, Option.elim_some, seated]
      split
      · rw [uris_tagged]
        exact List.Subset.refl _
      · rw [uris_withItem]
        exact List.subset_append_left _ _

/-- Where the path has a source, none but those on the line are linked to it. -/
theorem awaiting_of_source {s : Item} (h : R.source? l.path = some s) : R.awaiting l = R.onLine l := by
  have hensured : (R.ensured l.path).1 = s.uri := by
    rw [ensured, h]
    rfl
  rw [awaiting, hensured, onLine, onPath_of_source h]

/-- Where there are some on the line, the path has a source. -/
theorem awaiting_eq_onLine (h : R.onLine l ≠ []) : R.awaiting l = R.onLine l := by
  cases hsource : R.source? l.path with
  | some s => exact awaiting_of_source hsource
  | none =>
    refine absurd ?_ h
    rw [onLine, onPath, hsource]
    rfl

/-- Where no breakpoint is on a line and yet some wait for its source, that is a source without a path. -/
theorem exists_untagged (hR : R.Closed) (hnone : R.onLine l = []) (hawaiting : R.awaiting l ≠ []) :
    ∃ x ∈ R.items, x.isUntagged = true ∧ x.uri = (R.ensured l.path).1 := by
  cases hsource : R.source? l.path with
  | some s => exact absurd ((awaiting_of_source hsource).trans hnone) hawaiting
  | none =>
    obtain ⟨uri, hseat⟩ := Option.isSome_iff_exists.mp (R.isSome_seat l.path)
    have hensured : (R.ensured l.path).1 = uri := by
      rw [ensured, hsource, hseat]
      rfl
    obtain ⟨-, huntagged⟩ := seatFrom_eq_some hseat
    cases hitem : R.item? uri with
    | none =>
      refine absurd ?_ hawaiting
      have hnew : uri ∉ R.uris := fun hmem ↦ by
        have hsome := isSome_item?.mpr hmem
        rw [hitem] at hsome
        exact Bool.noConfusion hsome
      rw [awaiting, hensured, under, hR.linked_nil uri hnew]
      rfl
    | some x =>
      rw [hitem, Option.all_some] at huntagged
      obtain ⟨hmem, huri⟩ := item?_eq_some hitem
      exact ⟨x, hmem, huntagged, huri.trans hensured.symm⟩

namespace Toggles

/-- The breakpoint that is removed was on the line, and all others stay there. -/
theorem onLine_of_removed (hR : R.Closed) (h : R.Toggles l (.removed uri) R') :
    uri ∈ (R.onLine l).map (·.uri) ∧ R'.onLine l = (R.onLine l).filter (·.uri ≠ uri) := by
  cases h with
  | remove x hmeant =>
    obtain ⟨column, hmem⟩ := mem_of_choose hmeant
    obtain ⟨y, hy, heq⟩ := List.mem_map.mp hmem
    obtain rfl := (Prod.mk.inj heq).1
    have hpath := (List.mem_filter.mp hy).1
    have hkind : y.kind = Breakpoint.kind := by
      cases hsource : R.source? l.path with
      | none => simp [onPath, hsource] at hpath
      | some s =>
        rw [onPath_of_source hsource] at hpath
        exact of_decide_eq_true (List.mem_filter.mp hpath).2
    exact ⟨List.mem_map_of_mem hy, R.onLine_without hR (onPath_mem hpath) hkind l⟩

/-- A breakpoint is added where none is on the line. -/
theorem onLine_of_added (hR : R.Closed) {p : EntityPicture} (h : R.Toggles l (.added p) R') :
    R.onLine l = [] ∧ p.uri ∉ R.uris ∧ R'.onLine l = R.awaiting l ++ [.ofLocation p.uri l] := by
  cases h with
  | add _ _ hmeant hinserted =>
    exact ⟨meant_eq_none_iff.mp hmeant, fun hmem ↦ hinserted.not_mem (R.subset_uris_ensured l.path hmem),
      hinserted.onLine_eq hR⟩

/-- The next toggle removes the only breakpoint on the line. -/
theorem onLine_of_singleton {t : Toggled} (hR : R.Closed) (hline : R.onLine l = [x]) (h : R.Toggles l t R') :
    t = .removed x.uri ∧ R'.onLine l = [] := by
  have hmeant := meant_of_singleton hline
  cases h with
  | add _ _ hnone _ => exact absurd (hmeant.symm.trans hnone) (Option.some_ne_none x)
  | remove y hy =>
    obtain rfl := Option.some.inj (hmeant.symm.trans hy)
    refine ⟨rfl, ?_⟩
    obtain ⟨-, hline'⟩ := onLine_of_removed hR (.remove x hy)
    rw [hline', hline]
    simp

end Toggles

end Roster

variable {w w' : World}

/-- The breakpoints on the line of a location, in the order in which the service lists them. -/
def listed (w : World) (l : Location) : List Uri :=
  (((onPath (w.state 0).store l.path).value w).filter fun e ↦
    (w.property e "line").asInt? = some (Int64.ofNat l.line)).map w.uriOf

/-- The breakpoints on the line of a location that are not listed before the next one is added on the path. -/
def awaited (w : World) (l : Location) : List Uri :=
  ((roster w).awaiting l).map (·.uri)

/-- They are in the roster. -/
theorem Secluded.listed_eq (h : Secluded w) (heffects : w.effects = []) (l : Location) :
    listed w l = ((roster w).onLine l).map (·.uri) := by
  have hmarks := onPath_value h.editable.indexed heffects rfl rfl l.path
  have hline : (isOnLine l) ∘ item w = fun e ↦ decide ((w.property e "line").asInt? = some (Int64.ofNat l.line)) := rfl
  have hitems : (roster w).onPath l.path = ((onPath 0 l.path).value w).map (item w) := by
    rw [onPath_roster h.ground h.ground.coherent, ← hmarks, List.map_map]
    rfl
  rw [onLine, hitems, List.filter_map, hline, List.map_map, listed, h.store_eq]
  rfl

/-- Where breakpoints on a line are not listed, a source has no path. -/
theorem Settled.exists_untagged (h : Settled w) {l : Location} (hnone : (roster w).onLine l = [])
    (hawaited : awaited w l ≠ []) : ∃ e : EntityRef, e.store = 0 ∧ w.isCurrent e ∧ w.kindOf e = sourceKind ∧
      (w.property e "path").isNil = true := by
  obtain ⟨x, hx, huntagged, -⟩ := Roster.exists_untagged (closed_roster h.ground.coherent) hnone
    fun hnil ↦ hawaited (List.map_eq_nil_iff.mpr hnil)
  obtain ⟨e, he, rfl⟩ := List.mem_map.mp hx
  obtain ⟨hstore, hcurrent⟩ := (World.mem_byAge h.ground.coherent).mp he
  rw [Item.isUntagged, Bool.and_eq_true, decide_eq_true_eq] at huntagged
  exact ⟨e, hstore, hcurrent, huntagged⟩

section Run

variable [D : Dispatch] (hD : Deep D)
include hD

/-- A toggle that removes a breakpoint takes it off its line. One that adds a breakpoint finds none on the line, and
puts a new one after those that were not listed, of which there are some only if a source has no path. If there are
none, the next toggle removes it again, and no breakpoint is on the line then. -/
theorem Settled.ends_toggleNow_listed (h : Settled w) (l : Location) : (Task.toggleNow 0 0 l).Ends w fun r w' ↦
    Settled w' ∧ ((∃ uri ∈ listed w l, r = some (.ok (.removed uri)) ∧ listed w' l = (listed w l).filter (· ≠ uri)) ∨
      ∃ p : EntityPicture, r = some (.ok (.added p)) ∧ w.contains 0 p.uri = false ∧ listed w l = [] ∧
        listed w' l = awaited w l ++ [p.uri] ∧
        (awaited w l ≠ [] → ∃ e : EntityRef, e.store = 0 ∧ w.isCurrent e ∧ w.kindOf e = sourceKind ∧
          (w.property e "path").isNil = true) ∧
        (awaited w l = [] → (Task.toggleNow 0 0 l).Ends w' fun r' w'' ↦
          Settled w'' ∧ r' = some (.ok (.removed p.uri)) ∧ listed w'' l = [])) := by
  have hclosed := closed_roster h.ground.coherent
  refine (h.ends_toggleNow hD l).mono fun r w' hdone ↦ ?_
  obtain ⟨h', t, rfl, htoggles⟩ := hdone
  refine ⟨h', ?_⟩
  rw [h.listed_eq h.effects_eq, h'.listed_eq h'.effects_eq]
  cases t with
  | rejected => exact absurd rfl htoggles.ne_rejected
  | removed uri =>
    obtain ⟨hmem, hline⟩ := htoggles.onLine_of_removed hclosed
    refine .inl ⟨uri, hmem, rfl, ?_⟩
    rw [hline, List.filter_map]
    rfl
  | added p =>
    obtain ⟨hnone, hnew, hline⟩ := htoggles.onLine_of_added hclosed
    refine .inr ⟨p, rfl, ?_, ?_, ?_, fun hawaited ↦ h.exists_untagged hnone hawaited, fun hawaited ↦ ?_⟩
    · rwa [mem_uris_roster h.ground.coherent, Bool.not_eq_true] at hnew
    · rw [hnone, List.map_nil]
    · rw [hline, List.map_append, awaited]
      rfl
    · refine (h'.ends_toggleNow hD l).mono fun r' w'' hagain ↦ ?_
      obtain ⟨h'', t', rfl, htoggles'⟩ := hagain
      rw [List.map_eq_nil_iff.mp hawaited, List.nil_append] at hline
      obtain ⟨rfl, hline'⟩ := htoggles'.onLine_of_singleton (closed_roster h'.ground.coherent) hline
      refine ⟨h'', rfl, ?_⟩
      rw [h''.listed_eq h''.effects_eq, hline', List.map_nil]

end Run

end LiveGraph.Breakpoint
