import LiveGraph.Proofs.Breakpoint.Listed

/-!
# Going on with a toggle that has asked

A toggle that has asked goes by what it found before it asked, whatever the store holds by the time it is answered. If
it is accepted and what it found is still there, that is removed, and if not, a breakpoint is added, even if others
are listed on the line by then. If it is refused, nothing is changed.
-/

namespace LiveGraph.Breakpoint

open Act World

variable {w : World} {l : Location} {found : Option EntityRef}

/-- What was found is still there or has gone: of a breakpoint that was there once it is known whether it is. -/
structure Found (w : World) (found : Option EntityRef) : Prop where
  store_eq : ∀ e ∈ found, e.store = 0
  knows : ∀ e ∈ found, w.knows e
  kind_eq : ∀ e ∈ found, w.kindOf e = kind

/-- A debug state that nobody else has to do with, between two operations. Tasks may stand in line for its locks. -/
structure Resting (w : World) : Prop extends Secluded w where
  depth_eq : w.depth = 0
  flushing_eq : w.flushing = false
  effects_eq : w.effects = []

theorem Settled.resting (h : Settled w) : Resting w :=
  ⟨h.toSecluded, h.depth_eq, h.flushing_eq, h.effects_eq⟩

namespace Resting

variable (h : Resting w)
include h

/-- To leave a line changes locks alone. -/
theorem leaveLine {t : Task} (hwork : t.work = .toggle 0 l (some found)) :
    Resting (w.leaveLine t) ∧ roster (w.leaveLine t) = roster w := by
  rw [World.leaveLine, World.modifyLocks, hwork]
  split
  · exact ⟨⟨h.restated (fun _ ↦ rfl) (fun _ ↦ rfl) fun _ ↦ funext fun slot ↦ by cases slot <;> rfl, h.depth_eq,
      h.flushing_eq, h.effects_eq⟩, rfl⟩
  · exact ⟨h, rfl⟩

/-- A toggle that was accepted carries out what it has found. -/
theorem ends_advance [D : Dispatch] (hD : Deep D) {name : String} {t : Task} (hfound : Found w found)
    (hwork : t.work = .toggle 0 l (some found)) (hclaimed : t.claimed = true) (hturn : w.hasTurn t = true)
    (haccepted : w.opening? name = some (.verdict true)) : (Task.advance name t).Ends w fun p w' ↦
      Resting w' ∧ ∃ o, p = .done (.toggled (.ok o)) ∧
        (roster w).CarriesOut l ((found.filter fun e ↦ (w.entity e).live).map (item w)) o (roster w') := by
  have hcarried : (carryOut 0 l found).Ends w _ :=
    h.ends_carryOut hD h.depth_eq h.flushing_eq h.effects_eq l fun e he ↦ ⟨hfound.store_eq e he, hfound.knows e he⟩
  have htoggle : (Task.toggle name t 0 l (some found)).Ends w fun p w' ↦ Worked w w' ∧ w'.effects = [] ∧
      ∃ o, p = .done (.toggled (.ok o)) ∧
        (roster w).CarriesOut l ((found.filter fun e ↦ (w.entity e).live).map (item w)) o (roster w') := by
    refine ends_get ?_
    rw [haccepted]
    refine hcarried.bind fun r w₁ hw₁ ↦ ?_
    obtain ⟨hworked, heffects, o, rfl, hcarries⟩ := hw₁
    exact ends_pure ⟨hworked, heffects, o, rfl, hcarries⟩
  rw [Task.advance, hwork]
  dsimp only
  rw [Task.queueUp, if_pos hclaimed]
  refine ends_after rfl (ends_get ?_)
  rw [if_pos hturn]
  refine htoggle.orElse.bind fun p w₁ hw₁ ↦ ?_
  obtain ⟨hworked, heffects, o, rfl, hcarries⟩ := hw₁
  have h₁ : Resting w₁ := ⟨hworked.secluded, hworked.depth_eq.trans h.depth_eq,
    hworked.flushing_eq.trans h.flushing_eq, heffects⟩
  obtain ⟨h₂, hroster⟩ := h₁.leaveLine hwork
  exact ends_after (modify_run _ _) (ends_pure ⟨h₂, o, rfl, hroster ▸ hcarries⟩)

section Accepted

variable [D : Dispatch] (hD : Deep D) {name : String} {t : Task} (hfound : Found w found)
  (hwork : t.work = .toggle 0 l (some found)) (hclaimed : t.claimed = true) (hturn : w.hasTurn t = true)
  (haccepted : w.opening? name = some (.verdict true))
include hD hfound hwork hclaimed hturn haccepted

/-- If what it has found is there still, that is removed, and all other breakpoints stay where they are. -/
theorem ends_advance_there {e : EntityRef} (he : found = some e) (hlive : (w.entity e).live = true) :
    (Task.advance name t).Ends w fun p w' ↦ Resting w' ∧ p = .done (.toggled (.ok (.removed (w.uriOf e)))) ∧
      ∀ l', listed w' l' = (listed w l').filter (· ≠ w.uriOf e) := by
  have hcoherent := h.ground.coherent
  obtain ⟨hstore, hknows, hkind⟩ := hfound
  have hcurrent := (h.ground.isCurrent_iff_isLive (hstore e he)).mpr ⟨hstore e he, hknows e he, hlive⟩
  have hmem : item w e ∈ (roster w).items :=
    List.mem_map.mpr ⟨e, (World.mem_byAge hcoherent).mpr ⟨hstore e he, hcurrent⟩, rfl⟩
  have hfilter : (some e).filter (fun e ↦ (w.entity e).live) = some e := Option.filter_some_pos hlive
  have hthere : (found.filter fun e ↦ (w.entity e).live).map (item w) = some (item w e) := by
    rw [he, hfilter, Option.map_some]
  refine (h.ends_advance hD ⟨hstore, hknows, hkind⟩ hwork hclaimed hturn haccepted).mono fun p w' hdone ↦ ?_
  obtain ⟨h', o, rfl, hcarries⟩ := hdone
  refine ⟨h', ?_⟩
  rw [hthere] at hcarries
  generalize hroster : roster w' = R' at hcarries
  cases hcarries with
  | add _ _ hnone _ => exact absurd hnone (Option.some_ne_none _)
  | remove x hx =>
    obtain rfl := Option.some.inj hx
    refine ⟨rfl, fun l' ↦ ?_⟩
    rw [h'.listed_eq h'.effects_eq, hroster, (roster w).onLine_without (closed_roster hcoherent) hmem (hkind e he),
      h.listed_eq h.effects_eq, List.filter_map]
    rfl

/-- If it had found none, or what it has found has gone, a breakpoint is added, after those that others may have put
on the line. -/
theorem ends_advance_gone (hgone : ∀ e ∈ found, (w.entity e).live = false) :
    (Task.advance name t).Ends w fun p w' ↦ Resting w' ∧ ∃ q : EntityPicture, p = .done (.toggled (.ok (.added q))) ∧
      w.contains 0 q.uri = false ∧ listed w' l = awaited w l ++ [q.uri] ∧
      (listed w l ≠ [] → listed w' l = listed w l ++ [q.uri]) := by
  have hclosed := closed_roster h.ground.coherent
  have hthere : (found.filter fun e ↦ (w.entity e).live).map (item w) = none := by
    rw [Option.map_eq_none_iff, Option.filter_eq_none_iff]
    exact fun e he ↦ by rw [hgone e he]; exact Bool.false_ne_true
  refine (h.ends_advance hD hfound hwork hclaimed hturn haccepted).mono fun p w' hdone ↦ ?_
  obtain ⟨h', o, rfl, hcarries⟩ := hdone
  refine ⟨h', ?_⟩
  rw [hthere] at hcarries
  generalize hroster : roster w' = R' at hcarries
  cases hcarries with
  | remove x hx => exact absurd hx.symm (Option.some_ne_none x)
  | add q _ _ hinserted =>
    have hline : listed w' l = awaited w l ++ [q.uri] := by
      rw [h'.listed_eq h'.effects_eq, hroster, hinserted.onLine_eq hclosed, List.map_append, awaited]
      rfl
    have hnew : q.uri ∉ (roster w).uris := fun hmem ↦
      hinserted.not_mem ((roster w).subset_uris_ensured l.path hmem)
    refine ⟨q, rfl, ?_, hline, fun hsome ↦ ?_⟩
    · rwa [mem_uris_roster h.ground.coherent, Bool.not_eq_true] at hnew
    · rw [h.listed_eq h.effects_eq] at hsome
      have hline' : (roster w).onLine l ≠ [] := fun hnil ↦ hsome (by rw [hnil, List.map_nil])
      rw [hline, awaited, Roster.awaiting_eq_onLine hline', h.listed_eq h.effects_eq]

end Accepted

end Resting

/-- A toggle that was refused leaves its line, and nothing else is changed. -/
theorem advance_refused [Dispatch] {name : String} {t : Task} (hwork : t.work = .toggle 0 l (some found))
    (hclaimed : t.claimed = true) (hturn : w.hasTurn t = true) (hrefused : w.opening? name = some (.verdict false)) :
    Task.advance name t w = .ok (.done (.toggled (.ok .rejected))) (w.leaveLine t) := by
  have htoggle : Task.toggle name t 0 l (some found) w = .ok (.done (.toggled (.ok .rejected))) w := by
    simp only [Task.toggle, bind_run, get_run, hrefused]
    rfl
  simp only [Task.advance, hwork, Task.queueUp, hclaimed, if_true, bind_run, pure_run, get_run, hturn, Act.orElse,
    htoggle, modify_run]

end LiveGraph.Breakpoint
