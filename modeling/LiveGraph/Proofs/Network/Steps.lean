import LiveGraph.Proofs.Network.Soundness

/-!
# What networks do

Each step that a network does keeps it sound: a write, the beginning and the end of an evaluation, a change
of what a derived value holds, telling those who watch, and watching.
-/

namespace LiveGraph

namespace World

/-- The world where a derived value is about to be computed. -/
def begun (w : World) (d : DerivedId) : World :=
  (w.modifyDerived d fun x ↦ { x with stale := false, evaluating := true }).pushFrame (some d)

/-- The world where an evaluation that has read some sources is over. -/
def finished (w : World) (d : DerivedId) (ss : List Source) : World :=
  ((w.popFrame.modifyDerived d fun x ↦ { x with evaluating := false }).retrack d ss).modifyDerived d
    fun x ↦ { x with cyclic := false }

/-- Two worlds, before and after an evaluation with some sources is over. -/
structure Closes (w w' : World) (d : DerivedId) (ss : List Source) (value : Option Datum) : Prop where
  derived_self : { w'.derived d with observers := [] } = { w.derived d with
    observers := []
    evaluating := false
    cyclic := false
    sources := ss
    height := (ss.map w.heightOf).foldl max 0 + 1
    value := value }
  derived_other : ∀ j ≠ d, { w'.derived j with observers := [] } = { w.derived j with observers := [] }
  signal_eq : ∀ j, { w'.signal j with observers := [] } = { w.signal j with observers := [] }
  mem_observersOf_iff : ∀ j s, j ∈ w'.observersOf s ↔ j ∈ w.observersOf s ∨ j = d ∧ s ∈ ss
  signals_size : w'.signals.size = w.signals.size
  deriveds_size : w'.deriveds.size = w.deriveds.size
  others : ∃ signals deriveds,
    w' = { w with signals := signals, deriveds := deriveds, frames := w.frames.tail }

section Closing

variable {w w' : World} {d : DerivedId} {ss : List Source} {value : Option Datum}

/-- All but whom it is observed by does not change in a derived value, except in the one that is changed. -/
theorem closes_of_rewired {w₁ : World} (hd : d < w.deriveds.size)
    (hrewired : (w.popFrame.modifyDerived d fun x ↦ { x with evaluating := false }).Rewired w₁)
    (hobservers : ∀ j s, j ∈ w₁.observersOf s ↔ j ∈ w.observersOf s ∨ j = d ∧ s ∈ ss) :
    w.Closes ((w₁.modifyDerived d fun x ↦
      { x with sources := ss, height := (ss.map w.heightOf).foldl max 0 + 1 }).modifyDerived d
        fun x ↦ { x with cyclic := false }) d ss (w.derived d).value := by
  obtain ⟨w₀, hw₀⟩ : ∃ w₀, w₀ = w.popFrame.modifyDerived d fun x ↦ { x with evaluating := false } :=
    ⟨_, rfl⟩
  rw [← hw₀] at hrewired
  have hself₀ : w₀.derived d = { w.derived d with evaluating := false } := by
    rw [hw₀]
    exact w.popFrame.derived_modifyDerived_self hd _
  have hother₀ (j : DerivedId) (hj : j ≠ d) : w₀.derived j = w.derived j := by
    rw [hw₀]
    exact w.popFrame.derived_modifyDerived_of_ne hj _
  have hsize₁ : d < w₁.deriveds.size := by
    rw [hrewired.deriveds_size, hw₀, size_modifyDerived]
    exact hd
  have hsize₂ : d < (w₁.modifyDerived d fun x ↦
      { x with sources := ss, height := (ss.map w.heightOf).foldl max 0 + 1 }).deriveds.size := by
    rw [size_modifyDerived]
    exact hsize₁
  constructor
  · rw [derived_modifyDerived_self _ hsize₂, derived_modifyDerived_self _ hsize₁]
    have hsame := hrewired.derived_eq d
    rw [hself₀] at hsame
    exact (congrArg (fun x : Derived ↦ { x with
      cyclic := false
      sources := ss
      height := (ss.map w.heightOf).foldl max 0 + 1 }) hsame :)
  · intro j hj
    rw [derived_modifyDerived_of_ne _ hj, derived_modifyDerived_of_ne _ hj, ← hother₀ j hj]
    exact hrewired.derived_eq j
  · intro j
    have hsame := hrewired.signal_eq j
    rw [hw₀] at hsame
    exact hsame
  · intro j s
    rw [observersOf_modifyDerived, observersOf_modifyDerived]
    · exact hobservers j s
    · exact fun _ ↦ rfl
    · exact fun _ ↦ rfl
  · rw [← show w₀.signals.size = w.signals.size by rw [hw₀]; rfl]
    exact hrewired.signals_size
  · rw [size_modifyDerived, size_modifyDerived, hrewired.deriveds_size, hw₀, size_modifyDerived]
    rfl
  · obtain ⟨signals, deriveds, hw₁⟩ := hrewired.others
    refine ⟨signals, ((w₁.modifyDerived d fun x ↦
      { x with sources := ss, height := (ss.map w.heightOf).foldl max 0 + 1 }).modifyDerived d
        fun x ↦ { x with cyclic := false }).deriveds, ?_⟩
    rw [hw₁, hw₀]
    rfl

theorem Closes.setValue (h : w.Closes w' d ss value) (hd : d < w.deriveds.size) (v : Datum) :
    w.Closes (w'.modifyDerived d fun x ↦ { x with value := some v }) d ss (some v) := by
  have hd' : d < w'.deriveds.size := h.deriveds_size.symm ▸ hd
  constructor
  · rw [derived_modifyDerived_self _ hd']
    exact (congrArg (fun x : Derived ↦ { x with value := some v }) h.derived_self :)
  · intro j hj
    rw [derived_modifyDerived_of_ne _ hj]
    exact h.derived_other j hj
  · exact h.signal_eq
  · intro j s
    rw [observersOf_modifyDerived]
    · exact h.mem_observersOf_iff j s
    · exact fun _ ↦ rfl
  · exact h.signals_size
  · rw [size_modifyDerived]
    exact h.deriveds_size
  · obtain ⟨signals, deriveds, hw'⟩ := h.others
    refine ⟨signals, (w'.modifyDerived d fun x ↦ { x with value := some v }).deriveds, ?_⟩
    rw [hw']
    rfl

end Closing

end World

namespace Network

variable {net : Network} {w w' : World} {except : Option DerivedId} {d : DerivedId} {ss : List Source}
variable {value : Option Datum}

theorem foldl_max_le_iff (zs : List Nat) (a b : Nat) :
    zs.foldl max a ≤ b ↔ a ≤ b ∧ ∀ z ∈ zs, z ≤ b := by
  induction zs generalizing a with
  | nil => simp
  | cons z zs ih =>
    rw [List.foldl_cons, ih, Nat.max_le]
    simp [and_assoc]

/-- The greatest height depends on what is read and not on the order. -/
theorem foldl_max_congr {α : Type} {xs ys : List α} (f g : α → Nat) (hmem : ∀ x, x ∈ xs ↔ x ∈ ys)
    (hfg : ∀ x ∈ ys, f x = g x) : (xs.map f).foldl max 0 = (ys.map g).foldl max 0 := by
  have hsame (b : Nat) : (xs.map f).foldl max 0 ≤ b ↔ (ys.map g).foldl max 0 ≤ b := by
    rw [foldl_max_le_iff, foldl_max_le_iff, List.forall_mem_map, List.forall_mem_map]
    refine and_congr_right fun _ ↦ ⟨fun h x hx ↦ ?_, fun h x hx ↦ ?_⟩
    · exact hfg x hx ▸ h x ((hmem x).mpr hx)
    · exact (hfg x ((hmem x).mp hx)).symm ▸ h x ((hmem x).mp hx)
  exact Nat.le_antisymm ((hsame _).mpr (Nat.le_refl _)) ((hsame _).mp (Nat.le_refl _))

/-- A source stands lower than what is computed from it. -/
theorem Wired.heightOf_lt (h : net.Wired w) (hd : w.Evaluated d) {s : Source} (hs : s ∈ net.sources d) :
    w.heightOf s < (w.derived d).height := by
  have hle := ((foldl_max_le_iff ((net.sources d).map w.heightOf) 0 _).mp (Nat.le_refl _)).2
  rw [h.height_eq d hd]
  exact Nat.lt_succ_of_le (hle _ (List.mem_map_of_mem hs))

/-- What a derived value reads can be observed. -/
theorem Standing.observable (h : net.Standing w) (hd : d < net.count) {s : Source}
    (hs : s ∈ net.sources d) : w.Observable s := by
  cases s with
  | signal id =>
    have hlt := net.signal_lt d hd id hs
    exact ⟨h.signals_size ▸ hlt, h.undisposed id⟩
  | derived e =>
    have hlt := net.derived_lt d hd e hs
    exact ⟨h.deriveds_size ▸ hlt, h.undisposed_derived hlt⟩

/-- What is done at the end of an evaluation. -/
theorem Sound.closes (h : net.Sound except w) (hd : d < net.count)
    (hss : ∀ s, s ∈ ss ↔ s ∈ net.sources d) :
    w.Closes (w.finished d ss) d ss (w.derived d).value := by
  have hsize : d < w.deriveds.size := h.standing.deriveds_size.symm ▸ hd
  obtain ⟨w₀, hw₀⟩ : ∃ w₀, w₀ = w.popFrame.modifyDerived d fun x ↦ { x with evaluating := false } :=
    ⟨_, rfl⟩
  have hpart {α : Type} (part : Derived → α)
      (hpart : ∀ x : Derived, part { x with evaluating := false } = part x) (j : DerivedId) :
      part (w₀.derived j) = part (w.derived j) := by
    rw [hw₀]
    exact w.popFrame.part_modifyDerived part hpart d j
  have hheight : w₀.heightOf = w.heightOf := by
    funext s
    cases s with
    | signal id => rfl
    | derived e => exact hpart Derived.height (fun _ ↦ rfl) e
  have hobservers (s : Source) : w₀.observersOf s = w.observersOf s := by
    cases s with
    | signal id =>
      rw [hw₀]
      rfl
    | derived e => exact hpart Derived.observers (fun _ ↦ rfl) e
  have hsources : (w₀.derived d).sources = (w.derived d).sources :=
    hpart Derived.sources (fun _ ↦ rfl) d
  have hfinished : w.finished d ss =
      (w₀.retrack d ss).modifyDerived d fun x ↦ { x with cyclic := false } := by
    rw [World.finished, hw₀]
  rw [hfinished]
  by_cases hevaluated : w.Evaluated d
  · have hagain : ∀ s, s ∈ ss ↔ s ∈ (w₀.derived d).sources := by
      intro s
      rw [hsources, h.wired.sources_iff d hevaluated, hss]
    rw [World.retrack_again hagain, hheight]
    refine World.closes_of_rewired hsize (hw₀ ▸ .refl w₀) fun j s ↦ ?_
    rw [hobservers]
    refine (or_iff_left_of_imp ?_).symm
    rintro ⟨rfl, hs⟩
    exact (h.wired.observers_iff j s).mpr ⟨hevaluated, (hss s).mp hs⟩
  · have hnone : (w₀.derived d).sources = [] := hsources.trans (h.wired.sources_nil d hevaluated)
    have hobservable : ∀ s ∈ ss, w₀.Observable s := by
      intro s hs
      have hbefore := h.standing.observable hd ((hss s).mp hs)
      refine ⟨?_, ?_⟩
      · cases s with
        | signal id =>
          rw [hw₀]
          exact hbefore.1
        | derived e =>
          rw [hw₀]
          exact Nat.lt_of_lt_of_eq hbefore.1 (w.popFrame.size_modifyDerived d _).symm
      · cases s with
        | signal id =>
          rw [hw₀]
          exact hbefore.2
        | derived e => exact (hpart Derived.disposed (fun _ ↦ rfl) e).trans hbefore.2
    obtain ⟨w₁, hrewired, hmem, hretrack⟩ := World.retrack_first hnone hobservable
    rw [hretrack, hheight]
    refine World.closes_of_rewired hsize (hw₀ ▸ hrewired) fun j s ↦ ?_
    rw [hmem, hobservers]

end Network

namespace World.Closes

open Network

variable {net : Network} {w w' : World} {d : DerivedId} {ss : List Source} {value : Option Datum}

/-- The height is what it was, if there was one. -/
theorem height_self (hw : net.Sound none w) (hss : ∀ s, s ∈ ss ↔ s ∈ net.sources d)
    (hevaluated : w.Evaluated d) :
    (ss.map w.heightOf).foldl max 0 + 1 = (w.derived d).height := by
  rw [hw.wired.height_eq d hevaluated, foldl_max_congr w.heightOf w.heightOf hss fun _ _ ↦ rfl]

variable (h : w.Closes w' d ss value)
include h

theorem part_eq {α : Type} (part : Derived → α)
    (hpart : ∀ x y : Derived, part { x with
      observers := []
      evaluating := false
      cyclic := false
      sources := y.sources
      height := y.height
      value := y.value } = part x) (j : DerivedId) : part (w'.derived j) = part (w.derived j) := by
  have hobservers (x : Derived) : part { x with observers := [] } = part x := by
    rw [← hpart { x with observers := [] } x, ← hpart x x]
  by_cases hj : j = d
  · subst hj
    rw [← hobservers, h.derived_self]
    exact hpart (w.derived j) { w.derived j with
      sources := ss
      height := (ss.map w.heightOf).foldl max 0 + 1
      value := value }
  · rw [← hobservers, h.derived_other j hj, hobservers]

theorem value_self : (w'.derived d).value = value :=
  (congrArg Derived.value h.derived_self :)

theorem evaluated_iff (hvalue : value.isSome) (j : DerivedId) : w'.Evaluated j ↔ w.Evaluated j ∨ j = d := by
  by_cases hj : j = d
  · subst hj
    refine iff_of_true ?_ (.inr rfl)
    rw [World.Evaluated, h.value_self]
    exact hvalue
  · rw [or_iff_left hj]
    exact Iff.of_eq (congrArg (fun x : Derived ↦ (x.value.isSome : Prop)) (h.derived_other j hj) :)

theorem standing (hw : net.Standing w) (hd : d < net.count) : net.Standing w' := by
  have hfixed (j : DerivedId) (hj : j < net.count) : (w'.derived j).fixed = (w.derived j).fixed := by
    by_cases hne : j = d
    · subst hne
      have hcyclic := hw.acyclic hd
      refine (congrArg Derived.fixed h.derived_self :).trans ?_
      rw [Derived.fixed, Derived.fixed, hcyclic]
    · exact (congrArg Derived.fixed (h.derived_other j hne) :)
  obtain ⟨_, _, hw'⟩ := h.others
  exact
    { signals_size := h.signals_size.trans hw.signals_size
      deriveds_size := h.deriveds_size.trans hw.deriveds_size
      noViews := by rw [hw', hw.noViews]
      held := by rw [hw']; exact hw.held
      undisposed := fun j ↦ (congrArg Signal.disposed (h.signal_eq j) :).trans (hw.undisposed j)
      fixed := fun j hj ↦ (hfixed j hj).trans (hw.fixed j hj) }

section

variable {f : Frame} {fs : List Frame} (hw : net.Sound none w) (hframes : w.frames = f :: fs)
variable (howner : f.owner = some d) (hss : ∀ s, s ∈ ss ↔ s ∈ net.sources d)
include hw hss

theorem heightOf_eq {s : Source} (hs : s ≠ .derived d ∨ w.Evaluated d) :
    w'.heightOf s = w.heightOf s := by
  cases s with
  | signal id => rfl
  | derived j =>
    by_cases hj : j = d
    · subst hj
      have hevaluated := hs.resolve_left fun h ↦ h rfl
      exact (congrArg Derived.height h.derived_self :).trans (height_self hw hss hevaluated)
    · exact (congrArg Derived.height (h.derived_other j hj) :)

theorem wired (hbelow : ∀ e, net.Below e d → w.Evaluated e) (hvalue : value.isSome) : net.Wired w' := by
  have hevaluated := h.evaluated_iff hvalue
  constructor
  · intro j hj
    by_cases hne : j = d
    · subst hne
      rw [(congrArg Derived.sources h.derived_self :)]
      exact hss
    · rw [(congrArg Derived.sources (h.derived_other j hne) :)]
      exact hw.wired.sources_iff j (((hevaluated j).mp hj).resolve_right hne)
  · intro j hj
    rw [hevaluated, not_or] at hj
    rw [(congrArg Derived.sources (h.derived_other j hj.2) :)]
    exact hw.wired.sources_nil j hj.1
  · intro j e hj he
    refine (hevaluated e).mpr (.inl ?_)
    rcases (hevaluated j).mp hj with hj | rfl
    · exact hw.wired.below j e hj he
    · exact hbelow e he
  · intro j s
    rw [h.mem_observersOf_iff, hevaluated, hw.wired.observers_iff]
    constructor
    · rintro (⟨hj, hs⟩ | ⟨rfl, hs⟩)
      · exact ⟨.inl hj, hs⟩
      · exact ⟨.inr rfl, (hss s).mp hs⟩
    · rintro ⟨hj | rfl, hs⟩
      · exact .inl ⟨hj, hs⟩
      · exact .inr ⟨rfl, (hss s).mpr hs⟩
  · intro j hj
    by_cases hne : j = d
    · subst hne
      refine (congrArg Derived.height h.derived_self :).trans (congrArg (· + 1) ?_)
      refine foldl_max_congr _ _ hss fun s hs ↦ (h.heightOf_eq hw hss (.inl ?_)).symm
      rintro rfl
      exact below_irrefl (.single hs)
    · have hj := ((hevaluated j).mp hj).resolve_right hne
      refine (congrArg Derived.height (h.derived_other j hne) :).trans ?_
      refine (hw.wired.height_eq j hj).trans (congrArg (· + 1) ?_)
      refine foldl_max_congr _ _ (fun _ ↦ Iff.rfl) fun s hs ↦ (h.heightOf_eq hw hss ?_).symm
      by_cases hsd : s = .derived d
      · subst hsd
        exact .inr (hw.wired.below j d hj hs)
      · exact .inl hsd

include hframes howner in
/-- At the end of an evaluation the network is sound. -/
theorem sound (hd : d < net.count) (hbelow : ∀ e, net.Below e d → w.Evaluated e)
    (hvalue : value.isSome) : net.Sound none w' := by
  have hevaluated := h.evaluated_iff hvalue
  have howners : w.owners = d :: fs.filterMap Frame.owner := by
    rw [World.owners, hframes, List.filterMap_cons, howner]
  obtain ⟨hunder, hbelow'⟩ := List.pairwise_cons.mp (howners ▸ hw.nested.below)
  have hout : d ∉ fs.filterMap Frame.owner := fun hmem ↦ below_irrefl (hunder d hmem)
  have howners' : w'.owners = fs.filterMap Frame.owner := by
    obtain ⟨_, _, hw'⟩ := h.others
    rw [World.owners, hw', hframes]
    rfl
  have hqueue : w'.queue = w.queue := by
    obtain ⟨_, _, hw'⟩ := h.others
    rw [hw']
  have hstale (j : DerivedId) : (w'.derived j).stale = (w.derived j).stale :=
    h.part_eq Derived.stale (fun _ _ ↦ rfl) j
  have hheight (j : DerivedId) (hj : w.Evaluated j) : (w'.derived j).height = (w.derived j).height := by
    refine (h.heightOf_eq hw hss ?_ : w'.heightOf (.derived j) = w.heightOf (.derived j))
    by_cases hne : j = d
    · exact .inr (hne ▸ hj)
    · exact .inl fun heq ↦ hne (Source.derived.inj heq)
  have hevaluating (j : DerivedId) (hne : j ≠ d) :
      (w'.derived j).evaluating = (w.derived j).evaluating :=
    (congrArg Derived.evaluating (h.derived_other j hne) :)
  have hfresh : ¬w.Evaluated d → (w.derived d).stale = false := by
    intro hnot
    have hon : (w.derived d).evaluating = true :=
      (hw.nested.evaluating_iff d).mpr (howners ▸ List.mem_cons_self)
    rw [hw.queued.unevaluated d hd hnot, hon]
    rfl
  refine ⟨h.standing hw.standing hd, h.wired hw hss hbelow hvalue, ?_, ?_, ?_⟩
  · constructor
    · intro j hj hnot
      rw [hevaluated, not_or] at hnot
      rw [hstale, hevaluating j hnot.2]
      exact hw.queued.unevaluated j hj hnot.1
    · intro j _ hj hjstale
      rw [hstale] at hjstale
      have hbefore : w.Evaluated j := by
        by_contra hnot
        have heq := ((hevaluated j).mp hj).resolve_left hnot
        subst heq
        exact absurd (hjstale.symm.trans (hfresh hnot)) Bool.noConfusion
      rw [hqueue, hheight j hbefore]
      exact hw.queued.queued j (Option.some_ne_none j).symm hbefore hjstale
    · intro entry hentry
      obtain ⟨hbefore, hat⟩ := hw.queued.sound entry (hqueue ▸ hentry)
      exact ⟨(hevaluated _).mpr (.inl hbefore), hat.trans (hheight _ hbefore).symm⟩
    · exact hqueue ▸ hw.queued.sorted
  · refine hw.pending.congr (fun j ↦ (congrArg Signal.notice (h.signal_eq j) :)) (fun j ↦ ?_) ?_
    · exact h.part_eq Derived.notice (fun _ _ ↦ rfl) j
    · obtain ⟨_, _, hw'⟩ := h.others
      rw [hw']
  · constructor
    · intro j
      rw [howners']
      by_cases hne : j = d
      · subst hne
        refine iff_of_false ?_ hout
        rw [(congrArg Derived.evaluating h.derived_self :)]
        exact Bool.false_ne_true
      · rw [hevaluating j hne, hw.nested.evaluating_iff, howners, List.mem_cons, or_iff_right hne]
    · exact howners' ▸ hbelow'
    · obtain ⟨_, _, hw'⟩ := h.others
      intro f' hf'
      rw [hw', hframes] at hf'
      exact hw.nested.acyclic f' (hframes ▸ List.mem_cons_of_mem f hf')

end

end World.Closes

namespace Network

variable {net : Network} {w w' : World} {except : Option DerivedId} {d : DerivedId}

namespace Sound

/-- The beginning of an evaluation, below all that are under way. -/
theorem begun (h : net.Sound (some d) w) (hd : d < net.count)
    (hunder : ∀ o ∈ w.owners, Relation.TransGen net.Below d o) : net.Sound none (w.begun d) := by
  have hsize : d < w.deriveds.size := h.standing.deriveds_size.symm ▸ hd
  obtain ⟨w', hw'⟩ : ∃ w', w' = w.modifyDerived d fun x ↦ { x with stale := false, evaluating := true } :=
    ⟨_, rfl⟩
  have hself : w'.derived d = { w.derived d with stale := false, evaluating := true } := by
    rw [hw', w.derived_modifyDerived_self hsize]
  have hother (j : DerivedId) (hj : j ≠ d) : w'.derived j = w.derived j := by
    rw [hw', w.derived_modifyDerived_of_ne hj]
  have hpart {α : Type} (part : Derived → α)
      (hf : ∀ x : Derived, part { x with stale := false, evaluating := true } = part x) (j : DerivedId) :
      part (w'.derived j) = part (w.derived j) := by
    rw [hw']
    exact w.part_modifyDerived part hf d j
  have hevaluated := evaluated_congr (hpart (fun x ↦ x.value.isSome) fun _ ↦ rfl)
  have hheight (j : DerivedId) : (w'.derived j).height = (w.derived j).height :=
    hpart Derived.height (fun _ ↦ rfl) j
  have hstanding : net.Standing w' := by
    rw [hw']
    apply h.standing.modifyDerived
    exact fun _ ↦ rfl
  have hsignal (j : SignalId) : w'.signal j = w.signal j := by
    rw [hw']
    rfl
  have hqueue : w'.queue = w.queue := by
    rw [hw']
    rfl
  have heffects : w'.effects = w.effects := by
    rw [hw']
    rfl
  have hframes : w'.frames = w.frames := by
    rw [hw']
    rfl
  have hbegun : w.begun d = w'.pushFrame (some d) := by
    rw [World.begun, hw']
  rw [hbegun]
  refine ⟨{ hstanding with }, ?_, ?_, ?_, ?_⟩
  · exact h.wired.congr (fun j ↦ hpart Derived.wires (fun _ ↦ rfl) j) fun j ↦ congrArg _ (hsignal j)
  · constructor
    · intro j hj hnot
      change (w'.derived j).stale = !(w'.derived j).evaluating
      by_cases hne : j = d
      · subst hne
        rw [hself]
        rfl
      · rw [hother j hne]
        exact h.queued.unevaluated j hj fun hev ↦ hnot ((hevaluated j).mpr hev)
    · intro j _ hj hstale
      change (w'.derived j).stale = true at hstale
      have hne : j ≠ d := by
        rintro rfl
        rw [hself] at hstale
        exact Bool.noConfusion hstale
      change ((w'.derived j).height, j) ∈ w'.queue
      rw [hother j hne] at hstale ⊢
      rw [hqueue]
      exact h.queued.queued j (fun heq ↦ hne (Option.some.inj heq).symm) ((hevaluated j).mp hj) hstale
    · intro entry hentry
      obtain ⟨hbefore, hat⟩ := h.queued.sound entry (hqueue ▸ hentry)
      exact ⟨(hevaluated _).mpr hbefore, hat.trans (hheight _).symm⟩
    · exact (hqueue ▸ h.queued.sorted : w'.queue.Pairwise _)
  · exact h.pending.congr (fun j ↦ congrArg Signal.notice (hsignal j))
      (fun j ↦ hpart Derived.notice (fun _ ↦ rfl) j) heffects
  · have howners : (w'.pushFrame (some d)).owners = d :: w.owners := by
      change (_ :: w'.frames).filterMap Frame.owner = _
      rw [hframes]
      rfl
    constructor
    · intro j
      rw [howners, List.mem_cons]
      change (w'.derived j).evaluating = true ↔ _
      by_cases hne : j = d
      · subst hne
        rw [hself]
        exact iff_of_true rfl (.inl rfl)
      · rw [hother j hne, or_iff_right hne]
        exact h.nested.evaluating_iff j
    · rw [howners]
      exact List.pairwise_cons.mpr ⟨hunder, h.nested.below⟩
    · intro f hf
      rcases List.mem_cons.mp (show f ∈ _ :: w'.frames from hf) with rfl | hf
      · rfl
      · exact h.nested.acyclic f (hframes ▸ hf)

/-- Marking what observes a source. -/
theorem markObservers (h : net.Sound except w) (s : Source) : net.Sound except (w.markObservers s) := by
  have hall : ∀ d ∈ w.observersOf s, w.Evaluated d := fun d hd ↦ ((h.wired.observers_iff d s).mp hd).1
  unfold World.markObservers
  generalize w.observersOf s = ids at hall
  induction ids generalizing w with
  | nil => exact h
  | cons d rest ih =>
    have hd : w.Evaluated d := hall d List.mem_cons_self
    refine ih (h.markStale hd) fun j hj ↦ ?_
    have hvalue : ((w.markStale d).derived j).value = (w.derived j).value := by
      rw [World.derived_markStale]
      split <;> rfl
    rw [World.Evaluated, hvalue]
    exact hall j (List.mem_cons_of_mem _ hj)

/-- Putting off the notification of those who watch a signal. -/
theorem deferSignal (h : net.Sound except w) (id : SignalId) : net.Sound except (w.deferSignal id) := by
  by_cases htold : ((w.signal id).watchers.isEmpty || (w.signal id).notifying) = true
  · rw [World.deferSignal_of_told w htold]
    exact h
  · rw [World.deferSignal_of_untold w htold]
    rw [Bool.or_eq_true, not_or, Bool.not_eq_true, Bool.not_eq_true] at htold
    have hsize : id < w.signals.size := Nat.lt_of_not_le fun hle ↦ by
      rw [w.signal_of_size_le hle] at htold
      exact absurd htold.1 (by decide)
    have hself := w.signal_modifySignal_self hsize fun s ↦ { s with notifying := true }
    have hstanding : net.Standing (w.modifySignal id fun s ↦ { s with notifying := true }) := by
      apply h.standing.modifySignal
      exact fun _ ↦ rfl
    refine ⟨{ hstanding with }, ?_, h.queued.congr (fun _ ↦ rfl) rfl, ?_,
      h.nested.congr (fun _ ↦ rfl) rfl h.nested.acyclic⟩
    · refine h.wired.congr (fun _ ↦ rfl) fun j ↦ ?_
      apply w.part_modifySignal Signal.observers
      exact fun _ ↦ rfl
    · constructor
      · intro j
        refine List.mem_append.trans ?_
        change _ ↔ ((w.modifySignal id _).signal j).notifying = true
        by_cases hj : j = id
        · subst hj
          rw [hself]
          exact iff_of_true (.inr (List.mem_singleton.mpr rfl)) rfl
        · rw [w.signal_modifySignal_of_ne hj, ← h.pending.signal_iff]
          exact or_iff_left fun hmem ↦ hj (Effect.signal.inj (List.mem_singleton.mp hmem))
      · intro j
        refine List.mem_append.trans ?_
        refine Iff.trans ?_ (h.pending.derived_iff j)
        exact or_iff_left fun hmem ↦ Effect.noConfusion (List.mem_singleton.mp hmem)
      · intro j hj
        rcases List.mem_append.mp hj with hj | hj
        · exact h.pending.noView j hj
        · exact Effect.noConfusion (List.mem_singleton.mp hj)
      · refine List.nodup_append.mpr ⟨h.pending.nodup, List.nodup_singleton _, fun e he e' he' ↦ ?_⟩
        rintro rfl
        rw [List.mem_singleton.mp he', h.pending.signal_iff, htold.2] at he
        exact Bool.noConfusion he
      · intro s
        have htidy := h.pending.tidy s
        cases s with
        | signal j =>
          have hwatchers : ((w.modifySignal id fun s ↦ { s with notifying := true }).signal j).watchers =
              (w.signal j).watchers := by
            apply w.part_modifySignal Signal.watchers
            exact fun _ ↦ rfl
          exact (congrArg Watchers.Tidy hwatchers).mpr htidy
        | derived j => exact htidy

/-- Putting off the notification of those who watch a derived value. -/
theorem deferDerived (h : net.Sound except w) (id : DerivedId) : net.Sound except (w.deferDerived id) := by
  by_cases htold : ((w.derived id).watchers.isEmpty || (w.derived id).notifying) = true
  · have hsame : w.deferDerived id = w := if_pos htold
    rw [hsame]
    exact h
  · have hdefer : w.deferDerived id = { w.modifyDerived id fun d ↦ { d with notifying := true } with
        effects := w.effects ++ [.derived id] } := if_neg htold
    rw [hdefer]
    rw [Bool.or_eq_true, not_or, Bool.not_eq_true, Bool.not_eq_true] at htold
    have hsize : id < w.deriveds.size := Nat.lt_of_not_le fun hle ↦ by
      rw [w.derived_of_size_le hle] at htold
      exact absurd htold.1 (by decide)
    have hself := w.derived_modifyDerived_self hsize fun d ↦ { d with notifying := true }
    have hstanding : net.Standing (w.modifyDerived id fun d ↦ { d with notifying := true }) := by
      apply h.standing.modifyDerived
      exact fun _ ↦ rfl
    have hpart {α : Type} (part : Derived → α)
        (hf : ∀ x : Derived, part { x with notifying := true } = part x) (j : DerivedId) :
        part ((w.modifyDerived id fun x ↦ { x with notifying := true }).derived j) =
          part (w.derived j) := w.part_modifyDerived part hf id j
    refine ⟨{ hstanding with }, ?_, ?_, ?_, ?_⟩
    · exact h.wired.congr (fun j ↦ hpart Derived.wires (fun _ ↦ rfl) j) fun _ ↦ rfl
    · exact h.queued.congr (fun j ↦ hpart Derived.turn (fun _ ↦ rfl) j) rfl
    · constructor
      · intro j
        refine List.mem_append.trans ?_
        refine Iff.trans ?_ (h.pending.signal_iff j)
        exact or_iff_left fun hmem ↦ Effect.noConfusion (List.mem_singleton.mp hmem)
      · intro j
        refine List.mem_append.trans ?_
        change _ ↔ ((w.modifyDerived id _).derived j).notifying = true
        by_cases hj : j = id
        · subst hj
          rw [hself]
          exact iff_of_true (.inr (List.mem_singleton.mpr rfl)) rfl
        · rw [w.derived_modifyDerived_of_ne hj, ← h.pending.derived_iff]
          exact or_iff_left fun hmem ↦ hj (Effect.derived.inj (List.mem_singleton.mp hmem))
      · intro j hj
        rcases List.mem_append.mp hj with hj | hj
        · exact h.pending.noView j hj
        · exact Effect.noConfusion (List.mem_singleton.mp hj)
      · refine List.nodup_append.mpr ⟨h.pending.nodup, List.nodup_singleton _, fun e he e' he' ↦ ?_⟩
        rintro rfl
        rw [List.mem_singleton.mp he', h.pending.derived_iff, htold.2] at he
        exact Bool.noConfusion he
      · intro s
        have htidy := h.pending.tidy s
        cases s with
        | signal j => exact htidy
        | derived j => exact (congrArg Watchers.Tidy (hpart Derived.watchers (fun _ ↦ rfl) j)).mpr htidy
    · exact h.nested.congr (fun j ↦ hpart Derived.evaluating (fun _ ↦ rfl) j) rfl h.nested.acyclic

theorem write (h : net.Sound except w) (id : SignalId) (v : Value) : net.Sound except (w.write id v) := by
  have hset : net.Sound except (w.modifySignal id fun s ↦ { s with value := v }) := by
    apply h.modifySignal
    · exact fun _ ↦ rfl
    · exact fun _ ↦ rfl
    · exact fun _ ↦ rfl
  exact (hset.markObservers (.signal id)).deferSignal id

theorem keep (h : net.Sound except w) (hd : w.Evaluated d) (v : Datum) :
    net.Sound except (w.keep d v) :=
  ((h.setValue hd v).markObservers (.derived d)).deferDerived d

/-- A change of who watches a source. -/
theorem modifyWatchers (h : net.Sound except w) (s : Source) {f : Watchers → Watchers}
    (hf : ∀ ws : Watchers, ws.Tidy → (f ws).Tidy) : net.Sound except (w.modifyWatchers s.channel f) := by
  cases s with
  | signal id =>
    have hpart {α : Type} (part : Signal → α)
        (hpart : ∀ x : Signal, part { x with watchers := f x.watchers } = part x) (j : SignalId) :
        part ((w.modifySignal id fun x ↦ { x with watchers := f x.watchers }).signal j) =
          part (w.signal j) := w.part_modifySignal part hpart id j
    have hstanding : net.Standing (w.modifySignal id fun x ↦ { x with watchers := f x.watchers }) := by
      apply h.standing.modifySignal
      exact fun _ ↦ rfl
    refine ⟨hstanding, ?_, h.queued.congr (fun _ ↦ rfl) rfl, ?_,
      h.nested.congr (fun _ ↦ rfl) rfl h.nested.acyclic⟩
    · exact h.wired.congr (fun _ ↦ rfl) fun j ↦ hpart Signal.observers (fun _ ↦ rfl) j
    · refine ⟨fun j ↦ ?_, h.pending.derived_iff, h.pending.noView, h.pending.nodup, fun s ↦ ?_⟩
      · rw [show ((w.modifyWatchers (Source.signal id).channel f).signal j).notifying =
          (w.signal j).notifying from hpart Signal.notifying (fun _ ↦ rfl) j]
        exact h.pending.signal_iff j
      · have htidy := h.pending.tidy s
        cases s with
        | signal j =>
          change ((w.modifySignal id fun x ↦ { x with watchers := f x.watchers }).signal j).watchers.Tidy
          rw [World.signal_modifySignal]
          split
          · exact hf _ htidy
          · exact htidy
        | derived j => exact htidy
  | derived id =>
    have hpart {α : Type} (part : Derived → α)
        (hpart : ∀ x : Derived, part { x with watchers := f x.watchers } = part x) (j : DerivedId) :
        part ((w.modifyDerived id fun x ↦ { x with watchers := f x.watchers }).derived j) =
          part (w.derived j) := w.part_modifyDerived part hpart id j
    have hstanding : net.Standing (w.modifyDerived id fun x ↦ { x with watchers := f x.watchers }) := by
      apply h.standing.modifyDerived
      exact fun _ ↦ rfl
    refine ⟨hstanding, ?_, ?_, ?_, ?_⟩
    · exact h.wired.congr (fun j ↦ hpart Derived.wires (fun _ ↦ rfl) j) fun _ ↦ rfl
    · exact h.queued.congr (fun j ↦ hpart Derived.turn (fun _ ↦ rfl) j) rfl
    · refine ⟨h.pending.signal_iff, fun j ↦ ?_, h.pending.noView, h.pending.nodup, fun s ↦ ?_⟩
      · rw [show ((w.modifyWatchers (Source.derived id).channel f).derived j).notifying =
          (w.derived j).notifying from hpart Derived.notifying (fun _ ↦ rfl) j]
        exact h.pending.derived_iff j
      · have htidy := h.pending.tidy s
        cases s with
        | signal j => exact htidy
        | derived j =>
          change ((w.modifyDerived id fun x ↦ { x with watchers := f x.watchers }).derived j).watchers.Tidy
          rw [World.derived_modifyDerived]
          split
          · exact hf _ htidy
          · exact htidy
    · exact h.nested.congr (fun j ↦ hpart Derived.evaluating (fun _ ↦ rfl) j) rfl h.nested.acyclic

/-- The turn of those who watch a signal has come. -/
theorem toldSignal (h : net.Sound except w) {id : SignalId} {rest : List Effect}
    (heffects : w.effects = .signal id :: rest) : net.Sound except
      (({ w with effects := rest } : World).modifySignal id fun s ↦ { s with notifying := false }) := by
  have hnodup : Effect.signal id ∉ rest ∧ rest.Nodup := List.nodup_cons.mp (heffects ▸ h.pending.nodup)
  have hpart {α : Type} (part : Signal → α)
      (hpart : ∀ x : Signal, part { x with notifying := false } = part x) (j : SignalId) :
      part ((w.modifySignal id fun x ↦ { x with notifying := false }).signal j) = part (w.signal j) :=
    w.part_modifySignal part hpart id j
  have hstanding : net.Standing (w.modifySignal id fun x ↦ { x with notifying := false }) := by
    apply h.standing.modifySignal
    exact fun _ ↦ rfl
  refine ⟨{ hstanding with }, ?_, h.queued.congr (fun _ ↦ rfl) rfl, ?_,
    h.nested.congr (fun _ ↦ rfl) rfl h.nested.acyclic⟩
  · exact h.wired.congr (fun _ ↦ rfl) fun j ↦ hpart Signal.observers (fun _ ↦ rfl) j
  · refine ⟨fun j ↦ ?_, fun j ↦ ?_, fun j hj ↦ ?_, hnodup.2, fun s ↦ ?_⟩
    · change _ ∈ rest ↔ ((w.modifySignal id fun x ↦ { x with notifying := false }).signal j).notifying = true
      have hbefore := h.pending.signal_iff j
      rw [heffects, List.mem_cons] at hbefore
      by_cases hj : j = id
      · subst hj
        rw [World.signal_modifySignal]
        refine iff_of_false hnodup.1 ?_
        split
        · exact Bool.false_ne_true
        · rename_i hout
          rw [w.signal_of_size_le (Nat.le_of_not_lt fun hlt ↦ hout ⟨rfl, hlt⟩)]
          exact Bool.false_ne_true
      · rw [w.signal_modifySignal_of_ne hj, ← hbefore, or_iff_right fun heq ↦ hj (Effect.signal.inj heq)]
    · have hbefore := h.pending.derived_iff j
      rw [heffects, List.mem_cons, or_iff_right fun heq ↦ Effect.noConfusion heq] at hbefore
      exact hbefore
    · exact h.pending.noView j (heffects ▸ List.mem_cons_of_mem _ hj)
    · have htidy := h.pending.tidy s
      cases s with
      | signal j => exact (congrArg Watchers.Tidy (hpart Signal.watchers (fun _ ↦ rfl) j)).mpr htidy
      | derived j => exact htidy

/-- The turn of those who watch a derived value has come. -/
theorem toldDerived (h : net.Sound except w) {id : DerivedId} {rest : List Effect}
    (heffects : w.effects = .derived id :: rest) : net.Sound except
      (({ w with effects := rest } : World).modifyDerived id fun d ↦ { d with notifying := false }) := by
  have hnodup : Effect.derived id ∉ rest ∧ rest.Nodup := List.nodup_cons.mp (heffects ▸ h.pending.nodup)
  have hpart {α : Type} (part : Derived → α)
      (hpart : ∀ x : Derived, part { x with notifying := false } = part x) (j : DerivedId) :
      part ((w.modifyDerived id fun x ↦ { x with notifying := false }).derived j) = part (w.derived j) :=
    w.part_modifyDerived part hpart id j
  have hstanding : net.Standing (w.modifyDerived id fun x ↦ { x with notifying := false }) := by
    apply h.standing.modifyDerived
    exact fun _ ↦ rfl
  refine ⟨{ hstanding with }, ?_, ?_, ?_, ?_⟩
  · exact h.wired.congr (fun j ↦ hpart Derived.wires (fun _ ↦ rfl) j) fun _ ↦ rfl
  · exact h.queued.congr (fun j ↦ hpart Derived.turn (fun _ ↦ rfl) j) rfl
  · refine ⟨fun j ↦ ?_, fun j ↦ ?_, fun j hj ↦ ?_, hnodup.2, fun s ↦ ?_⟩
    · have hbefore := h.pending.signal_iff j
      rw [heffects, List.mem_cons, or_iff_right fun heq ↦ Effect.noConfusion heq] at hbefore
      exact hbefore
    · change _ ∈ rest ↔ ((w.modifyDerived id fun x ↦ { x with notifying := false }).derived j).notifying = true
      have hbefore := h.pending.derived_iff j
      rw [heffects, List.mem_cons] at hbefore
      by_cases hj : j = id
      · subst hj
        rw [World.derived_modifyDerived]
        refine iff_of_false hnodup.1 ?_
        split
        · exact Bool.false_ne_true
        · rename_i hout
          rw [w.derived_of_size_le (Nat.le_of_not_lt fun hlt ↦ hout ⟨rfl, hlt⟩)]
          exact Bool.false_ne_true
      · rw [w.derived_modifyDerived_of_ne hj, ← hbefore, or_iff_right fun heq ↦ hj (Effect.derived.inj heq)]
    · exact h.pending.noView j (heffects ▸ List.mem_cons_of_mem _ hj)
    · have htidy := h.pending.tidy s
      cases s with
      | signal j => exact htidy
      | derived j => exact (congrArg Watchers.Tidy (hpart Derived.watchers (fun _ ↦ rfl) j)).mpr htidy
  · exact h.nested.congr (fun j ↦ hpart Derived.evaluating (fun _ ↦ rfl) j) rfl h.nested.acyclic

end Sound

end Network

namespace Watchers.Tidy

variable {ws : Watchers}

theorem empty : Watchers.empty.Tidy :=
  ⟨.empty, fun _ h ↦ absurd h List.not_mem_nil⟩

theorem add (h : ws.Tidy) (name : String) : (ws.add (.script name .every [])).Tidy := by
  refine ⟨h.toNumbered.add _, fun e he ↦ ?_⟩
  rcases List.mem_append.mp he with he | he
  · exact h.script e he
  · exact ⟨name, congrArg Prod.snd (List.mem_singleton.mp he)⟩

theorem remove (h : ws.Tidy) (id : Nat) : (ws.remove id).Tidy :=
  ⟨h.toNumbered.remove id, fun e he ↦ h.script e (List.mem_filter.mp he).1⟩

end Watchers.Tidy

end LiveGraph
