import LiveGraph.Proofs.Network.Steps
import LiveGraph.Proofs.Sheet.Ledger

/-!
# Books that are kept

What is true of a ledger at any time, also in the middle of a row of calls. Of those who watch a source, each one
was told what it holds, or waits to be told with the source, or is among those that the calls under way have
still to reach; and these calls tell what the source holds, unless it waits again. Each step keeps that: a change
makes the source wait, the beginning of the calls puts everybody on the list, and each call strikes one off.
-/

namespace LiveGraph

open Sheet

namespace Ledger

variable (l : Ledger) (s : Source)

/-- Writes down who has to be told that a source changes. -/
def owe : Ledger :=
  l.modifySession fun x ↦ { x with
    notes := ((l.cell s).watchers.entries.map fun e ↦ Note.asked e.2.title) ++ x.notes }

def note (n : Note) : Ledger :=
  l.modifySession fun x ↦ { x with notes := n :: x.notes }

def entitle (name : String) (subscription : Subscription) : Ledger :=
  l.modifySession fun x ↦ { x with subscriptions := x.subscriptions.insert name subscription }

/-- A name stands for a new subscription. -/
def subscribe (name : String) : Ledger :=
  (l.setWatchers s (·.add (.script name .every []))).entitle name
    (some (s.channel, (l.cell s).watchers.issued + 1))

/-- A source waits no longer: what it holds is about to be told. -/
def quiet (rest : List Effect) : Ledger :=
  { l.setCell s { l.cell s with notifying := false } with effects := rest }

/-- Who is registered by a name was told what the source holds, unless it was told nothing and nothing was to be
told. -/
structure Current (name : String) : Prop where
  told : Note.asked name ∈ l.session.notes → (lastTold name l.session.notes).isSome
  current : ∀ d, lastTold name l.session.notes = some d → (l.cell s).value = some d

/-- Who watches a source. -/
def Registered (k : Nat) (name : String) : Prop :=
  (k, .script name .every []) ∈ (l.cell s).watchers.entries

/-- What waits to be told is flagged, and there is something to tell. -/
structure Pending : Prop where
  tidy : ∀ s, (l.cell s).watchers.Tidy
  effect_iff : ∀ s : Source, s.effect ∈ l.effects ↔ (l.cell s).notifying = true
  noView : ∀ id, .view id ∉ l.effects
  nodup : l.effects.Nodup
  valued : ∀ s, (l.cell s).notifying = true → (l.cell s).value.isSome

/-- A name stands for one subscription, and nothing is written down under one that stands for none. -/
structure Named (reserved : List String) : Prop where
  stands : ∀ s k name, l.Registered s k name → l.session.subscriptions[name]? = some (some (s.channel, k))
  reserved : ∀ name ∈ reserved, l.session.subscriptions[name]? = some none
  unheard : ∀ name, (∀ e, l.session.subscriptions[name]? ≠ some (some e)) →
    .asked name ∉ l.session.notes ∧ lastTold name l.session.notes = none

end Ledger

/-- A row of calls that tell a value: the source, the value, and whom the calls have still to reach. -/
structure Pass where
  source : Source
  value : Datum
  rest : List (Nat × Callback)

/-- Whoever is still to be reached and still registered is told what the source holds, unless that waits to be
told again. -/
structure Pass.Underway (p : Pass) (l : Ledger) : Prop where
  le_issued : ∀ e ∈ p.rest, e.1 ≤ (l.cell p.source).watchers.issued
  eq_of_number : ∀ e ∈ p.rest, ∀ e' ∈ (l.cell p.source).watchers.entries, e'.1 = e.1 → e' = e
  current : ∀ e ∈ p.rest, e ∈ (l.cell p.source).watchers.entries →
    (l.cell p.source).notifying = true ∨ (l.cell p.source).value = some p.value

namespace Sheet

/-- What code is carried out under: what is held, which names are about to be given, and the calls under way. -/
structure Terms (sheet : Sheet) where
  pins : List Pin
  held : sheet.handles ⊆ pins
  reserved : List String
  pass : Option Pass

variable {sheet : Sheet}

namespace Terms

variable (t : Terms sheet)

def passing (p : Option Pass) : Terms sheet :=
  { t with pass := p }

def reserving (name : String) : Terms sheet :=
  { t with reserved := name :: t.reserved }

def holding (p : Pin) : Terms sheet :=
  { t with pins := p :: t.pins, held := List.subset_cons_of_subset p t.held }

/-- The calls under way have still to reach who is registered under a number. -/
def Awaits (s : Source) (k : Nat) : Prop :=
  ∃ p, t.pass = some p ∧ p.source = s ∧ ∃ e ∈ p.rest, e.1 = k

end Terms

/-- Everything is in being. -/
structure Standing (sheet : Sheet) (pins : List Pin) (l : Ledger) : Prop where
  signals_eq : l.signals = sheet.initial.length
  deriveds_eq : l.deriveds = sheet.count
  noViews : l.views = #[]
  pins_eq : l.pins = pins
  undropped : ∀ id < sheet.count, (l.cell (.derived id)).dropped = false

/-- All of it. -/
structure Books (t : Terms sheet) (l : Ledger) : Prop where
  standing : sheet.Standing t.pins l
  pending : l.Pending
  named : l.Named t.reserved
  underway : ∀ p, t.pass = some p → p.Underway l
  heard : ∀ s k name, (l.cell s).disposed = false → l.Registered s k name →
    (l.cell s).notifying = true ∨ t.Awaits s k ∨ l.Current s name

end Sheet

namespace Ledger

variable {l : Ledger} {s : Source}

section Cells

variable {c : Cell}

@[simp] theorem cell_setCell_self : (l.setCell s c).cell s = c := by
  unfold setCell
  exact Function.update_self s c l.cell

theorem cell_setCell_of_ne {s' : Source} (h : s' ≠ s) : (l.setCell s c).cell s' = l.cell s' := by
  unfold setCell
  exact Function.update_of_ne h c l.cell

/-- A part of all cells that a change of one leaves as it is. -/
theorem part_setCell {α : Type} (part : Cell → α) (h : part c = part (l.cell s)) (s' : Source) :
    part ((l.setCell s c).cell s') = part (l.cell s') := by
  by_cases hs : s' = s
  · subst hs
    rw [cell_setCell_self, h]
  · rw [cell_setCell_of_ne hs]

/-- A part of all cells that does not depend on what is held. -/
theorem part_setValue {α : Type} (part : Cell → α)
    (hpart : ∀ (c : Cell) (value : Option Datum), part { c with value := value } = part c) (d : Datum)
    (s' : Source) : part ((l.setValue s d).cell s') = part (l.cell s') :=
  part_setCell part (hpart (l.cell s) _) s'

theorem Standing.setCell {sheet : Sheet} {pins : List Pin} (h : sheet.Standing pins l)
    (hc : c.dropped = (l.cell s).dropped) : sheet.Standing pins (l.setCell s c) :=
  { h with undropped := fun id hid ↦ (part_setCell Cell.dropped hc (.derived id)).trans (h.undropped id hid) }

/-- Registered is who was registered, where nobody else watches. -/
theorem registered_setCell (hc : c.watchers = (l.cell s).watchers) (s' : Source) (k : Nat) (name : String) :
    (l.setCell s c).Registered s' k name ↔ l.Registered s' k name := by
  unfold Registered
  rw [part_setCell Cell.watchers hc]

end Cells

/-- What a change comes to. -/
theorem change_eq (l : Ledger) (s : Source) (d : Datum) : l.change s d =
    { l.setCell s { l.cell s with
        value := some d
        notifying := (l.cell s).notifying || !(l.cell s).watchers.isEmpty } with
      effects := if ((l.cell s).watchers.isEmpty || (l.cell s).notifying) = true then l.effects
        else l.effects ++ [s.effect] } := by
  unfold change defer setValue
  rw [cell_setCell_self]
  by_cases h : ((l.cell s).watchers.isEmpty || (l.cell s).notifying) = true
  · rw [if_pos h, if_pos h]
    have hsame : ((l.cell s).notifying || !(l.cell s).watchers.isEmpty) = (l.cell s).notifying := by
      cases hempty : (l.cell s).watchers.isEmpty <;> simp_all
    rw [hsame]
    rfl
  · rw [if_neg h, if_neg h]
    rw [Bool.or_eq_true, not_or, Bool.not_eq_true, Bool.not_eq_true] at h
    rw [h.1, h.2]
    unfold setCell
    dsimp only
    rw [Function.update_idem]
    rfl

section Change

variable (l : Ledger) (s : Source) (d : Datum)

/-- A part of all cells that a change leaves as it is. -/
theorem part_change {α : Type} (part : Cell → α) (hpart : ∀ (c : Cell) (value : Option Datum) (notifying : Bool),
    part { c with value := value, notifying := notifying } = part c) (s' : Source) :
    part ((l.change s d).cell s') = part (l.cell s') := by
  rw [change_eq]
  exact part_setCell part (hpart (l.cell s) _ _) s'

theorem cell_change_of_ne {s' : Source} (h : s' ≠ s) : (l.change s d).cell s' = l.cell s' := by
  rw [change_eq]
  exact cell_setCell_of_ne h

theorem cell_change_self : (l.change s d).cell s = { l.cell s with
    value := some d
    notifying := (l.cell s).notifying || !(l.cell s).watchers.isEmpty } := by
  rw [change_eq]
  exact cell_setCell_self

theorem session_change : (l.change s d).session = l.session := by
  rw [change_eq]
  rfl

theorem Standing.change {l : Ledger} {sheet : Sheet} {pins : List Pin} (h : sheet.Standing pins l) (s : Source)
    (d : Datum) : sheet.Standing pins (l.change s d) := by
  have hdropped := part_change l s d Cell.dropped fun _ _ _ ↦ rfl
  rw [change_eq] at hdropped ⊢
  exact { h with undropped := fun id hid ↦ (hdropped _).trans (h.undropped id hid) }

end Change

namespace Named

variable {reserved : List String}

/-- A name stands for one subscription. -/
theorem eq_of_registered (h : l.Named reserved) {s' : Source} {k k' : Nat} {name : String}
    (hs : l.Registered s k name) (hs' : l.Registered s' k' name) : s = s' ∧ k = k' := by
  have hsame := (h.stands s k name hs).symm.trans (h.stands s' k' name hs')
  rw [Option.some.injEq, Option.some.injEq, Prod.mk.injEq] at hsame
  exact ⟨Source.channel_injective hsame.1, hsame.2⟩

end Named

section Notes

/-- Who watches has a name. -/
theorem Pending.exists_registered (h : l.Pending) {e : Nat × Callback} (he : e ∈ (l.cell s).watchers.entries) :
    ∃ name, e = (e.1, .script name .every []) ∧ l.Registered s e.1 name := by
  obtain ⟨k, callback⟩ := e
  obtain ⟨name, hname⟩ := (h.tidy s).script _ he
  obtain rfl : callback = .script name .every [] := hname
  exact ⟨name, rfl, he⟩

/-- Asked for are those who watch, and those who were asked for before. -/
theorem Pending.asked_owe (h : l.Pending) (name : String) :
    .asked name ∈ (l.owe s).session.notes ↔ (∃ k, l.Registered s k name) ∨ .asked name ∈ l.session.notes := by
  unfold owe modifySession
  rw [List.mem_append, List.mem_map]
  refine or_congr_left ⟨?_, ?_⟩
  · rintro ⟨e, he, htitle⟩
    obtain ⟨name', hname', hregistered⟩ := h.exists_registered he
    rw [hname'] at htitle
    obtain rfl : name' = name := Note.asked.inj htitle
    exact ⟨e.1, hregistered⟩
  · rintro ⟨k, hk⟩
    exact ⟨_, hk, rfl⟩

@[simp] theorem lastTold_owe (name : String) :
    lastTold name (l.owe s).session.notes = lastTold name l.session.notes := by
  unfold owe modifySession lastTold
  dsimp only
  rw [List.findSome?_append, List.findSome?_eq_none_iff.mpr, Option.none_or]
  intro n hn
  obtain ⟨e, -, rfl⟩ := List.mem_map.mp hn
  rfl

theorem lastTold_note_value (name name' : String) (d : Datum) (notes : List Note) :
    lastTold name' (.value name d :: notes) = if name = name' then some d else lastTold name' notes := by
  by_cases h : name = name' <;> simp [lastTold, h]

theorem asked_note_value (name name' : String) (d : Datum) (notes : List Note) :
    Note.asked name' ∈ Note.value name d :: notes ↔ Note.asked name' ∈ notes := by
  rw [List.mem_cons, or_iff_right Note.noConfusion]

theorem getElem?_entitle (name name' : String) (subscription : Subscription) :
    (l.entitle name subscription).session.subscriptions[name']? =
      if name = name' then some subscription else l.session.subscriptions[name']? := by
  unfold entitle modifySession
  dsimp only
  rw [Std.TreeMap.getElem?_insert]
  simp only [compare_eq_iff_eq]

end Notes

end Ledger

end LiveGraph
