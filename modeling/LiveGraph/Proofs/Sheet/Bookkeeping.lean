import LiveGraph.Proofs.Sheet.Books

/-!
# Keeping the books

Each step keeps the books: a change and a first value, a name that is given, somebody who watches or watches no
longer, and the calls that tell a value, from their beginning on.
-/

namespace LiveGraph

open Sheet

namespace Ledger

variable {l l' : Ledger} {s : Source} {c : Cell} {reserved : List String}

theorem Current.congr {name : String} (h : l.Current s name) (hvalue : (l'.cell s).value = (l.cell s).value)
    (hnotes : l'.session.notes = l.session.notes) : l'.Current s name := by
  constructor
  · rw [hnotes]
    exact h.told
  · rw [hnotes, hvalue]
    exact h.current

/-- A cell may change, as long as it waits no more and no less, and has something to tell if it waits. -/
theorem Pending.setCell (h : l.Pending) (htidy : c.watchers.Tidy) (hnotifying : c.notifying = (l.cell s).notifying)
    (hvalued : c.notifying = true → c.value.isSome) : (l.setCell s c).Pending where
  tidy s' := by
    by_cases hs : s' = s
    · subst hs
      rw [cell_setCell_self]
      exact htidy
    · rw [cell_setCell_of_ne hs]
      exact h.tidy s'
  effect_iff s' := by
    rw [part_setCell Cell.notifying hnotifying]
    exact h.effect_iff s'
  noView := h.noView
  nodup := h.nodup
  valued s' := by
    by_cases hs : s' = s
    · subst hs
      rw [cell_setCell_self]
      exact hvalued
    · rw [cell_setCell_of_ne hs]
      exact h.valued s'

/-- A change of a source makes it wait, if it does not wait yet and anybody watches it. -/
theorem Pending.change (h : l.Pending) (s : Source) (d : Datum) : (l.change s d).Pending := by
  have hwatchers := part_change l s d Cell.watchers fun _ _ _ ↦ rfl
  have htidy (s' : Source) : ((l.change s d).cell s').watchers.Tidy := (hwatchers s').symm ▸ h.tidy s'
  have hvalued (s' : Source) : ((l.change s d).cell s').notifying = true →
      ((l.change s d).cell s').value.isSome := by
    by_cases hs : s' = s
    · subst hs
      rw [cell_change_self]
      exact fun _ ↦ rfl
    · rw [cell_change_of_ne l s d hs]
      exact h.valued s'
  by_cases hquiet : ((l.cell s).watchers.isEmpty || (l.cell s).notifying) = true
  · have heffects : (l.change s d).effects = l.effects := by
      rw [change_eq, if_pos hquiet]
    refine ⟨htidy, fun s' ↦ ?_, heffects ▸ h.noView, heffects ▸ h.nodup, hvalued⟩
    rw [heffects, h.effect_iff]
    by_cases hs : s' = s
    · subst hs
      rw [cell_change_self]
      rcases (Bool.or_eq_true _ _).mp hquiet with hempty | hnotifying
      · simp [hempty]
      · simp [hnotifying]
    · rw [cell_change_of_ne l s d hs]
  · have heffects : (l.change s d).effects = l.effects ++ [s.effect] := by
      rw [change_eq, if_neg hquiet]
    rw [Bool.or_eq_true, not_or, Bool.not_eq_true, Bool.not_eq_true] at hquiet
    have hnew : s.effect ∉ l.effects := fun hmem ↦ by
      rw [(h.effect_iff s).mp hmem] at hquiet
      exact Bool.noConfusion hquiet.2
    refine ⟨htidy, fun s' ↦ ?_, fun id hid ↦ ?_, ?_, hvalued⟩
    · rw [heffects, List.mem_append, List.mem_singleton]
      by_cases hs : s' = s
      · subst hs
        rw [cell_change_self, hquiet.1]
        exact iff_of_true (.inr rfl) (Bool.or_true _)
      · rw [cell_change_of_ne l s d hs, or_iff_left fun heq ↦ hs (Source.effect_injective heq)]
        exact h.effect_iff s'
    · rcases List.mem_append.mp (heffects ▸ hid) with hid | hid
      · exact h.noView id hid
      · cases s <;> exact Effect.noConfusion (List.mem_singleton.mp hid)
    · rw [heffects]
      exact List.nodup_append.mpr ⟨h.nodup, List.nodup_singleton _, fun e he e' he' ↦ by
        rw [List.mem_singleton.mp he']
        exact fun heq ↦ hnew (heq ▸ he)⟩

/-- The source that is to be told first waits no longer. -/
theorem Pending.quiet {rest : List Effect} (h : l.Pending) (heffects : l.effects = s.effect :: rest) :
    (l.quiet s rest).Pending := by
  have hnodup := List.nodup_cons.mp (heffects ▸ h.nodup)
  have hwatchers := part_setCell (l := l) (s := s) Cell.watchers (c := { l.cell s with notifying := false }) rfl
  refine ⟨fun s' ↦ (hwatchers s').symm ▸ h.tidy s', fun s' ↦ ?_, fun id hid ↦ ?_, hnodup.2, fun s' ↦ ?_⟩
  · unfold Ledger.quiet
    dsimp only
    by_cases hs : s' = s
    · subst hs
      rw [cell_setCell_self]
      exact iff_of_false hnodup.1 Bool.false_ne_true
    · rw [cell_setCell_of_ne hs, ← h.effect_iff s', heffects, List.mem_cons,
        or_iff_right fun heq ↦ hs (Source.effect_injective heq)]
  · exact h.noView id (heffects ▸ List.mem_cons_of_mem _ hid)
  · unfold Ledger.quiet
    dsimp only
    by_cases hs : s' = s
    · subst hs
      rw [cell_setCell_self]
      exact fun hnot ↦ Bool.noConfusion hnot
    · rw [cell_setCell_of_ne hs]
      exact h.valued s'

/-- Names stand for what they stood for as long as nobody new watches. -/
theorem Named.mono (h : l.Named reserved)
    (hregistered : ∀ s k name, l'.Registered s k name → l.Registered s k name) (hsession : l'.session = l.session) :
    l'.Named reserved := by
  constructor
  · rw [hsession]
    exact fun s k name hregistered' ↦ h.stands s k name (hregistered s k name hregistered')
  · rw [hsession]
    exact h.reserved
  · rw [hsession]
    exact h.unheard

/-- Who is asked for is registered. -/
theorem Named.owe (h : l.Named reserved) (hpending : l.Pending) (s : Source) : (l.owe s).Named reserved where
  stands := h.stands
  reserved := h.reserved
  unheard name hname := by
    have hbefore := h.unheard name hname
    rw [hpending.asked_owe, lastTold_owe]
    refine ⟨?_, hbefore.2⟩
    rintro (⟨k, hk⟩ | hasked)
    · exact hname _ (h.stands s k name hk)
    · exact hbefore.1 hasked

/-- A name that stands for nothing yet is reserved. -/
theorem Named.reserve (h : l.Named reserved) {name : String} (hname : l.session.subscriptions[name]? = none) :
    (l.entitle name none).Named (name :: reserved) := by
  refine ⟨fun s k name' hregistered ↦ ?_, fun name' hmem ↦ ?_, fun name' hname' ↦ ?_⟩
  · have hstands := h.stands s k name' hregistered
    have hne : name ≠ name' := fun heq ↦ by
      rw [heq, hstands] at hname
      exact nomatch hname
    rw [getElem?_entitle, if_neg hne, hstands]
  · rw [getElem?_entitle]
    by_cases heq : name = name'
    · rw [if_pos heq]
    · rw [if_neg heq]
      exact h.reserved name' ((List.mem_cons.mp hmem).resolve_left (Ne.symm heq))
  · refine h.unheard name' fun e he ↦ hname' e ?_
    have hne : name ≠ name' := fun heq ↦ by
      rw [heq, he] at hname
      exact nomatch hname
    rw [getElem?_entitle, if_neg hne, he]

/-- A name that was reserved may stand for anything that no other name stands for. -/
theorem Named.give (h : l.Named (name :: reserved)) {subscription : Subscription}
    (hstands : ∀ s k name', l'.Registered s k name' →
      name' ≠ name ∧ l.Registered s k name' ∨ name' = name ∧ subscription = some (s.channel, k))
    (hnodup : name ∉ reserved) (hl' : l'.session = (l.entitle name subscription).session) : l'.Named reserved := by
  have hreserved := h.reserved name List.mem_cons_self
  refine ⟨fun s k name' hregistered ↦ ?_, fun name' hmem ↦ ?_, fun name' hname' ↦ ?_⟩
  · rw [hl', getElem?_entitle]
    rcases hstands s k name' hregistered with ⟨hne, hbefore⟩ | ⟨rfl, rfl⟩
    · rw [if_neg (Ne.symm hne)]
      exact h.stands s k name' hbefore
    · rw [if_pos rfl]
  · have hne : name ≠ name' := fun heq ↦ hnodup (heq ▸ hmem)
    rw [hl', getElem?_entitle, if_neg hne]
    exact h.reserved name' (List.mem_cons_of_mem _ hmem)
  · rw [hl'] at hname' ⊢
    refine h.unheard name' fun e he ↦ ?_
    by_cases heq : name = name'
    · rw [← heq, hreserved] at he
      exact nomatch he
    · refine hname' e ?_
      rw [getElem?_entitle, if_neg heq, he]

/-- What goes on while nobody is told: sources that wait go on waiting, and what was told last is what a source
holds as long as it does not wait. -/
structure Onward (l l' : Ledger) : Prop where
  later : ∀ s, (l.cell s).watchers.Later (l'.cell s).watchers
  undisposed : ∀ s, (l'.cell s).disposed = false → (l.cell s).disposed = false
  waiting : ∀ s, (l.cell s).notifying = true → (l'.cell s).notifying = true
  value : ∀ s d, (l.cell s).watchers.entries ≠ [] → (l.cell s).value = some d →
    (l'.cell s).notifying = true ∨ (l'.cell s).value = some d
  current : ∀ s k name, l.Registered s k name → l.Current s name →
    (l'.cell s).notifying = true ∨ l'.Current s name

/-- Where no cell changes and nothing is written down, nothing has to be told. -/
theorem Onward.of_cell_eq (hcell : l'.cell = l.cell) (hsession : l'.session = l.session) : l.Onward l' where
  later s := by
    rw [hcell]
    exact .refl _
  undisposed s := by
    rw [hcell]
    exact id
  waiting s := by
    rw [hcell]
    exact id
  value s d _ := by
    rw [hcell]
    exact .inr
  current s k name _ hcurrent :=
    .inr (hcurrent.congr (congrArg (fun cell ↦ (cell s).value) hcell) (congrArg Session.notes hsession))

/-- A change of who watches one source. -/
theorem Onward.setCell (hlater : (l.cell s).watchers.Later c.watchers)
    (hundisposed : c.disposed = false → (l.cell s).disposed = false)
    (hnotifying : c.notifying = (l.cell s).notifying) (hvalue : c.value = (l.cell s).value) :
    l.Onward (l.setCell s c) where
  later s' := by
    by_cases hs : s' = s
    · subst hs
      rw [cell_setCell_self]
      exact hlater
    · rw [cell_setCell_of_ne hs]
      exact .refl _
  undisposed s' := by
    by_cases hs : s' = s
    · subst hs
      rw [cell_setCell_self]
      exact hundisposed
    · rw [cell_setCell_of_ne hs]
      exact id
  waiting s' := by
    rw [part_setCell Cell.notifying hnotifying]
    exact id
  value s' d _ := by
    rw [part_setCell Cell.value hvalue]
    exact .inr
  current s' k name _ hcurrent := .inr (hcurrent.congr (part_setCell Cell.value hvalue s') rfl)

/-- A change makes those wait who have to be told of it. -/
theorem Onward.change (hnamed : l.Named reserved) (hpending : l.Pending) (s : Source) (d : Datum) :
    l.Onward ((l.owe s).change s d) where
  later s' := by
    rw [part_change (l.owe s) s d Cell.watchers fun _ _ _ ↦ rfl]
    exact .refl _
  undisposed s' := by
    rw [part_change (l.owe s) s d Cell.disposed fun _ _ _ ↦ rfl]
    exact id
  waiting s' hnotifying := by
    by_cases hs : s' = s
    · subst hs
      rw [cell_change_self]
      exact (Bool.or_eq_true _ _).mpr (.inl hnotifying)
    · rw [cell_change_of_ne _ s d hs]
      exact hnotifying
  value s' d' hwatched hvalue := by
    by_cases hs : s' = s
    · subst hs
      rw [cell_change_self]
      refine .inl ((Bool.or_eq_true _ _).mpr (.inr ?_))
      exact (Bool.not_eq_true' _).mpr (List.isEmpty_eq_false_iff.mpr hwatched)
    · rw [cell_change_of_ne _ s d hs]
      exact .inr hvalue
  current s' k name hregistered hcurrent := by
    by_cases hs : s' = s
    · subst hs
      rw [cell_change_self]
      refine .inl ((Bool.or_eq_true _ _).mpr (.inr ?_))
      exact (Bool.not_eq_true' _).mpr (List.isEmpty_eq_false_iff.mpr (List.ne_nil_of_mem hregistered))
    · refine .inr ⟨?_, ?_⟩
      · rw [session_change, hpending.asked_owe, lastTold_owe]
        rintro (⟨k', hk'⟩ | hasked)
        · exact absurd (hnamed.eq_of_registered hregistered hk').1 hs
        · exact hcurrent.told hasked
      · rw [session_change, lastTold_owe, cell_change_of_ne _ s d hs]
        exact hcurrent.current

/-- A first value is told to nobody, and nobody was told another one. -/
theorem Onward.setValue (hnone : (l.cell s).value = none) (d : Datum) : l.Onward (l.setValue s d) where
  later s' := by
    rw [part_setValue Cell.watchers fun _ _ ↦ rfl]
    exact .refl _
  undisposed s' := by
    rw [part_setValue Cell.disposed fun _ _ ↦ rfl]
    exact id
  waiting s' := by
    rw [part_setValue Cell.notifying fun _ _ ↦ rfl]
    exact id
  value s' d' _ hvalue := by
    have hs : s' ≠ s := fun hs ↦ by
      rw [hs, hnone] at hvalue
      exact nomatch hvalue
    rw [Ledger.setValue, cell_setCell_of_ne hs]
    exact .inr hvalue
  current s' k name _ hcurrent := by
    by_cases hs : s' = s
    · subst hs
      refine .inr ⟨hcurrent.told, fun d' hd' ↦ ?_⟩
      have hvalue := hcurrent.current d' hd'
      rw [hnone] at hvalue
      exact nomatch hvalue
    · refine .inr (hcurrent.congr ?_ rfl)
      rw [Ledger.setValue, cell_setCell_of_ne hs]

/-- Giving a name to something is nothing that has to be told. -/
theorem Onward.entitle (h : l.Onward l') (name : String) (subscription : Subscription) :
    l.Onward (l'.entitle name subscription) :=
  { h with current := fun s k name' hregistered hcurrent ↦
      (h.current s k name' hregistered hcurrent).imp_right fun hcurrent' ↦ hcurrent'.congr rfl rfl }

end Ledger

/-- Whom the calls have still to reach after one of them. -/
theorem Pass.Underway.tail {l : Ledger} {s : Source} {v : Datum} {e : Nat × Callback} {rest : List (Nat × Callback)}
    (h : (⟨s, v, e :: rest⟩ : Pass).Underway l) : (⟨s, v, rest⟩ : Pass).Underway l :=
  ⟨fun e he ↦ h.le_issued e (List.mem_cons_of_mem _ he), fun e he ↦ h.eq_of_number e (List.mem_cons_of_mem _ he),
    fun e he ↦ h.current e (List.mem_cons_of_mem _ he)⟩

theorem Pass.Underway.onward {p : Pass} {l l' : Ledger} (h : p.Underway l) (honward : l.Onward l') :
    p.Underway l' := by
  have hlater := honward.later p.source
  have hbefore (e : Nat × Callback) (he : e ∈ (l'.cell p.source).watchers.entries)
      (hle : e.1 ≤ (l.cell p.source).watchers.issued) : e ∈ (l.cell p.source).watchers.entries :=
    (hlater.mem_or_lt e he).resolve_right (Nat.not_lt.mpr hle)
  refine ⟨fun e he ↦ Nat.le_trans (h.le_issued e he) hlater.issued_le, fun e he e' he' hsame ↦ ?_,
    fun e he hin ↦ ?_⟩
  · exact h.eq_of_number e he e' (hbefore e' he' (hsame ▸ h.le_issued e he)) hsame
  · have hin' := hbefore e hin (h.le_issued e he)
    rcases h.current e he hin' with hnotifying | hvalue
    · exact .inl (honward.waiting _ hnotifying)
    · exact honward.value _ _ (List.ne_nil_of_mem hin') hvalue

namespace Sheet.Books

open Ledger

variable {sheet : Sheet} {t t' : Terms sheet} {l l' : Ledger} {s : Source}

/-- The books are kept while nobody is told, if everybody new was not to be told anything yet. -/
theorem onward (h : Books t l) (hpass : t'.pass = t.pass) (hstanding : sheet.Standing t'.pins l')
    (hpending : l'.Pending) (hnamed : l'.Named t'.reserved) (honward : l.Onward l')
    (hnew : ∀ s k name, l'.Registered s k name → l.Registered s k name ∨ l'.Current s name) : Books t' l' := by
  refine ⟨hstanding, hpending, hnamed, fun p hp ↦ (h.underway p (hpass ▸ hp)).onward honward,
    fun s k name hdisposed hregistered ↦ ?_⟩
  rcases hnew s k name hregistered with hbefore | hcurrent
  · rcases h.heard s k name (honward.undisposed s hdisposed) hbefore with hnotifying | hawaits | hcurrent
    · exact .inl (honward.waiting s hnotifying)
    · refine .inr (.inl ?_)
      unfold Terms.Awaits
      rw [hpass]
      exact hawaits
    · exact (honward.current s k name hbefore hcurrent).imp_right .inr
  · exact .inr (.inr hcurrent)

/-- A source that changes waits to be told, if anybody watches it. -/
theorem change (h : Books t l) (s : Source) (d : Datum) : Books t ((l.owe s).change s d) := by
  have hregistered (s' : Source) (k : Nat) (name : String) :
      ((l.owe s).change s d).Registered s' k name → l.Registered s' k name := by
    unfold Registered
    rw [part_change (l.owe s) s d Cell.watchers fun _ _ _ ↦ rfl]
    exact id
  have hstanding : sheet.Standing t.pins (l.owe s) := { h.standing with }
  have hpending : (l.owe s).Pending := { h.pending with }
  exact h.onward rfl (Standing.change hstanding s d) (hpending.change s d)
    ((h.named.owe h.pending s).mono hregistered (session_change _ s d)) (.change h.named h.pending s d)
    fun s' k name hk ↦ .inl (hregistered s' k name hk)

/-- A source comes to hold a first value. -/
theorem setValue (h : Books t l) {s : Source} (hnone : (l.cell s).value = none) (d : Datum) :
    Books t (l.setValue s d) := by
  have hregistered := registered_setCell (l := l) (s := s) (c := { l.cell s with value := some d }) rfl
  exact h.onward rfl (Standing.setCell h.standing rfl) (h.pending.setCell (h.pending.tidy s) rfl fun _ ↦ rfl)
    (h.named.mono (fun s' k name ↦ (hregistered s' k name).mp) rfl) (.setValue hnone d)
    fun s' k name hk ↦ .inl ((hregistered s' k name).mp hk)

/-- A name is about to be given. -/
theorem reserve (h : Books t l) {name : String} (hname : l.session.subscriptions[name]? = none) :
    Books (t.reserving name) (l.entitle name none) :=
  h.onward rfl { h.standing with } { h.pending with } (h.named.reserve hname) (.entitle (.of_cell_eq rfl rfl) name none)
    fun _ _ _ hk ↦ .inl hk

/-- A name that is about to be given was told nothing. -/
theorem silent {name : String} (h : Books (t.reserving name) l) :
    .asked name ∉ l.session.notes ∧ lastTold name l.session.notes = none :=
  h.named.unheard name fun e he ↦ by
    rw [h.named.reserved name List.mem_cons_self] at he
    exact nomatch he

theorem not_registered {name : String} (h : Books (t.reserving name) l) (s : Source) (k : Nat) :
    ¬l.Registered s k name := fun hk ↦ by
  have hstands := h.named.stands s k name hk
  rw [h.named.reserved name List.mem_cons_self] at hstands
  exact nomatch hstands

/-- A name is given to a new subscription. -/
theorem subscribe {name : String} (h : Books (t.reserving name) l) (hfresh : name ∉ t.reserved) (s : Source) :
    Books t (l.subscribe s name) := by
  have hadded (s' : Source) (k : Nat) (name' : String) (hk : (l.subscribe s name).Registered s' k name') :
      l.Registered s' k name' ∨ name' = name ∧ s' = s ∧ k = (l.cell s).watchers.issued + 1 := by
    unfold Ledger.subscribe Ledger.setWatchers Registered at hk
    by_cases hs : s' = s
    · subst hs
      unfold entitle Ledger.modifySession at hk
      dsimp only at hk
      rw [cell_setCell_self] at hk
      rcases List.mem_append.mp hk with hk | hk
      · exact .inl hk
      · rw [List.mem_singleton, Prod.mk.injEq, Callback.script.injEq] at hk
        exact .inr ⟨hk.2.1, rfl, hk.1⟩
    · unfold entitle Ledger.modifySession at hk
      dsimp only at hk
      rw [cell_setCell_of_ne hs] at hk
      exact .inl hk
  have hsilent := h.silent
  refine h.onward rfl ?_ ?_ (h.named.give (fun s' k name' hk ↦ ?_) hfresh rfl) ?_ fun s' k name' hk ↦ ?_
  · have hstanding : sheet.Standing t.pins (l.setWatchers s (·.add (.script name .every []))) :=
      Standing.setCell h.standing rfl
    exact { hstanding with }
  · have hpending : (l.setWatchers s (·.add (.script name .every []))).Pending :=
      h.pending.setCell ((h.pending.tidy s).add name) rfl (h.pending.valued s)
    exact { hpending with }
  · rcases hadded s' k name' hk with hbefore | ⟨rfl, rfl, rfl⟩
    · exact .inl ⟨fun heq ↦ h.not_registered s' k (heq ▸ hbefore), hbefore⟩
    · exact .inr ⟨rfl, rfl⟩
  · have honward : l.Onward (l.setWatchers s (·.add (.script name .every []))) :=
      .setCell (.add (l.cell s).watchers (.script name .every [])) id rfl rfl
    exact honward.entitle name _
  · rcases hadded s' k name' hk with hbefore | ⟨rfl, -, -⟩
    · exact .inl hbefore
    · refine .inr ⟨fun hasked ↦ absurd hasked hsilent.1, fun d hd ↦ ?_⟩
      rw [show (l.subscribe s name').session.notes = l.session.notes from rfl, hsilent.2] at hd
      exact nomatch hd

/-- A name stands for nothing where nobody could be registered. -/
theorem refuse {name : String} (h : Books (t.reserving name) l) (hfresh : name ∉ t.reserved) :
    Books t (l.entitle name none) :=
  h.onward rfl { h.standing with } { h.pending with }
    (h.named.give (fun s k _ hk ↦ .inl ⟨fun heq ↦ h.not_registered s k (heq ▸ hk), hk⟩) hfresh rfl)
    (.entitle (.of_cell_eq rfl rfl) name none) fun _ _ _ hk ↦ .inl hk

/-- Somebody watches a source no longer, or the source has ended and nobody does. -/
theorem shrink (h : Books t l) {s : Source} {ws : Watchers} {disposed : Bool} (htidy : ws.Tidy)
    (hissued : ws.issued = (l.cell s).watchers.issued) (hentries : ws.entries ⊆ (l.cell s).watchers.entries)
    (hdisposed : disposed = false → (l.cell s).disposed = false) :
    Books t (l.setCell s { l.cell s with watchers := ws, disposed := disposed }) := by
  have hregistered (s' : Source) (k : Nat) (name : String)
      (hk : (l.setCell s { l.cell s with watchers := ws, disposed := disposed }).Registered s' k name) :
      l.Registered s' k name := by
    unfold Registered at hk
    by_cases hs : s' = s
    · subst hs
      rw [cell_setCell_self] at hk
      exact hentries hk
    · rw [cell_setCell_of_ne hs] at hk
      exact hk
  exact h.onward rfl (Standing.setCell h.standing rfl) (h.pending.setCell htidy rfl (h.pending.valued s))
    (h.named.mono hregistered rfl)
    (.setCell ⟨Nat.le_of_eq hissued.symm, fun e he ↦ .inl (hentries he)⟩ hdisposed rfl rfl)
    fun s' k name hk ↦ .inl (hregistered s' k name hk)

section Telling

variable {v : Datum} {k : Nat} {name : String} {rest : List (Nat × Callback)}

theorem awaits_cons {callback : Callback} {s' : Source} {k' : Nat}
    (h : (t.passing (some ⟨s, v, (k, callback) :: rest⟩)).Awaits s' k') :
    s' = s ∧ k' = k ∨ (t.passing (some ⟨s, v, rest⟩)).Awaits s' k' := by
  obtain ⟨p, hp, rfl, e, he, rfl⟩ := h
  obtain rfl := Option.some.inj hp
  rcases List.mem_cons.mp he with rfl | he
  · exact .inl ⟨rfl, rfl⟩
  · exact .inr ⟨_, rfl, rfl, e, he, rfl⟩

/-- The source that is to be told first waits no longer, and its calls are under way, or it has ended. -/
theorem quiet {effects : List Effect} (h : Books t l) (hnone : t.pass = none)
    (heffects : l.effects = s.effect :: effects)
    (hunderway : ∀ p, t'.pass = some p → p.Underway (l.quiet s effects))
    (hs : ∀ k name, (l.cell s).disposed = false → l.Registered s k name → t'.Awaits s k)
    (hpins : t'.pins = t.pins) (hreserved : t'.reserved = t.reserved) : Books t' (l.quiet s effects) := by
  have hregistered := registered_setCell (l := l) (s := s) (c := { l.cell s with notifying := false }) rfl
  refine ⟨?_, h.pending.quiet heffects, ?_, hunderway, fun s' k name hdisposed hk ↦ ?_⟩
  · have hstanding : sheet.Standing t.pins (l.setCell s { l.cell s with notifying := false }) :=
      Standing.setCell h.standing rfl
    rw [hpins]
    exact { hstanding with }
  · rw [hreserved]
    exact h.named.mono (fun s' k name ↦ (hregistered s' k name).mp) rfl
  · have hbefore : l.Registered s' k name := (hregistered s' k name).mp hk
    have hundisposed : (l.cell s').disposed = false := by
      rw [← part_setCell (s := s) (c := { l.cell s with notifying := false }) Cell.disposed rfl s']
      exact hdisposed
    by_cases heq : s' = s
    · subst heq
      exact .inr (.inl (hs k name hundisposed hbefore))
    · have hcell : (l.quiet s effects).cell s' = l.cell s' := cell_setCell_of_ne heq
      rcases h.heard s' k name hundisposed hbefore with hnotifying | ⟨p, hp, -⟩ | hcurrent
      · exact .inl (hcell ▸ hnotifying)
      · rw [hnone] at hp
        exact nomatch hp
      · exact .inr (.inr (hcurrent.congr (congrArg Cell.value hcell) rfl))

/-- The calls that tell what a source holds begin: everybody who watches it is on the list. -/
theorem begin {effects : List Effect} (h : Books t l) (hnone : t.pass = none)
    (heffects : l.effects = s.effect :: effects) (hv : (l.cell s).value = some v) :
    Books (t.passing (some ⟨s, v, (l.cell s).watchers.entries⟩)) (l.quiet s effects) := by
  have hcell : (l.quiet s effects).cell s = { l.cell s with notifying := false } := cell_setCell_self
  refine h.quiet hnone heffects (fun p hp ↦ ?_) (fun k name _ hk ↦ ⟨_, rfl, rfl, _, hk, rfl⟩) rfl rfl
  obtain rfl := Option.some.inj hp
  refine ⟨fun e he ↦ ?_, fun e he e' he' hsame ↦ ?_, fun e _ _ ↦ .inr ?_⟩
  · rw [hcell]
    exact (h.pending.tidy s).le_issued e he
  · rw [hcell] at he'
    exact List.inj_on_of_nodup_map (h.pending.tidy s).nodup he' he hsame
  · rw [hcell]
    exact hv

/-- A call tells who is on the list what the source holds, and strikes it off. -/
theorem told (h : Books (t.passing (some ⟨s, v, (k, .script name .every []) :: rest⟩)) l)
    (hk : l.Registered s k name) :
    Books (t.passing (some ⟨s, v, rest⟩)) (l.note (.value name v)) := by
  have hunderway := h.underway _ rfl
  refine ⟨{ h.standing with }, { h.pending with }, ?_, fun p hp ↦ ?_, fun s' k' name' hdisposed hk' ↦ ?_⟩
  · refine ⟨h.named.stands, h.named.reserved, fun name' hname' ↦ ?_⟩
    have hne : name ≠ name' := fun heq ↦ hname' _ (heq ▸ h.named.stands s k name hk)
    have hbefore := h.named.unheard name' hname'
    unfold Ledger.note Ledger.modifySession
    rw [asked_note_value, lastTold_note_value, if_neg hne]
    exact hbefore
  · obtain rfl := Option.some.inj hp
    have htail := hunderway.tail
    exact { htail with }
  · have hbefore : l.Registered s' k' name' := hk'
    by_cases heq : name = name'
    · subst heq
      obtain ⟨rfl, rfl⟩ := h.named.eq_of_registered hbefore hk
      refine (hunderway.current _ List.mem_cons_self hk).imp_right fun hvalue ↦ .inr ?_
      unfold Ledger.note Ledger.modifySession
      constructor
      · rw [lastTold_note_value, if_pos rfl]
        exact fun _ ↦ rfl
      · rw [lastTold_note_value, if_pos rfl]
        rintro d ⟨⟩
        exact hvalue
    · rcases h.heard s' k' name' hdisposed hbefore with hnotifying | hawaits | hcurrent
      · exact .inl hnotifying
      · rcases awaits_cons hawaits with ⟨rfl, rfl⟩ | hawaits
        · have hsame := hunderway.eq_of_number _ List.mem_cons_self _ hbefore rfl
          rw [Prod.mk.injEq, Callback.script.injEq] at hsame
          exact absurd hsame.2.1.symm heq
        · exact .inr (.inl hawaits)
      · refine .inr (.inr ?_)
        unfold Ledger.note Ledger.modifySession
        constructor
        · rw [asked_note_value, lastTold_note_value, if_neg heq]
          exact hcurrent.told
        · rw [lastTold_note_value, if_neg heq]
          exact hcurrent.current

/-- Who is on the list but watches no longer is passed over. -/
theorem skip {callback : Callback} (h : Books (t.passing (some ⟨s, v, (k, callback) :: rest⟩)) l)
    (hgone : (l.cell s).watchers.contains k = false) : Books (t.passing (some ⟨s, v, rest⟩)) l := by
  refine ⟨h.standing, h.pending, h.named, fun p hp ↦ ?_, fun s' k' name' hdisposed hk' ↦ ?_⟩
  · obtain rfl := Option.some.inj hp
    exact (h.underway _ rfl).tail
  · rcases h.heard s' k' name' hdisposed hk' with hnotifying | hawaits | hcurrent
    · exact .inl hnotifying
    · rcases awaits_cons hawaits with ⟨rfl, rfl⟩ | hawaits
      · have hthere : (l.cell s').watchers.contains k' = true :=
          List.any_eq_true.mpr ⟨_, hk', decide_eq_true rfl⟩
        exact absurd (hthere.symm.trans hgone) (by decide)
      · exact .inr (.inl hawaits)
    · exact .inr (.inr hcurrent)

/-- When nobody is left on the list, the calls are over. -/
theorem finish (h : Books (t.passing (some ⟨s, v, []⟩)) l) (hnone : t.pass = none) : Books t l := by
  refine ⟨h.standing, h.pending, h.named, fun p hp ↦ ?_, fun s' k' name' hdisposed hk' ↦ ?_⟩
  · rw [hnone] at hp
    exact nomatch hp
  · rcases h.heard s' k' name' hdisposed hk' with hnotifying | ⟨p, hp, -, e, he, -⟩ | hcurrent
    · exact .inl hnotifying
    · obtain rfl := Option.some.inj hp
      exact absurd he List.not_mem_nil
    · exact .inr (.inr hcurrent)

end Telling

end Sheet.Books

end LiveGraph
