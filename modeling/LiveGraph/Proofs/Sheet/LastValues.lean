import LiveGraph.Proofs.Sheet.Rounds

/-!
# Last values

Whatever code is carried out on a sheet, and whatever code its callbacks carry out, whenever no batch and no
flush is under way nobody who watches a source has missed what it holds. This is by induction on the depth of
calls: a flush at one depth tells callbacks whose code is carried out one call further down, and computes values
whose sources are brought up to date there.
-/

namespace LiveGraph.Sheet

open Act Ledger

variable {sheet : Sheet} {t : Terms sheet} {w : World} {react : String → Event → Client Deed}

section Depth

variable {d : Nat} {f : Bool}

/-- An evaluation is judged by what the source holds. -/
theorem judged_announce (h : At (Kept t) d f w) (id : DerivedId) (v : Datum) :
    At (fun w ↦ Judged t id v (w.frames.headD default).cyclic w) d f (w.announce (.derived id) v) := by
  have hledger := ledger_announce w (.derived id) v
  obtain ⟨session, heq⟩ := w.announce_eq (.derived id) v
  rw [heq] at hledger ⊢
  exact ⟨⟨⟨w.ledger, h.holds, hledger⟩, h.depth_eq, h.flushing_eq⟩, h.idle⟩

variable {n : Nat}

theorem computesKeep_succ (hcompute : ComputesKeep sheet (sheet.dispatch react n))
    (hcall : CallsKeep sheet (sheet.dispatch react n)) : ComputesKeep sheet (sheet.dispatch react (n + 1)) := by
  intro t id d f hpass
  have hflush := agree_flush_rounds hcompute hcall
  refine agree_bind (agree_reading hcompute hpass hflush (sheet.reading id)) fun v ↦
    agree_bind (agree_modify fun w hw ↦ ?_) fun _ ↦ agree_pure fun _ h ↦ h
  exact judged_announce hw id v

theorem callsKeep_succ (hcompute : ComputesKeep sheet (sheet.dispatch react n))
    (hcall : CallsKeep sheet (sheet.dispatch react n)) : CallsKeep sheet (sheet.dispatch react (n + 1)) := by
  intro t s v k name rest
  have hflush := agree_flush_rounds hcompute hcall
  have hcode := agree_run (t := t.passing (some ⟨s, v, rest⟩)) (f := true) hflush hcompute
    (fun hnot ↦ Bool.noConfusion hnot) (react name (.value v)) 0
  refine agree_bind (agree_modify fun w hw ↦ ?_) fun _ ↦ hcode.post fun _ _ h ↦ h.toHeld
  have htold : Kept (t.passing (some ⟨s, v, rest⟩)) (w.note (.value name v)) := hw.1.holds.told hw.2
  exact Held.at_busy ⟨htold, hw.1.depth_eq, hw.1.flushing_eq⟩ (.inr rfl)

/-- Computations and calls keep the books, at any depth. -/
theorem keeps (sheet : Sheet) (react : String → Event → Client Deed) (n : Nat) :
    ComputesKeep sheet (sheet.dispatch react n) ∧ CallsKeep sheet (sheet.dispatch react n) := by
  induction n with
  | zero => exact ⟨fun _ _ _ _ _ _ _ ↦ ⟨rfl, trivial⟩, fun _ _ _ _ _ _ _ _ ↦ ⟨rfl, trivial⟩⟩
  | succ n ih => exact ⟨computesKeep_succ ih.1 ih.2, callsKeep_succ ih.1 ih.2⟩

end Depth

section Start

variable (sheet)

/-- The terms of code that nothing is around. -/
def terms : Terms sheet :=
  ⟨sheet.handles, List.Subset.refl _, [], none⟩

/-- At first nobody watches. -/
theorem cell_start (s : Source) : (sheet.start.cell s).watchers = .empty ∧ (sheet.start.cell s).notifying = false := by
  cases s with
  | signal id =>
    unfold World.cell World.signal start
    dsimp only
    rw [Array.getD_eq_getD_getElem?, List.getElem?_toArray, List.getElem?_map]
    cases sheet.initial[id]? <;> exact ⟨rfl, rfl⟩
  | derived id =>
    unfold World.cell World.derived start
    dsimp only
    rw [Array.getD_eq_getD_getElem?, List.getElem?_toArray, List.getElem?_map]
    cases (List.range sheet.count)[id]? <;> exact ⟨rfl, rfl⟩

theorem not_registered_start (s : Source) (k : Nat) (name : String) : ¬sheet.start.ledger.Registered s k name := by
  have hwatchers : (sheet.start.ledger.cell s).watchers = .empty := (sheet.cell_start s).1
  unfold Registered
  rw [hwatchers]
  exact List.not_mem_nil

theorem undropped_start {id : DerivedId} (hid : id < sheet.count) : (sheet.start.derived id).dropped = false := by
  unfold World.derived start
  dsimp only
  rw [Array.getD_eq_getD_getElem?, List.getElem?_toArray, List.getElem?_map, List.getElem?_range hid]
  rfl

/-- At first the books are kept. -/
theorem kept_start : Kept sheet.terms sheet.start := by
  have hnobody := sheet.not_registered_start
  have hwatchers (s : Source) : (sheet.start.ledger.cell s).watchers = .empty := (sheet.cell_start s).1
  have hquiet (s : Source) : (sheet.start.ledger.cell s).notifying = false := (sheet.cell_start s).2
  refine ⟨⟨?_, ?_, rfl, rfl, fun _ hid ↦ sheet.undropped_start hid⟩, ⟨fun s ↦ ?_, fun s ↦ ?_, fun _ ↦ List.not_mem_nil,
    List.nodup_nil, fun s hs ↦ ?_⟩, ⟨fun s k name hk ↦ absurd hk (hnobody s k name),
    fun _ hname ↦ absurd hname List.not_mem_nil, fun _ _ ↦ ⟨List.not_mem_nil, rfl⟩⟩, fun _ hp ↦ (nomatch hp),
    fun s k name _ hk ↦ absurd hk (hnobody s k name)⟩
  · simp [World.ledger, start]
  · simp [World.ledger, start]
  · rw [hwatchers]
    exact .empty
  · rw [hquiet]
    exact iff_of_false List.not_mem_nil Bool.false_ne_true
  · rw [hquiet] at hs
    exact Bool.noConfusion hs

end Start

/-- Nobody has missed anything: each one who watches a source that has not ended has a name, under that name it
was told the value that the source holds, if that has changed since it came to watch, and no other value was told
after that one. -/
def Heard (w : World) : Prop :=
  ∀ s : Source, w.isDisposed s = false → ∀ e ∈ (w.watchers s.channel).entries,
    ∃ name, e.2 = .script name .every [] ∧
      (.asked name ∈ w.session.notes → (lastTold name w.session.notes).isSome) ∧
      ∀ d, lastTold name w.session.notes = some d → w.content s = some d

/-- Where nobody waits to be told, and no calls are under way, nobody has missed anything. -/
theorem heard_of_idle (h : At (Kept sheet.terms) 0 false w) : Heard w := by
  have heffects : w.effects = [] := (h.idle h.depth_eq h.flushing_eq).2
  intro s hdisposed e he
  rw [w.watchers_channel] at he
  rw [w.isDisposed_eq_disposed] at hdisposed
  obtain ⟨name, hname, hregistered⟩ := h.holds.pending.exists_registered he
  rcases h.holds.heard s e.1 name hdisposed hregistered with hnotifying | ⟨p, hp, -⟩ | hcurrent
  · have hmem : s.effect ∈ w.effects := (h.holds.pending.effect_iff s).mpr hnotifying
    rw [heffects] at hmem
    exact absurd hmem List.not_mem_nil
  · exact nomatch hp
  · refine ⟨name, congrArg Prod.snd hname, hcurrent.told, fun d hd ↦ ?_⟩
    rw [w.content_eq_value]
    exact hcurrent.current d hd

/-- Nobody who watches misses the last value. Whatever code is carried out, in batches and in callbacks that write
and watch, end subscriptions and crash, each time it looks at the world outside of batches nobody has missed
anything, and so it is when the code has come to an end. -/
theorem nobody_misses_last (sheet : Sheet) (react : String → Event → Client Deed) (n : Nat) (code : Client Deed) :
    letI := sheet.dispatch react n
    code.run Deed.perform sheet.start =
        (code.checked fun w ↦ w.depth = 0 → Heard w).run Deed.perform sheet.start ∧
      ∀ w, code.run Deed.perform sheet.start = .ok () w → Heard w := by
  obtain ⟨hcompute, hcall⟩ := keeps sheet react n
  have hflush := agree_flush_rounds hcompute hcall
  have hstart : At (Kept sheet.terms) 0 false sheet.start :=
    ⟨⟨sheet.kept_start, rfl, rfl⟩, fun _ _ ↦ ⟨rfl, rfl⟩⟩
  have hcode := Client.agree_run_checked_from (f := false) (P := fun w ↦ w.depth = 0 → Heard w) depthFree
    (fun deed _ _ ↦ agree_perform hflush hcompute (fun _ ↦ rfl) deed) (fun _ _ ↦ hflush sheet.terms rfl)
    (fun d w _ hw hdepth ↦ ?_) code 0 (Nat.le_refl 0)
  · obtain ⟨hsame, hout⟩ := hcode sheet.start hstart
    refine ⟨hsame, fun w hrun ↦ ?_⟩
    rw [hrun] at hout
    exact heard_of_idle hout
  · obtain rfl : d = 0 := hw.depth_eq.symm.trans hdepth
    exact heard_of_idle hw

/-- One signal, and a derived value that reads it. -/
def relay : Sheet where
  initial := [(.int 1, .same)]
  count := 1
  reading _ := .signal 0 fun v ↦ .done (.value v)
  equality _ := .same

/-- One callback writes the signal again while others wait to be told of it, and the other crashes. -/
example :
    let react : String → Event → Client Deed
      | "writes", .value (.value (.int 2)) => .act (.write 0 (.int 3)) .done
      | "crashes", _ => .halt .crash
      | _, _ => .done
    letI := relay.dispatch react 8
    let code : Client Deed := .act (.watch (.signal 0) "writes") <| .act (.watch (.signal 0) "last") <|
      .act (.watch (.derived 0) "crashes") <| .act (.write 0 (.int 2)) .done
    (match code.run Deed.perform relay.start with
      | .ok _ w => ["writes", "last", "crashes"].map fun name ↦ lastTold name w.session.notes
      | .error _ _ => []) = List.replicate 3 (some (.value (.int 3))) := by
  decide +kernel

end LiveGraph.Sheet
