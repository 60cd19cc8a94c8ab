import LiveGraph.Proofs.Sheet.Keeping

/-!
# Deeds on a sheet

What code can do keeps the books, and so do flushes, code and callbacks, to any depth of calls: a flush at one
depth tells callbacks whose code is carried out one call further down.
-/

namespace LiveGraph.Sheet

open Act Ledger

variable {sheet : Sheet} {t t' : Terms sheet} {w w' : World} {d : Nat} {f : Bool} {C : World → Prop}

/-- What there is does not change. -/
theorem Kept.has_eq (h : Kept t w) (h' : Kept t' w') (s : Source) : w'.has s = w.has s := by
  have hsignals : w'.signals.size = w.signals.size := h'.standing.signals_eq.trans h.standing.signals_eq.symm
  have hderiveds : w'.deriveds.size = w.deriveds.size := h'.standing.deriveds_eq.trans h.standing.deriveds_eq.symm
  unfold World.has
  rw [hsignals, hderiveds]

theorem ledger_announce (w : World) (s : Source) (v : Datum) :
    (w.announce s v).ledger = if w.alters v s then w.ledger.owe s else w.ledger := by
  unfold World.announce
  split
  · cases s <;> rfl
  · rfl

/-- A write that is announced is a change, and one that is not is none. -/
theorem Kept.assigned (h : Kept t w) {id : SignalId} (hid : w.has (.signal id) = true) (v : Value) :
    Kept t ((w.announce (.signal id) (.value v)).assigned id v) := by
  have hledger := ledger_announce w (.signal id) (.value v)
  obtain ⟨session, heq⟩ := w.announce_eq (.signal id) (.value v)
  have hsignal : World.signal { w with session := session } id = w.signal id := rfl
  have hsize : id < ({ w with session := session } : World).signals.size := of_decide_eq_true hid
  rw [heq] at hledger ⊢
  unfold World.assigned Kept
  dsimp only
  rw [hsignal]
  by_cases halters : w.alters (.value v) (.signal id) = true
  · rw [if_pos halters] at hledger
    have hwrites : ¬((w.signal id).disposed ||
        (w.signal id).equality.holds (.value (w.signal id).value) (.value v)) = true := by
      simpa [World.alters, World.valueOf] using halters
    rw [if_neg hwrites, World.ledger_write _ hsize, hledger]
    exact h.change _ _
  · rw [if_neg halters] at hledger
    have hkeeps : ((w.signal id).disposed ||
        (w.signal id).equality.holds (.value (w.signal id).value) (.value v)) = true := by
      simpa [World.alters, World.valueOf, or_iff_not_imp_left] using halters
    rw [if_pos hkeeps, hledger]
    exact h

/-- Somebody watches a source no longer. -/
theorem at_unsubscribe (h : At (Kept t) d f w) {s : Source} (hs : w.has s = true) (k : Nat) :
    At (Kept t) d f (w.unsubscribe (some (s.channel, k))) := by
  have hkept : Kept t (w.unsubscribe (some (s.channel, k))) := by
    unfold Kept World.unsubscribe
    rw [w.ledger_modifyWatchers hs]
    exact h.holds.shrink ((h.holds.pending.tidy s).remove k) rfl (fun e he ↦ (List.mem_filter.mp he).1) id
  cases s with
  | signal id => exact ⟨⟨hkept, h.depth_eq, h.flushing_eq⟩, h.idle⟩
  | derived id => exact ⟨⟨hkept, h.depth_eq, h.flushing_eq⟩, h.idle⟩

/-- Where a source ends, nobody watches it any more. -/
theorem Kept.end (h : Kept t w) (s : Source) : Books t (w.ledger.setCell s { w.ledger.cell s with
    watchers := (w.ledger.cell s).watchers.clear
    disposed := true }) :=
  h.shrink ⟨⟨List.nodup_nil, fun _ he ↦ absurd he List.not_mem_nil⟩, fun _ he ↦ absurd he List.not_mem_nil⟩ rfl
    (List.nil_subset _) fun hnot ↦ nomatch hnot

theorem at_disposeSignal (h : At (Kept t) d f w) {id : SignalId} (hid : w.has (.signal id) = true) :
    At (Kept t) d f (w.disposeSignal id) := by
  unfold World.disposeSignal
  split
  · exact h
  · refine ⟨⟨?_, h.depth_eq, h.flushing_eq⟩, h.idle⟩
    unfold Kept
    rw [w.ledger_modifySignal (of_decide_eq_true hid)]
    exact h.holds.end (.signal id)

theorem agree_dispose {s : Source} (hw : At (Kept t) d f w) (hs : w.has s = true) :
    Agree (· = w) s.dispose s.dispose (fun _ ↦ At (Kept t) d f) C := by
  cases s with
  | signal id => exact agree_modify fun w' hw' ↦ hw' ▸ at_disposeSignal hw hs
  | derived id =>
    refine agree_get fun w' hw' ↦ ?_
    subst hw'
    refine agree_ite (fun _ ↦ agree_modify fun w'' hw'' ↦ ?_) fun _ ↦ agree_pure fun w'' hw'' ↦ hw'' ▸ hw
    subst hw''
    have hended : At (Kept t) d f (w''.modifyDerived id fun d ↦
        { d with disposed := true, watchers := d.watchers.clear, observers := [] }) := by
      refine ⟨⟨?_, hw.depth_eq, hw.flushing_eq⟩, hw.idle⟩
      unfold Kept
      rw [w''.ledger_modifyDerived (of_decide_eq_true hs)]
      exact hw.holds.end (.derived id)
    have hforgotten (w : World) : w.Undisturbed (w.modifyDerived id fun d ↦ { d with sources := [] }) := by
      apply World.Undisturbed.modifyDerived
      exact fun _ ↦ rfl
    have hlet (w : World) (ss : List Source) (h : At (Kept t) d f w) : At (Kept t) d f
        ((ss.foldl (fun w s ↦ w.removeObserver id s) w).modifyDerived id fun d ↦ { d with sources := [] }).reap := by
      have hrewired := World.rewired_foldl w (fun w s ↦ w.rewired_removeObserver id s) ss
      have hsame := (World.Undisturbed.of_rewired hrewired).trans (hforgotten _)
      have hdone := at_undisturbed h hsame (h.holds.undisturbed hsame)
      rw [hdone.holds.reap_eq]
      exact hdone
    exact hlet _ _ hended

theorem Kept.entitle {name : String} (h : Kept (t.reserving name) w) (hfresh : name ∉ t.reserved) {s : Source}
    (hs : w.has s = true) : Kept t ((w.modifyWatchers s.channel (·.add (.script name .every []))).entitle name
      (some (s.channel, (w.watchers s.channel).issued + 1))) := by
  have hledger : ((w.modifyWatchers s.channel (·.add (.script name .every []))).entitle name
      (some (s.channel, (w.watchers s.channel).issued + 1))).ledger = w.ledger.subscribe s name := by
    unfold Ledger.subscribe
    rw [← w.ledger_modifyWatchers hs, w.watchers_channel]
    rfl
  unfold Kept
  rw [hledger]
  exact Books.subscribe h hfresh s

/-- A subscription that was made stands under the name that was reserved for it. -/
theorem at_entitle {name : String} {s : Source} {subscription : Subscription} (hfresh : name ∉ t.reserved)
    (hs : ∀ w₀, Kept (t.reserving name) w₀ → w₀.has s = true)
    (h : subscription = none ∧ At (Kept (t.reserving name)) d f w ∨ ∃ w₀, At (Kept (t.reserving name)) d f w₀ ∧
      (subscription, w) = w₀.subscribe s.channel (.script name .every [])) :
    At (Kept t) d f (w.entitle name subscription) := by
  rcases h with ⟨rfl, h⟩ | ⟨w₀, h, heq⟩
  · exact ⟨⟨h.holds.refuse hfresh, h.depth_eq, h.flushing_eq⟩, h.idle⟩
  · obtain ⟨rfl, rfl⟩ := Prod.mk.inj heq
    have hkept := h.holds.entitle hfresh (hs w₀ h.holds)
    cases s with
    | signal id => exact ⟨⟨hkept, h.depth_eq, h.flushing_eq⟩, h.idle⟩
    | derived id => exact ⟨⟨hkept, h.depth_eq, h.flushing_eq⟩, h.idle⟩

section Performing

variable {D : Dispatch}
variable (hflush : ∀ t : Terms sheet, t.pass = none → Agree (Held (Kept t) 0 false) (@flush D) (@flush D)
  (fun _ ↦ At (Kept t) 0 false) fun _ ↦ False)
include hflush

theorem agree_write (hpass : f = false → t.pass = none) (hw : At (Kept t) d f w) {id : SignalId}
    (hs : w.has (.signal id) = true) (v : Value) : Agree (· = w) (@Deed.carryOut D (.write id v))
      (@Deed.carryOut D (.write id v)) (fun _ ↦ At (Kept t) d f) C := by
  have hannounced : At (· = w.announce (.signal id) (.value v)) d f (w.announce (.signal id) (.value v)) := by
    obtain ⟨session, heq⟩ := w.announce_eq (.signal id) (.value v)
    rw [heq]
    exact ⟨⟨rfl, hw.depth_eq, hw.flushing_eq⟩, hw.idle⟩
  refine agree_bind (agree_change _) fun _ ↦ agree_bind
    (agree_assign depthFree hannounced (hw.holds.assigned hs v) fun hd hf ↦ ?_) fun _ ↦ agree_pure fun _ h ↦ h
  subst hd
  exact (hflush t (hpass hf)).mono (fun _ h ↦ h) (fun _ _ h ↦ h) fun _ h ↦ h.elim

variable (hcompute : ComputesKeep sheet D)
include hcompute

/-- Somebody new watches a source under a name that was not given yet. -/
theorem agree_watch_named (hpass : f = false → t.pass = none) (hw : At (Kept t) d f w) {s : Source}
    (hs : w.has s = true) (name : String) : Agree (· = w) (@Deed.carryOut D (.watch s name))
      (@Deed.carryOut D (.watch s name)) (fun _ ↦ At (Kept t) d f) C := by
  refine agree_get fun w' hw' ↦ ?_
  subst hw'
  refine agree_ite (fun hnew ↦ ?_) fun _ ↦ agree_pure fun w'' hw'' ↦ hw'' ▸ hw
  have hnone : w'.ledger.session.subscriptions[name]? = none := by
    refine Std.TreeMap.getElem?_eq_none fun hmem ↦ ?_
    have hthere : w'.session.subscriptions.contains name = true := Std.TreeMap.contains_iff_mem.mpr hmem
    rw [hthere] at hnew
    exact Bool.noConfusion hnew
  have hfresh : name ∉ t.reserved := fun hmem ↦ by
    have hreserved := hw.holds.named.reserved name hmem
    rw [hnone] at hreserved
    exact nomatch hreserved
  have hreserving : At (Kept (t.reserving name)) d f (w'.entitle name none) :=
    ⟨⟨hw.holds.reserve hnone, hw.depth_eq, hw.flushing_eq⟩, hw.idle⟩
  refine agree_bind (agree_change _) fun _ ↦ agree_bind
    ((agree_watch (t := t.reserving name) hcompute hpass hflush s _).pre fun w'' hw'' ↦ hw'' ▸ hreserving)
    fun subscription ↦ agree_modify fun w'' hw'' ↦ ?_
  exact at_entitle hfresh (fun w₀ hkept ↦ (hw.holds.has_eq hkept s).trans hs) hw''

/-- What code can do keeps the books. -/
theorem agree_perform (hpass : f = false → t.pass = none) (deed : Deed) : Agree (At (Kept t) d f)
    (@Deed.perform D deed) (@Deed.perform D deed) (fun _ ↦ At (Kept t) d f) C := by
  refine agree_get fun w hw ↦ agree_ite (fun hs ↦ ?_) fun _ ↦ agree_pure fun w' hw' ↦ hw' ▸ hw
  cases deed with
  | write id v => exact agree_write hflush hpass hw hs v
  | read s =>
    cases s with
    | signal id =>
      exact agree_bind ((agree_read_signal id).pre fun w' hw' ↦ hw' ▸ hw) fun _ ↦ agree_pure fun _ h ↦ h
    | derived id =>
      exact agree_bind ((agree_read_derived hcompute hpass hflush id).pre fun w' hw' ↦ hw' ▸ hw)
        fun _ ↦ agree_pure fun _ h ↦ h
  | watch s name => exact agree_watch_named hflush hcompute hpass hw hs name
  | unwatch s id => exact agree_modify fun w' hw' ↦ hw' ▸ at_unsubscribe hw hs id
  | dispose s => exact agree_dispose hw hs

/-- Code keeps the books, also where it crashes. -/
theorem agree_run (hpass : f = false → t.pass = none) (c : Client Deed) (d : Nat) : Agree (At (Kept t) d f)
    (@Client.run Deed D (@Deed.perform D) c) (@Client.run Deed D (@Deed.perform D) c) (fun _ ↦ At (Kept t) d f)
    (Held (Kept t) d f) :=
  (Client.agree_run_checked_from (P := fun _ ↦ True) depthFree
    (fun deed _ _ ↦ agree_perform hflush hcompute hpass deed) (fun _ hf ↦ hflush t (hpass hf))
    (fun _ _ _ _ ↦ trivial) c d (Nat.zero_le d)).left

end Performing

end LiveGraph.Sheet
