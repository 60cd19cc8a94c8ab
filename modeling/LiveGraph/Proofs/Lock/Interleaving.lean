import LiveGraph.Task.Lock
import Mathlib.Data.Finset.Card
import Mathlib.Data.List.Perm.Basic

/-!
# Calls for locks, interleaved

Calls for the locks of one table are made, polled, handed the mutex they wait for, and dropped, in any order and
at any point. Nothing is assumed of a mutex except that it is handed to nobody while someone has it, and that
whoever is dropped has it no longer; in particular those who wait need not be served in the order they came.
-/

namespace LiveGraph.Lock

/-- How far a call for a lock has come. -/
inductive Stage
  /-- It was made, and not polled since. -/
  | idle
  /-- It was polled, and waits for a mutex. -/
  | waiting (mutex : Nat)
  /-- It was handed the mutex, and not polled since. -/
  | granted (mutex : Nat)
  /-- It has ended, and its guard holds the mutex. -/
  | holding (mutex : Nat)
  /-- It was dropped, or its guard was. -/
  | gone
  deriving DecidableEq

structure Call where
  key : String
  stage : Stage
  deriving DecidableEq

namespace Call

/-- The mutex of a call that holds or waits. -/
def mutex? (c : Call) : Option Nat :=
  match c.stage with
  | .waiting mutex | .granted mutex | .holding mutex => some mutex
  | .idle | .gone => none

/-- Where a call holds or waits. -/
def place? (c : Call) : Option Place :=
  c.mutex?.map (⟨c.key, ·⟩)

/-- Whether a call, or its guard, has a mutex. -/
def owns (c : Call) (mutex : Nat) : Bool :=
  c.stage = .granted mutex ∨ c.stage = .holding mutex

/-- Whether a call holds a key or waits for it. -/
def uses (key : String) (c : Call) : Bool :=
  c.key = key ∧ c.mutex?.isSome

end Call

/-- A table of locks, and all the calls that were ever made for them. -/
structure Service where
  table : LockTable
  calls : List Call

inductive Event
  | call (key : String)
  | poll (n : Nat)
  | grant (n : Nat)
  | drop (n : Nat)

namespace Service

def init : Service := ⟨∅, []⟩

/-- A call that was polled first enters its key, and one that was handed the mutex ends. -/
def poll (s : Service) (n : Nat) (c : Call) : Service :=
  match c.stage with
  | .idle =>
    let entered := s.table.enter c.key
    ⟨entered.2, s.calls.set n { c with stage := .waiting entered.1 }⟩
  | .granted mutex => { s with calls := s.calls.set n { c with stage := .holding mutex } }
  | .waiting _ | .holding _ | .gone => s

/-- A call gets the mutex that it waits for, if nobody has it. -/
def grant (s : Service) (n : Nat) (c : Call) : Service :=
  match c.stage with
  | .waiting mutex =>
    if s.calls.any (·.owns mutex) then s
    else { s with calls := s.calls.set n { c with stage := .granted mutex } }
  | .idle | .granted _ | .holding _ | .gone => s

/-- A call, or its guard, is dropped. A mutex that it had is free then, and its key is used by one less. -/
def drop (s : Service) (n : Nat) (c : Call) : Service :=
  ⟨if c.mutex?.isSome then s.table.exit c.key else s.table, s.calls.set n { c with stage := .gone }⟩

/-- What an event changes; calls go by the order in which they were made. -/
def step (s : Service) : Event → Service
  | .call key => { s with calls := s.calls ++ [⟨key, .idle⟩] }
  | .poll n => s.calls[n]?.elim s (s.poll n)
  | .grant n => s.calls[n]?.elim s (s.grant n)
  | .drop n => s.calls[n]?.elim s (s.drop n)

/-- Any number of events, in any order. -/
def run (events : List Event) : Service :=
  events.foldl step init

end Service

/-- Where the calls hold and wait. -/
def places (calls : List Call) : List Place :=
  calls.filterMap Call.place?

theorem places_cons (c : Call) (calls : List Call) : places (c :: calls) = c.place?.toList ++ places calls := by
  rw [places, List.filterMap_cons]
  cases c.place? <;> rfl

/-- Where one call goes on, the others stay where they are. -/
theorem places_set {calls : List Call} {n : Nat} {c : Call} (hn : calls[n]? = some c) (c' : Call) :
    ∃ others, (places calls).Perm (c.place?.toList ++ others) ∧
      (places (calls.set n c')).Perm (c'.place?.toList ++ others) := by
  induction calls generalizing n with
  | nil => exact absurd hn.symm (Option.some_ne_none c)
  | cons x rest ih =>
    cases n with
    | zero =>
      obtain rfl := Option.some.inj hn
      rw [List.set_cons_zero, places_cons, places_cons]
      exact ⟨places rest, .refl _, .refl _⟩
    | succ n =>
      obtain ⟨others, hbefore, hafter⟩ := ih hn
      rw [List.set_cons_succ, places_cons, places_cons]
      refine ⟨x.place?.toList ++ others, ?_, ?_⟩
      · exact (hbefore.append_left _).trans (List.perm_append_comm_assoc _ _ _)
      · exact (hafter.append_left _).trans (List.perm_append_comm_assoc _ _ _)

/-- The table suits the calls, and no two of them have the same mutex. -/
structure Sound (s : Service) : Prop where
  suits : s.table.Suits (places s.calls)
  exclusive : ∀ (i j : Nat) (c c' : Call) (mutex : Nat), s.calls[i]? = some c → s.calls[j]? = some c' →
    c.owns mutex = true → c'.owns mutex = true → i = j

theorem sound_init : Sound .init where
  suits := LockTable.suits_empty
  exclusive _ _ _ _ _ hi := absurd hi.symm (Option.some_ne_none _)

namespace Sound

variable {s : Service} {n : Nat} {c : Call}

/-- One call goes on, and gets no mutex that another one has. -/
theorem set (h : Sound s) (hn : s.calls[n]? = some c) {c' : Call} {table : LockTable}
    (hsuits : ∀ others, s.table.Suits (c.place?.toList ++ others) → table.Suits (c'.place?.toList ++ others))
    (howns : ∀ mutex, c'.owns mutex = true →
      c.owns mutex = true ∨ ∀ x ∈ s.calls, x.owns mutex = false) : Sound ⟨table, s.calls.set n c'⟩ := by
  obtain ⟨others, hbefore, hafter⟩ := places_set hn c'
  refine ⟨(hsuits others (h.suits.perm hbefore)).perm hafter.symm, fun i j x x' mutex hi hj hx hx' ↦ ?_⟩
  have hcases : ∀ k y, (s.calls.set n c')[k]? = some y → n = k ∧ c' = y ∨ s.calls[k]? = some y := by
    intro k y hk
    rw [List.getElem?_set] at hk
    split at hk
    · rename_i heq
      obtain ⟨-, hy⟩ := Option.ite_none_right_eq_some.mp hk
      exact .inl ⟨heq, Option.some.inj hy⟩
    · exact .inr hk
  -- Whoever has the mutex of the one that goes on is that one.
  have hone : ∀ k y, s.calls[k]? = some y → y.owns mutex = true → c'.owns mutex = true → n = k := by
    intro k y hk hy hc'
    obtain hc | hnobody := howns mutex hc'
    · exact h.exclusive n k c y mutex hn hk hc hy
    · exact absurd (hy.symm.trans (hnobody y (List.mem_of_getElem? hk))) Bool.noConfusion
  obtain ⟨rfl, rfl⟩ | hi := hcases i x hi
  · obtain ⟨heq, -⟩ | hj := hcases j x' hj
    · exact heq
    · exact hone j x' hj hx' hx
  · obtain ⟨rfl, rfl⟩ | hj := hcases j x' hj
    · exact (hone i x hi hx hx').symm
    · exact h.exclusive i j x x' mutex hi hj hx hx'

theorem poll (h : Sound s) (hn : s.calls[n]? = some c) : Sound (s.poll n c) := by
  obtain ⟨key, stage⟩ := c
  cases stage with
  | idle =>
    refine h.set hn (fun others hsuits ↦ hsuits.enter key) fun mutex howns ↦ ?_
    exact absurd howns Bool.false_ne_true
  | granted mutex =>
    refine h.set hn (fun others hsuits ↦ hsuits) fun mutex' howns ↦ .inl ?_
    obtain hstage | hstage := of_decide_eq_true howns
    · exact Stage.noConfusion hstage
    · exact decide_eq_true (.inl (congrArg Stage.granted (Stage.holding.inj hstage)))
  | waiting mutex => exact h
  | holding mutex => exact h
  | gone => exact h

theorem grant (h : Sound s) (hn : s.calls[n]? = some c) : Sound (s.grant n c) := by
  obtain ⟨key, stage⟩ := c
  cases stage with
  | waiting mutex =>
    dsimp only [Service.grant]
    split
    · exact h
    · rename_i hfree
      refine h.set hn (fun others hsuits ↦ hsuits) fun mutex' howns ↦ .inr fun x hx ↦ ?_
      obtain hstage | hstage := of_decide_eq_true howns
      · obtain rfl := Stage.granted.inj hstage
        exact Bool.eq_false_of_not_eq_true fun htrue ↦ hfree (List.any_eq_true.mpr ⟨x, hx, htrue⟩)
      · exact Stage.noConfusion hstage
  | idle => exact h
  | granted mutex => exact h
  | holding mutex => exact h
  | gone => exact h

theorem drop (h : Sound s) (hn : s.calls[n]? = some c) : Sound (s.drop n c) := by
  refine h.set hn (fun others hsuits ↦ ?_) fun mutex howns ↦ absurd howns Bool.false_ne_true
  cases hmutex : c.mutex? with
  | none =>
    rw [Call.place?, hmutex] at hsuits
    exact hsuits
  | some mutex =>
    rw [Call.place?, hmutex] at hsuits
    exact hsuits.exit

theorem step (h : Sound s) (event : Event) : Sound (s.step event) := by
  have hcall : ∀ (n : Nat) (f : Call → Service), (∀ c, s.calls[n]? = some c → Sound (f c)) →
      Sound (s.calls[n]?.elim s f) := by
    intro n f hf
    cases hn : s.calls[n]? with
    | none => exact h
    | some c => exact hf c hn
  cases event with
  | call key =>
    have hold : ∀ (i : Nat) (x : Call) mutex, (s.calls ++ [⟨key, .idle⟩])[i]? = some x → x.owns mutex = true →
        s.calls[i]? = some x := by
      intro i x mutex hi hx
      obtain hi' | hi' := Nat.lt_or_ge i s.calls.length
      · rwa [List.getElem?_append_left hi'] at hi
      · rw [List.getElem?_append_right hi'] at hi
        obtain rfl := List.mem_singleton.mp (List.mem_of_getElem? hi)
        exact absurd hx Bool.false_ne_true
    refine ⟨?_, fun i j x x' mutex hi hj hx hx' ↦ ?_⟩
    · have hplaces : places (s.calls ++ [⟨key, .idle⟩]) = places s.calls := by
        rw [places, List.filterMap_append]
        exact List.append_nil _
      exact hplaces ▸ h.suits
    · exact h.exclusive i j x x' mutex (hold i x mutex hi hx) (hold j x' mutex hj hx') hx hx'
  | poll n => exact hcall n (s.poll n) fun _ ↦ h.poll
  | grant n => exact hcall n (s.grant n) fun _ ↦ h.grant
  | drop n => exact hcall n (s.drop n) fun _ ↦ h.drop

end Sound

theorem sound_run (events : List Event) : Sound (.run events) := by
  have hrun : ∀ s, Sound s → Sound (events.foldl Service.step s) := by
    induction events with
    | nil => exact fun _ h ↦ h
    | cons event rest ih => exact fun s h ↦ ih _ (h.step event)
  exact hrun .init sound_init

theorem length_mutexes (calls : List Call) (key : String) :
    (LockTable.mutexes (places calls) key).length = calls.countP (Call.uses key) := by
  induction calls with
  | nil => rfl
  | cons c rest ih =>
    rw [places_cons, List.countP_cons, ← ih, Call.uses, Call.place?]
    cases c.mutex? with
    | none => simp
    | some mutex =>
      rw [Option.map_some, Option.toList_some, List.singleton_append, LockTable.mutexes_cons]
      by_cases hkey : c.key = key <;> simp [hkey]

theorem mem_places {calls : List Call} {c : Call} {mutex : Nat} (hc : c ∈ calls) (hmutex : c.mutex? = some mutex) :
    ⟨c.key, mutex⟩ ∈ places calls := by
  refine List.mem_filterMap.mpr ⟨c, hc, ?_⟩
  rw [Call.place?, hmutex, Option.map_some]

theorem Call.uses_iff {key : String} {c : Call} : c.uses key = true ↔ c.key = key ∧ ∃ mutex, c.mutex? = some mutex := by
  rw [uses, decide_eq_true_iff, Option.isSome_iff_exists]

namespace Sound

variable {s : Service} {key : String} {e : LockEntry}

theorem users_eq (h : Sound s) (he : s.table.entries.get? key = some e) : e.users = s.calls.countP (Call.uses key) := by
  calc
    e.users = (LockTable.mutexes (places s.calls) key).length := by
      rw [h.suits.mutexes_eq, he, Option.elim_some, List.length_replicate]
    _ = _ := length_mutexes s.calls key

theorem exists_entry (h : Sound s) {c : Call} (hc : c ∈ s.calls) (huses : c.uses key = true) :
    ∃ e, s.table.entries.get? key = some e ∧ c.mutex? = some e.mutex := by
  obtain ⟨rfl, mutex, hmutex⟩ := Call.uses_iff.mp huses
  obtain ⟨e, he, heq⟩ := h.suits.exists_entry (mem_places hc hmutex)
  exact ⟨e, he, hmutex.trans (congrArg some heq.symm)⟩

theorem isSome_entry_iff (h : Sound s) (key : String) :
    (s.table.entries.get? key).isSome = true ↔ ∃ c ∈ s.calls, c.uses key = true := by
  rw [Option.isSome_iff_exists]
  constructor
  · rintro ⟨e, he⟩
    exact List.countP_pos_iff.mp (h.users_eq he ▸ h.suits.used key e he)
  · rintro ⟨c, hc, huses⟩
    obtain ⟨e, he, -⟩ := h.exists_entry hc huses
    exact ⟨e, he⟩

theorem activeKeys_eq (h : Sound s) :
    s.table.activeKeys = ((s.calls.filter (·.mutex?.isSome)).map (·.key)).toFinset.card := by
  have hkeys : s.table.entries.keys.Nodup :=
    Std.TreeMap.distinct_keys.imp fun hne heq ↦ hne (Std.LawfulEqOrd.compare_eq_iff_eq.mpr heq)
  rw [LockTable.activeKeys, ← Std.TreeMap.length_keys, ← List.toFinset_card_of_nodup hkeys]
  congr 1
  ext key
  rw [List.mem_toFinset, List.mem_toFinset, Std.TreeMap.mem_keys, Std.TreeMap.mem_iff_isSome_getElem?,
    ← Std.TreeMap.get?_eq_getElem?, h.isSome_entry_iff, List.mem_map]
  constructor
  · rintro ⟨c, hc, huses⟩
    obtain ⟨hkey, hmutex⟩ := Call.uses_iff.mp huses
    exact ⟨c, List.mem_filter.mpr ⟨hc, Option.isSome_iff_exists.mpr hmutex⟩, hkey⟩
  · rintro ⟨c, hc, hkey⟩
    obtain ⟨hc, hmutex⟩ := List.mem_filter.mp hc
    exact ⟨c, hc, Call.uses_iff.mpr ⟨hkey, Option.isSome_iff_exists.mp hmutex⟩⟩

end Sound

/-- What holds of a service at every moment. -/
structure Orderly (s : Service) : Prop where
  /-- A key has one guard at most. -/
  exclusive : ∀ (i j : Nat) (key : String) (mutex mutex' : Nat), s.calls[i]? = some ⟨key, .holding mutex⟩ →
    s.calls[j]? = some ⟨key, .holding mutex'⟩ → i = j
  /-- A key has an entry if it is held or waited for, and only then. -/
  entered : ∀ key, (s.table.entries.get? key).isSome = true ↔ ∃ c ∈ s.calls, c.uses key = true
  /-- The entry counts those who hold the key or wait for it. -/
  counted : ∀ key e, s.table.entries.get? key = some e → e.users = s.calls.countP (Call.uses key)
  /-- All of them are at one mutex, which is the entry's. -/
  shared : ∀ key, ∀ c ∈ s.calls, c.uses key = true →
    ∃ e, s.table.entries.get? key = some e ∧ c.mutex? = some e.mutex
  /-- The keys counted are those that are held or waited for. -/
  active : s.table.activeKeys = ((s.calls.filter (·.mutex?.isSome)).map (·.key)).toFinset.card
  /-- Once all calls and guards are dropped no key is left. -/
  ended : (∀ c ∈ s.calls, c.stage = .gone) → s.table.activeKeys = 0

/-- Whatever happens in whatever order, a key has one guard at most and one mutex for all who hold it or wait for
it, and its entry is there as long as there are any, and counts them. -/
theorem orderly_run (events : List Event) : Orderly (.run events) := by
  have h := sound_run events
  refine ⟨fun i j key mutex mutex' hi hj ↦ ?_, h.isSome_entry_iff, fun _ _ ↦ h.users_eq,
    fun _ _ ↦ h.exists_entry, h.activeKeys_eq, fun hgone ↦ ?_⟩
  · have hplace := mem_places (List.mem_of_getElem? hi) rfl
    have hplace' := mem_places (List.mem_of_getElem? hj) rfl
    have hsame : mutex = mutex' := (h.suits.mutex_eq_iff hplace hplace').mpr rfl
    exact h.exclusive i j _ _ mutex hi hj (decide_eq_true (.inr rfl)) (decide_eq_true (.inr (hsame ▸ rfl)))
  · have hnobody : ((Service.run events).calls.filter (·.mutex?.isSome)) = [] := by
      refine List.filter_eq_nil_iff.mpr fun c hc ↦ ?_
      rw [Call.mutex?, hgone c hc]
      exact Bool.false_ne_true
    rw [h.activeKeys_eq, hnobody]
    rfl

end LiveGraph.Lock
