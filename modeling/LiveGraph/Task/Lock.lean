import Std.Data.TreeMap

/-!
# Locks by key

A key has a mutex as long as someone holds it or waits for it, and its entry counts these. Whoever wants
a lock enters the key, for which an entry is made if there is none, and joins the line at its mutex; the
first in line holds it. Who leaves, from whatever place, hands the lock on if it was his, and the last
one takes the entry away.
-/

namespace LiveGraph

/-- The mutex of a key, and how many hold it or wait for it. -/
structure LockEntry where
  mutex : Nat
  users : Nat

/-- The entries of the keys in use, and how many mutexes have been made. -/
structure LockTable where
  entries : Std.TreeMap String LockEntry
  made : Nat

/-- Where someone holds a lock or waits for it: the key, and the mutex that he found there. -/
structure Place where
  key : String
  mutex : Nat
  deriving DecidableEq

namespace LockTable

instance : EmptyCollection LockTable := ⟨⟨∅, 0⟩⟩

/-- One more uses a key. He gets the key's mutex, which is a new one if nobody used the key. -/
def enter (t : LockTable) (key : String) : Nat × LockTable :=
  match t.entries.get? key with
  | some e => (e.mutex, { t with entries := t.entries.insert key { e with users := e.users + 1 } })
  | none => (t.made, ⟨t.entries.insert key ⟨t.made, 1⟩, t.made + 1⟩)

/-- One less uses a key. -/
def exit (t : LockTable) (key : String) : LockTable :=
  match t.entries.get? key with
  | some e =>
    if e.users - 1 = 0 then { t with entries := t.entries.erase key }
    else { t with entries := t.entries.insert key { e with users := e.users - 1 } }
  | none => t

/-- The number of keys that are held or waited for. -/
def activeKeys (t : LockTable) : Nat :=
  t.entries.size

/-- The mutexes at which those are who came for a key. -/
def mutexes (users : List Place) (key : String) : List Nat :=
  (users.filter (·.key = key)).map (·.mutex)

/-- A table suits those who use it: the entry of a key counts those who came for it, all of them are at its
mutex, and no other key has that mutex. -/
structure Suits (t : LockTable) (users : List Place) : Prop where
  mutexes_eq : ∀ key, mutexes users key = (t.entries.get? key).elim [] fun e ↦ List.replicate e.users e.mutex
  used : ∀ key e, t.entries.get? key = some e → 0 < e.users
  apart : ∀ key key' e e', t.entries.get? key = some e → t.entries.get? key' = some e' →
    e.mutex = e'.mutex → key = key'
  made : ∀ key e, t.entries.get? key = some e → e.mutex < t.made

theorem get?_insert (m : Std.TreeMap String LockEntry) (key : String) (e : LockEntry) (key' : String) :
    (m.insert key e).get? key' = if key = key' then some e else m.get? key' := by
  simp only [Std.TreeMap.get?_eq_getElem?, Std.TreeMap.getElem?_insert, Std.LawfulEqOrd.compare_eq_iff_eq]

theorem get?_erase (m : Std.TreeMap String LockEntry) (key key' : String) :
    (m.erase key).get? key' = if key = key' then none else m.get? key' := by
  simp only [Std.TreeMap.get?_eq_getElem?, Std.TreeMap.getElem?_erase, Std.LawfulEqOrd.compare_eq_iff_eq]

theorem mutexes_cons (p : Place) (users : List Place) (key : String) :
    mutexes (p :: users) key = if p.key = key then p.mutex :: mutexes users key else mutexes users key := by
  rw [mutexes, List.filter_cons]
  simp only [decide_eq_true_eq]
  split <;> rfl

theorem suits_empty : (∅ : LockTable).Suits [] where
  mutexes_eq _ := rfl
  used _ _ he := absurd he.symm (Option.some_ne_none _)
  apart _ _ _ _ he := absurd he.symm (Option.some_ne_none _)
  made _ _ he := absurd he.symm (Option.some_ne_none _)

namespace Suits

variable {t : LockTable} {users users' : List Place} {p q : Place}

theorem perm (h : t.Suits users) (hperm : users.Perm users') : t.Suits users' where
  mutexes_eq key := by
    have hmutexes : (mutexes users key).Perm (mutexes users' key) := (hperm.filter _).map _
    have heq := h.mutexes_eq key
    cases hkey : t.entries.get? key with
    | none =>
      rw [hkey] at heq
      rw [heq] at hmutexes
      exact List.nil_perm.mp hmutexes
    | some e =>
      rw [hkey] at heq
      rw [heq] at hmutexes
      exact (List.replicate_perm.mp hmutexes).symm
  used := h.used
  apart := h.apart
  made := h.made

/-- Everyone has an entry, and is at its mutex. -/
theorem exists_entry (h : t.Suits users) (hp : p ∈ users) :
    ∃ e, t.entries.get? p.key = some e ∧ e.mutex = p.mutex := by
  have hmem : p.mutex ∈ mutexes users p.key :=
    List.mem_map.mpr ⟨p, List.mem_filter.mpr ⟨hp, decide_eq_true rfl⟩, rfl⟩
  rw [h.mutexes_eq] at hmem
  cases hkey : t.entries.get? p.key with
  | none => exact absurd (hkey ▸ hmem) List.not_mem_nil
  | some e => exact ⟨e, rfl, (List.eq_of_mem_replicate (hkey ▸ hmem)).symm⟩

/-- Those at one mutex are those who came for one key. -/
theorem mutex_eq_iff (h : t.Suits users) (hp : p ∈ users) (hq : q ∈ users) :
    p.mutex = q.mutex ↔ p.key = q.key := by
  obtain ⟨e, he, hmutex⟩ := h.exists_entry hp
  obtain ⟨e', he', hmutex'⟩ := h.exists_entry hq
  constructor
  · intro heq
    exact h.apart _ _ e e' he he' (hmutex.trans (heq.trans hmutex'.symm))
  · intro heq
    rw [heq, he'] at he
    rw [← hmutex, ← hmutex', Option.some.inj he]

/-- The entry of a key is made or changed, which has nothing to do with other keys. -/
theorem put (h : t.Suits users) {key : String} {e : LockEntry} {made : Nat} (hmade : t.made ≤ made)
    (hlt : e.mutex < made) (hused : 0 < e.users)
    (hapart : ∀ key' e', key ≠ key' → t.entries.get? key' = some e' → e.mutex ≠ e'.mutex)
    (hkey : mutexes users' key = List.replicate e.users e.mutex)
    (hothers : ∀ key', key ≠ key' → mutexes users' key' = mutexes users key') :
    LockTable.Suits ⟨t.entries.insert key e, made⟩ users' := by
  have hentry : ∀ key', (t.entries.insert key e).get? key' = if key = key' then some e else t.entries.get? key' :=
    get?_insert t.entries key e
  refine ⟨fun key' ↦ ?_, fun key' e' he' ↦ ?_, fun key₁ key₂ e₁ e₂ h₁ h₂ heq ↦ ?_, fun key' e' he' ↦ ?_⟩
  · rw [hentry]
    split
    · rename_i heq
      exact heq ▸ hkey
    · rename_i hne
      exact (hothers key' hne).trans (h.mutexes_eq key')
  · rw [hentry] at he'
    split at he'
    · exact Option.some.inj he' ▸ hused
    · exact h.used key' e' he'
  · rw [hentry] at h₁ h₂
    split at h₁ <;> split at h₂
    · rename_i heq₁ heq₂
      exact heq₁.symm.trans heq₂
    · rename_i hne
      obtain rfl := Option.some.inj h₁
      exact absurd heq (hapart key₂ e₂ hne h₂)
    · rename_i hne _
      obtain rfl := Option.some.inj h₂
      exact absurd heq.symm (hapart key₁ e₁ hne h₁)
    · exact h.apart key₁ key₂ e₁ e₂ h₁ h₂ heq
  · rw [hentry] at he'
    split at he'
    · exact Option.some.inj he' ▸ hlt
    · exact Nat.lt_of_lt_of_le (h.made key' e' he') hmade

/-- The entry of a key that nobody uses any more is taken away. -/
theorem erase (h : t.Suits users) {key : String} (hkey : mutexes users' key = [])
    (hothers : ∀ key', key ≠ key' → mutexes users' key' = mutexes users key') :
    LockTable.Suits { t with entries := t.entries.erase key } users' := by
  have hentry : ∀ key' e', (t.entries.erase key).get? key' = some e' → t.entries.get? key' = some e' :=
    fun key' e' he' ↦ by
      rw [get?_erase] at he'
      split at he'
      · exact absurd he'.symm (Option.some_ne_none e')
      · exact he'
  refine ⟨fun key' ↦ ?_, fun key' e' he' ↦ h.used key' e' (hentry key' e' he'),
    fun key₁ key₂ e₁ e₂ h₁ h₂ ↦ h.apart key₁ key₂ e₁ e₂ (hentry key₁ e₁ h₁) (hentry key₂ e₂ h₂),
    fun key' e' he' ↦ h.made key' e' (hentry key' e' he')⟩
  rw [get?_erase]
  split
  · rename_i heq
    exact heq ▸ hkey
  · rename_i hne
    exact (hothers key' hne).trans (h.mutexes_eq key')

theorem enter (h : t.Suits users) (key : String) :
    (t.enter key).2.Suits (⟨key, (t.enter key).1⟩ :: users) := by
  have hkey := h.mutexes_eq key
  have hothers : ∀ mutex key', key ≠ key' → mutexes (⟨key, mutex⟩ :: users) key' = mutexes users key' :=
    fun mutex key' hne ↦ (mutexes_cons _ users key').trans (if_neg hne)
  unfold LockTable.enter
  split
  · rename_i e he
    rw [he] at hkey
    refine h.put (Nat.le_refl _) (h.made key e he) (Nat.succ_pos _) (fun key' e' hne he' heq ↦ ?_) ?_ (hothers e.mutex)
    · exact hne (h.apart key key' e e' he he' heq)
    · rw [mutexes_cons, if_pos rfl, hkey]
      rfl
  · rename_i hnone
    rw [hnone] at hkey
    refine h.put (Nat.le_succ _) (Nat.lt_succ_self _) Nat.one_pos (fun key' e' _ he' ↦ ?_) ?_ (hothers t.made)
    · exact (Nat.ne_of_lt (h.made key' e' he')).symm
    · rw [mutexes_cons, if_pos rfl, hkey]
      rfl

theorem exit (h : t.Suits (p :: users)) : (t.exit p.key).Suits users := by
  have hkey := h.mutexes_eq p.key
  rw [mutexes_cons, if_pos rfl] at hkey
  have hothers : ∀ key', p.key ≠ key' → mutexes users key' = mutexes (p :: users) key' :=
    fun key' hne ↦ ((mutexes_cons p users key').trans (if_neg hne)).symm
  obtain ⟨e, he, -⟩ := h.exists_entry List.mem_cons_self
  obtain ⟨n, hn⟩ := Nat.exists_eq_succ_of_ne_zero (Nat.ne_of_gt (h.used p.key e he))
  have hrest : mutexes users p.key = List.replicate n e.mutex := by
    rw [he, Option.elim_some, hn, List.replicate_succ] at hkey
    exact (List.cons.inj hkey).2
  have hless : e.users - 1 = n := congrArg (· - 1) hn
  unfold LockTable.exit
  rw [he]
  simp only [hless]
  split
  · rename_i hzero
    exact h.erase (hrest.trans (hzero ▸ rfl)) hothers
  · rename_i hpos
    refine h.put (Nat.le_refl _) (h.made p.key e he) (Nat.pos_of_ne_zero hpos) (fun key' e' hne he' heq ↦ ?_) hrest hothers
    exact hne (h.apart p.key key' e e' he he' heq)

end Suits

end LockTable

/-- Someone who holds a lock or waits for it. -/
structure Claimant where
  claim : Nat
  place : Place
  deriving DecidableEq

namespace Claimant

/-- Whether someone came for a key with a claim. -/
def has (key : String) (claim : Nat) (c : Claimant) : Bool :=
  c.claim = claim ∧ c.place.key = key

/-- The claims of those who came for a key. -/
def line (claimants : List Claimant) (key : String) : List Nat :=
  (claimants.filter (·.place.key = key)).map (·.claim)

end Claimant

/-- The locks of a service: their table, and all who hold a lock or wait for one, in the order they came. -/
structure KeyedMutex where
  table : LockTable
  claimants : List Claimant
  suits : table.Suits (claimants.map (·.place))

namespace KeyedMutex

instance : EmptyCollection KeyedMutex := ⟨⟨∅, [], LockTable.suits_empty⟩⟩

instance : Inhabited KeyedMutex := ⟨∅⟩

/-- Those who hold the lock of a key or wait for it: the first holds it. -/
def line (m : KeyedMutex) (key : String) : List Nat :=
  Claimant.line m.claimants key

def join (m : KeyedMutex) (key : String) (claim : Nat) : KeyedMutex where
  table := (m.table.enter key).2
  claimants := m.claimants ++ [⟨claim, key, (m.table.enter key).1⟩]
  suits := by
    refine (m.suits.enter key).perm ?_
    rw [List.map_append]
    exact (List.perm_append_singleton _ _).symm

def standing? (m : KeyedMutex) (key : String) (claim : Nat) : Option Claimant :=
  m.claimants.find? (Claimant.has key claim)

def leave (m : KeyedMutex) (key : String) (claim : Nat) : KeyedMutex :=
  match h : m.standing? key claim with
  | none => m
  | some c =>
    { table := m.table.exit c.place.key
      claimants := m.claimants.erase c
      suits := by
        refine (m.suits.perm ?_).exit
        exact (List.perm_cons_erase (List.mem_of_find?_eq_some h)).map (·.place) }

/-- Whether someone is the first at the mutex that he waits for. -/
def isHolder (m : KeyedMutex) (key : String) (claim : Nat) : Bool :=
  match m.standing? key claim with
  | none => false
  | some c => (m.claimants.find? (·.place.mutex = c.place.mutex)).map (·.claim) = some claim

def activeKeys (m : KeyedMutex) : Nat :=
  m.table.activeKeys

end KeyedMutex

end LiveGraph
