import LiveGraph.Proofs.Breakpoint.Scene

/-!
# Toggles in line

Whoever wants to toggle on a path joins the line for its lock, under a claim that is greater than all
before. The first in line may look up what his location means and wait for a verdict. What he has found
is right for as long as he is first, since until he leaves nobody else changes the path.
-/

namespace LiveGraph.Breakpoint

/-- The tasks that have names, the line for the lock of a path, and the next claim. -/
@[ext]
structure Waiting where
  tasks : String → Option Task
  line : List Nat
  claims : Nat

namespace Waiting

/-- Nobody waits, and there were no claims yet. -/
def empty : Waiting :=
  ⟨fun _ ↦ none, [], 0⟩

/-- A name stands for a task from now on, or for none. -/
def call (q : Waiting) (name : String) (t? : Option Task) : Waiting :=
  { q with tasks := Function.update q.tasks name t? }

def next (q : Waiting) : Waiting :=
  { q with claims := q.claims + 1 }

def join (q : Waiting) (claim : Nat) : Waiting :=
  { q with line := q.line ++ [claim] }

def leave (q : Waiting) (claim : Nat) : Waiting :=
  { q with line := q.line.erase claim }

/-- A toggle stands in line. What it has found it has found as the first. -/
structure Stands (q : Waiting) (ς : Scene) (t : Task) (l : Location) (found : Option (Option EntityRef)) :
    Prop where
  task_eq : t = ⟨t.claim, true, .toggle 0 l found⟩
  mem : t.claim ∈ q.line
  first : ∀ target, found = some target → q.line.head? = some t.claim ∧ target = ς.find l

/-- All tasks are toggles on one path that stand in line, in the order of their claims. Those that are
done came earlier. -/
structure Lined (q : Waiting) (path : String) (done : List Nat) (ς : Scene) : Prop where
  stands : ∀ name t, q.tasks name = some t → ∃ l found, l.path = path ∧ q.Stands ς t l found
  apart : ∀ name name' t t', q.tasks name = some t → q.tasks name' = some t' → t.claim = t'.claim →
    name = name'
  sorted : q.line.Pairwise (· < ·)
  lt_claims : ∀ claim ∈ q.line, claim < q.claims
  done_lt : ∀ claim ∈ done, claim < q.claims ∧ ∀ claim' ∈ q.line, claim < claim'
  done_sorted : done.Pairwise (· < ·)

/-- A toggle goes on, while all others wait. -/
structure GoesOn (q : Waiting) (path : String) (done : List Nat) (ς : Scene) (t : Task) (l : Location)
    (found : Option (Option EntityRef)) : Prop extends Lined q path done ς where
  path_eq : l.path = path
  self : q.Stands ς t l found
  others : ∀ name t', q.tasks name = some t' → t'.claim ≠ t.claim

/-- A claim that was given last. -/
structure Latest (q : Waiting) (done : List Nat) (claim : Nat) : Prop where
  lt_claims : claim < q.claims
  line_lt : ∀ claim' ∈ q.line, claim' < claim
  done_lt : ∀ claim' ∈ done, claim' < claim

variable {q : Waiting} {ς ς' : Scene} {t : Task} {l : Location} {found : Option (Option EntityRef)}
variable {path : String} {done : List Nat} {name : String} {claim : Nat}

theorem tasks_call (q : Waiting) (name : String) (t? : Option Task) (name' : String) :
    (q.call name t?).tasks name' = if name' = name then t? else q.tasks name' :=
  Function.update_apply ..

theorem call_call (q : Waiting) (name : String) (t? t'? : Option Task) :
    (q.call name t?).call name t'? = q.call name t'? := by
  rw [call, call, call, Function.update_idem]

namespace Lined

variable (h : q.Lined path done ς)
include h

theorem next : q.next.Lined path done ς where
  stands name t hname := by
    obtain ⟨l, found, hl, hstands⟩ := h.stands name t hname
    exact ⟨l, found, hl, hstands.task_eq, hstands.mem, hstands.first⟩
  apart := h.apart
  sorted := h.sorted
  lt_claims claim hmem := Nat.lt_succ_of_lt (h.lt_claims claim hmem)
  done_lt claim hmem := ⟨Nat.lt_succ_of_lt (h.done_lt claim hmem).1, (h.done_lt claim hmem).2⟩
  done_sorted := h.done_sorted

theorem latest : q.next.Latest done q.claims where
  lt_claims := Nat.lt_succ_self _
  line_lt := h.lt_claims
  done_lt claim hmem := (h.done_lt claim hmem).1

/-- Some tasks may be forgotten. -/
theorem forget (name : String) : (q.call name none).Lined path done ς := by
  have hkept (name' : String) (t : Task) (hname : (q.call name none).tasks name' = some t) :
      q.tasks name' = some t := by
    rw [tasks_call] at hname
    split at hname
    · exact absurd hname.symm (Option.some_ne_none t)
    · exact hname
  refine ⟨fun name' t hname ↦ ?_, fun name₁ name₂ t₁ t₂ h₁ h₂ ↦ ?_, h.sorted, h.lt_claims, h.done_lt,
    h.done_sorted⟩
  · obtain ⟨l, found, hl, hstands⟩ := h.stands name' t (hkept name' t hname)
    exact ⟨l, found, hl, hstands.task_eq, hstands.mem, hstands.first⟩
  · exact h.apart name₁ name₂ t₁ t₂ (hkept name₁ t₁ h₁) (hkept name₂ t₂ h₂)

/-- A task that is polled goes on without its name. -/
theorem poll (hname : q.tasks name = some t) :
    ∃ l found, (q.call name none).GoesOn path done ς t l found := by
  obtain ⟨l, found, hl, hstands⟩ := h.stands name t hname
  refine ⟨l, found, h.forget name, hl, ⟨hstands.task_eq, hstands.mem, hstands.first⟩,
    fun name' t' hname' heq ↦ ?_⟩
  rw [tasks_call] at hname'
  split at hname'
  · exact Option.some_ne_none t' hname'.symm
  · rename_i hne
    exact hne (h.apart name' name t' t hname' hname heq)

/-- A toggle that has just got its claim joins the line. -/
theorem join (hlatest : q.Latest done claim) (hl : l.path = path) :
    (q.join claim).GoesOn path done ς ⟨claim, true, .toggle 0 l none⟩ l none := by
  have hmem {claim' : Nat} (hclaim' : claim' ∈ (q.join claim).line) : claim' ∈ q.line ∨ claim' = claim :=
    (List.mem_append.mp hclaim').imp_right List.mem_singleton.mp
  refine ⟨⟨fun name t hname ↦ ?_, h.apart, ?_, fun claim' hclaim' ↦ ?_, fun claim' hclaim' ↦ ?_,
    h.done_sorted⟩, hl, ⟨rfl, List.mem_append_right _ (List.mem_singleton_self claim), fun _ ↦ ?_⟩,
    fun name t hname heq ↦ ?_⟩
  · obtain ⟨l', found, hl', hstands⟩ := h.stands name t hname
    refine ⟨l', found, hl', hstands.task_eq, List.mem_append_left _ hstands.mem, fun target htarget ↦ ?_⟩
    obtain ⟨hhead, hfind⟩ := hstands.first target htarget
    exact ⟨by rw [Waiting.join, List.head?_append, hhead, Option.some_or], hfind⟩
  · refine List.pairwise_append.mpr ⟨h.sorted, List.pairwise_singleton _ _, fun claim' hmem _ hlast ↦ ?_⟩
    exact List.mem_singleton.mp hlast ▸ hlatest.line_lt claim' hmem
  · rcases hmem hclaim' with hbefore | rfl
    · exact h.lt_claims claim' hbefore
    · exact hlatest.lt_claims
  · refine ⟨(h.done_lt claim' hclaim').1, fun claim'' hclaim'' ↦ ?_⟩
    rcases hmem hclaim'' with hbefore | rfl
    · exact (h.done_lt claim' hclaim').2 claim'' hbefore
    · exact hlatest.done_lt claim' hclaim'
  · exact fun hnone ↦ absurd hnone.symm (Option.some_ne_none _)
  · obtain ⟨_, _, -, hstands⟩ := h.stands name t hname
    exact absurd (hlatest.line_lt _ hstands.mem) (heq ▸ Nat.lt_irrefl _)

end Lined

namespace Latest

variable (h : q.Latest done claim)
include h

theorem call (name : String) (t? : Option Task) : (q.call name t?).Latest done claim :=
  ⟨h.lt_claims, h.line_lt, h.done_lt⟩

theorem leave (claim' : Nat) : (q.leave claim').Latest done claim :=
  ⟨h.lt_claims, fun claim hmem ↦ h.line_lt claim (List.mem_of_mem_erase hmem), h.done_lt⟩

end Latest

namespace GoesOn

variable (h : q.GoesOn path done ς t l found)
include h

/-- A toggle that has to wait is known by a name again. -/
theorem wait (name : String) : (q.call name (some t)).Lined path done ς := by
  have hself (name' : String) (t' : Task) (hname : (q.call name (some t)).tasks name' = some t') :
      name' = name ∧ t' = t ∨ name' ≠ name ∧ q.tasks name' = some t' := by
    rw [tasks_call] at hname
    split at hname
    · exact .inl ⟨‹_›, (Option.some.inj hname).symm⟩
    · exact .inr ⟨‹_›, hname⟩
  refine ⟨fun name' t' hname ↦ ?_, fun name₁ name₂ t₁ t₂ h₁ h₂ heq ↦ ?_, h.sorted, h.lt_claims, h.done_lt,
    h.done_sorted⟩
  · rcases hself name' t' hname with ⟨-, rfl⟩ | ⟨-, hold⟩
    · exact ⟨l, found, h.path_eq, h.self.task_eq, h.self.mem, h.self.first⟩
    · obtain ⟨l', found', hl', hstands⟩ := h.stands name' t' hold
      exact ⟨l', found', hl', hstands.task_eq, hstands.mem, hstands.first⟩
  · rcases hself name₁ t₁ h₁ with ⟨rfl, rfl⟩ | ⟨-, hold₁⟩
    · rcases hself name₂ t₂ h₂ with ⟨rfl, -⟩ | ⟨-, hold₂⟩
      · rfl
      · exact absurd heq.symm (h.others name₂ t₂ hold₂)
    · rcases hself name₂ t₂ h₂ with ⟨-, rfl⟩ | ⟨-, hold₂⟩
      · exact absurd heq (h.others name₁ t₁ hold₁)
      · exact h.apart name₁ name₂ t₁ t₂ hold₁ hold₂ heq

/-- The first in line has found what his location means. -/
theorem ask (hfirst : q.line.head? = some t.claim) :
    q.GoesOn path done ς ⟨t.claim, true, .toggle 0 l (some (ς.find l))⟩ l (some (ς.find l)) := by
  refine ⟨h.toLined, h.path_eq, ⟨rfl, h.self.mem, fun target htarget ↦ ?_⟩, h.others⟩
  exact ⟨hfirst, (Option.some.inj htarget).symm⟩

/-- Who leaves changes nothing for the others. -/
theorem quit : (q.leave t.claim).Lined path done ς := by
  refine ⟨fun name t' hname ↦ ?_, h.apart, h.sorted.sublist List.erase_sublist, fun claim hmem ↦ ?_,
    fun claim hmem ↦ ⟨(h.done_lt claim hmem).1, fun claim' hmem' ↦ ?_⟩, h.done_sorted⟩
  · obtain ⟨l', found', hl', hstands⟩ := h.stands name t' hname
    have hne := h.others name t' hname
    refine ⟨l', found', hl', hstands.task_eq, (List.mem_erase_of_ne hne).mpr hstands.mem,
      fun target htarget ↦ ?_⟩
    obtain ⟨hhead, hfind⟩ := hstands.first target htarget
    obtain ⟨rest, hline⟩ := List.head?_eq_some_iff.mp hhead
    refine ⟨?_, hfind⟩
    rw [leave, hline, List.erase_cons_tail (by simpa using hne)]
    rfl
  · exact h.lt_claims claim (List.mem_of_mem_erase hmem)
  · exact (h.done_lt claim hmem).2 claim' (List.mem_of_mem_erase hmem')

/-- When the first in line is done, nobody else has found anything yet, so that the path may have changed. -/
theorem finish (hfirst : q.line.head? = some t.claim) (ς' : Scene) :
    (q.leave t.claim).Lined path (done ++ [t.claim]) ς' := by
  have hquit := h.quit
  have hlt : ∀ claim ∈ (q.leave t.claim).line, t.claim < claim := by
    obtain ⟨rest, hline⟩ := List.head?_eq_some_iff.mp hfirst
    have hsorted := h.sorted
    rw [hline] at hsorted
    rw [leave, hline, List.erase_cons_head]
    exact (List.pairwise_cons.mp hsorted).1
  refine ⟨fun name t' hname ↦ ?_, h.apart, hquit.sorted, hquit.lt_claims, fun claim hmem ↦ ?_, ?_⟩
  · obtain ⟨l', found', hl', hstands⟩ := h.stands name t' hname
    have hne := h.others name t' hname
    refine ⟨l', found', hl', hstands.task_eq, (List.mem_erase_of_ne hne).mpr hstands.mem,
      fun target htarget ↦ ?_⟩
    exact absurd (Option.some.inj ((hstands.first target htarget).1.symm.trans hfirst)) hne
  · rcases List.mem_append.mp hmem with hbefore | hlast
    · exact ⟨(h.done_lt claim hbefore).1, (hquit.done_lt claim hbefore).2⟩
    · rw [List.mem_singleton.mp hlast]
      exact ⟨h.lt_claims _ h.self.mem, hlt⟩
  · refine List.pairwise_append.mpr ⟨h.done_sorted, List.pairwise_singleton _ _, fun claim hmem _ hlast ↦ ?_⟩
    exact List.mem_singleton.mp hlast ▸ (h.done_lt claim hmem).2 _ h.self.mem

end GoesOn

end Waiting

end LiveGraph.Breakpoint
