import LiveGraph.Proofs.Client.Basic
import LiveGraph.Proofs.Reactive.Batch

/-!
# What is told of windows

A listener that writes down what it is told leaves a record of the windows it listens to. The record is
right if it tells each move by who left and who entered, and a change only where the window has moved since
the last one. How many changes a flush may still tell is read off what was put off to it.
-/

namespace LiveGraph

/-- What is told of a window: what has happened, and to which entity, if it is about one. -/
abbrev Told := WindowEvent × Option EntityRef

/-- What was told of windows under a name, first to last, by notes that are latest first. The store and the
serial of an entity are noted before what has happened to it. -/
def Note.told (name : String) : List Note → List Told
  | .window name' event (some _) :: .reply (.number serial) :: .reply (.number store) :: earlier =>
    Note.told name earlier ++ if name' = name then [(event, some ⟨store, serial⟩)] else []
  | .window name' event none :: earlier => Note.told name earlier ++ if name' = name then [(event, none)] else []
  | _ :: earlier => Note.told name earlier
  | [] => []

namespace World

variable (w : World)

/-- What was told of windows under a name, first to last. -/
def told (name : String) : List Told :=
  Note.told name w.session.notes

/-- What a listener writes down of an event: for a window the incarnation as well, as a URI may be given again. -/
def inscribed (name : String) (event : Event) : World :=
  let named := match event with
    | .window _ (some e) => (w.note (.reply (.number e.store))).note (.reply (.number e.serial))
    | _ => w
  named.note (event.note w name)

theorem told_inscribed_window (name name' : String) (event : WindowEvent) (e : Option EntityRef) :
    (w.inscribed name (.window event e)).told name' = w.told name' ++ if name = name' then [(event, e)] else [] := by
  cases e <;> rfl

theorem told_inscribed_other (name name' : String) {event : Event} (hevent : ∀ what e, event ≠ .window what e) :
    (w.inscribed name event).told name' = w.told name' := by
  cases event with
  | window what e => exact absurd rfl (hevent what e)
  | value _ => rfl
  | entity _ _ => rfl
  | property _ _ => rfl
  | edge _ _ => rfl
  | applied _ => rfl

theorem inscribed_eq (name : String) (event : Event) :
    ∃ notes, w.inscribed name event = w.modifySession fun s ↦ { s with notes := notes } := by
  unfold inscribed
  split <;> exact ⟨_, rfl⟩

/-- What a script writes down of an event that it asked for. -/
def reported (name : String) (filter : EventFilter) (event : Event) : World :=
  if filter.admits w event then w.inscribed name event else w

theorem reported_eq (name : String) (filter : EventFilter) (event : Event) :
    ∃ notes, w.reported name filter event = w.modifySession fun s ↦ { s with notes := notes } := by
  unfold reported
  split
  · exact w.inscribed_eq name event
  · exact ⟨w.session.notes, rfl⟩

end World

/-- Who leaves and who enters when a window moves, as it is told. -/
def WindowEvent.ofMove (before after : List EntityRef) : List Told :=
  (before.filter fun e ↦ !after.contains e).map (fun e ↦ (.leave, some e)) ++
    (after.filter fun e ↦ !before.contains e).map fun e ↦ (.enter, some e)

theorem WindowEvent.count_change_ofMove (before after : List EntityRef) :
    (WindowEvent.ofMove before after).count (.change, none) = 0 := by
  rw [List.count_eq_zero, ofMove, List.mem_append, List.mem_map, List.mem_map]
  rintro (⟨_, -, heq⟩ | ⟨_, -, heq⟩) <;> exact nomatch heq

/-- What may be told of a window on its way from one state to another, and whether it has moved since a
change was told. -/
inductive Course (start : List EntityRef) : List Told → List EntityRef → Bool → Prop
  | still : Course start [] start false
  | move {events : List Told} {window next : List EntityRef} {moved : Bool}
      (h : Course start events window moved) (hne : window ≠ next) (hnodup : next.Nodup) :
      Course start (events ++ WindowEvent.ofMove window next) next true
  | change {events : List Told} {window : List EntityRef} (h : Course start events window true) :
      Course start (events ++ [(.change, none)]) window false

namespace Course

variable {start window : List EntityRef} {events : List Told}

/-- A window that has not moved since a change was told is one that never moved, or a change is the last
thing that was told. -/
theorem eq_nil_or_concat (h : Course start events window false) :
    events = [] ∧ window = start ∨ ∃ before, events = before ++ [(.change, none)] := by
  cases h with
  | still => exact .inl ⟨rfl, rfl⟩
  | change h => exact .inr ⟨_, rfl⟩

end Course

namespace Effect

/-- How many changes of a view a flush may tell of what was put off: one for each that waits, and one more
where a signal waits behind the last of them, as its watchers may move the window again. -/
def room (id : ViewId) : List Effect → Nat
  | [] => 0
  | .view j :: rest => if j = id then room id rest + 1 else room id rest
  | .signal _ :: rest => max 1 (room id rest)
  | .derived _ :: rest => room id rest

variable (id : ViewId) (effects : List Effect)

theorem room_le : room id effects ≤ effects.count (.view id) + 1 := by
  induction effects with
  | nil => exact Nat.zero_le _
  | cons effect rest ih =>
    cases effect with
    | view j =>
      by_cases hj : j = id
      · subst hj
        rw [room, if_pos rfl, List.count_cons_self]
        exact Nat.succ_le_succ ih
      · rw [room, if_neg hj, List.count_cons_of_ne (by simpa using hj)]
        exact ih
    | signal j =>
      rw [room, List.count_cons_of_ne (by simp)]
      exact Nat.max_le.mpr ⟨Nat.le_add_left 1 _, ih⟩
    | derived j =>
      rw [room, List.count_cons_of_ne (by simp)]
      exact ih

/-- What other views have to tell takes no room. -/
theorem room_append_other {j : ViewId} (hj : j ≠ id) : room id (effects ++ [.view j]) = room id effects := by
  induction effects with
  | nil => exact if_neg hj
  | cons effect rest ih => cases effect <;> simp only [List.cons_append, room, ih]

/-- A change that is put off takes the room that there is behind all signals. -/
theorem room_append_self (hnot : Effect.view id ∉ effects) : room id (effects ++ [.view id]) = 1 := by
  induction effects with
  | nil => exact if_pos rfl
  | cons effect rest ih =>
    rw [List.mem_cons, not_or] at hnot
    obtain ⟨hne, hrest⟩ := hnot
    cases effect with
    | view j => rw [List.cons_append, room, if_neg fun hj ↦ hne (congrArg Effect.view hj.symm), ih hrest]
    | signal j => rw [List.cons_append, room, ih hrest, Nat.max_self]
    | derived j => rw [List.cons_append, room, ih hrest]

end Effect

namespace EventFilter

/-- Whether a filter lets an event of a window through. -/
def hears (event : WindowEvent) : EventFilter → Bool
  | .every => true
  | .kind wanted => wanted = "*"
  | .window wanted => event = wanted

theorem admits_window (filter : EventFilter) (w : World) (event : WindowEvent) (e : Option EntityRef) :
    filter.admits w (.window event e) = filter.hears event := by
  cases filter <;> simp [admits, hears, subjectKind]

end EventFilter

/-- Whether a callback writes down an event of a window under a name. -/
def Callback.hears (name : String) (event : WindowEvent) : Callback → Bool
  | .script name' filter _ => name' = name && filter.hears event
  | _ => false

/-- How many callbacks write down an event of a view under a name. -/
def World.hearers (w : World) (id : ViewId) (event : WindowEvent) (name : String) : Nat :=
  (w.view id).watchers.entries.countP fun entry ↦ entry.2.hears name event

/-- A name listens to one view: each event of it is written down once, and none of any other view. -/
def World.Hears (w : World) (name : String) (id : ViewId) : Prop :=
  ∀ j event, w.hearers j event name = if j = id then 1 else 0

/-- Two worlds that differ in what was noted, and what was told of windows in between under each name. -/
structure Noted (events : String → List Told) (w w' : World) : Prop where
  notes : ∃ notes, w' = w.modifySession fun s ↦ { s with notes := notes }
  told_eq : ∀ name, w'.told name = w.told name ++ events name

namespace Noted

variable {events events' : String → List Told} {w w' w'' : World}

theorem refl (w : World) : Noted (fun _ ↦ []) w w :=
  ⟨⟨w.session.notes, rfl⟩, fun _ ↦ (List.append_nil _).symm⟩

theorem trans (h : Noted events w w') (h' : Noted events' w' w'') :
    Noted (fun name ↦ events name ++ events' name) w w'' := by
  obtain ⟨notes, rfl⟩ := h.notes
  obtain ⟨notes', rfl⟩ := h'.notes
  exact ⟨⟨notes', rfl⟩, fun name ↦ by rw [h'.told_eq, h.told_eq, List.append_assoc]⟩

theorem view_eq (h : Noted events w w') (id : ViewId) : w'.view id = w.view id := by
  obtain ⟨notes, rfl⟩ := h.notes
  rfl

/-- A script writes down an event of a window if it hears it. -/
theorem reported_window (w : World) (name : String) (filter : EventFilter) (event : WindowEvent)
    (e : Option EntityRef) (reaction : List Step) :
    Noted (fun name' ↦ if (Callback.script name filter reaction).hears name' event then [(event, e)] else []) w
      (w.reported name filter (.window event e)) := by
  rw [World.reported, EventFilter.admits_window]
  cases hhears : filter.hears event with
  | true =>
    refine ⟨w.inscribed_eq name _, fun name' ↦ ?_⟩
    rw [if_pos rfl, World.told_inscribed_window]
    simp [Callback.hears, hhears]
  | false => simpa [Callback.hears, hhears] using refl w

/-- Whatever else a script writes down, it is nothing about windows. -/
theorem reported_other (w : World) (name : String) (filter : EventFilter) {event : Event}
    (hevent : ∀ what e, event ≠ .window what e) :
    Noted (fun _ ↦ []) w (w.reported name filter event) := by
  rw [World.reported]
  split
  · exact ⟨w.inscribed_eq name _, fun name' ↦ (w.told_inscribed_other name name' hevent).trans
      (List.append_nil _).symm⟩
  · exact refl w

end Noted

open Act

/-- Calls by which scripts write down what they are told, and do nothing else. -/
def Reports (D : Dispatch) : Prop :=
  ∀ name filter reaction event w, Agree (· = w) (D.call (.script name filter reaction) event)
    (D.call (.script name filter reaction) event) (fun _ ↦ (· = w.reported name filter event)) fun _ ↦ False

namespace Reports

variable {D : Dispatch} {C : World → Prop} {w : World} {id : ViewId} (h : Reports D)
  (hscripts : ∀ entry ∈ (w.view id).watchers.entries, ∃ name filter reaction,
    entry.2 = .script name filter reaction)
include h hscripts

/-- What is told of a view is written down as often as it is heard. -/
theorem agree_notify (event : WindowEvent) (e : Option EntityRef) :
    Agree (· = w) (@notify D (.view id) (.window event e)) (@notify D (.view id) (.window event e))
      (fun _ ↦ Noted (fun name ↦ List.replicate (w.hearers id event name) (event, e)) w) C := by
  let entries := (w.view id).watchers.entries
  let heard : String → List (Nat × Callback) → Nat := fun name rest ↦
    rest.countP fun entry ↦ entry.2.hears name event
  -- What was told to those before the rest was heard by as many as the rest leaves.
  let P : List (Nat × Callback) → World → Prop := fun rest w' ↦ (∀ entry ∈ rest, entry ∈ entries) ∧
    ∃ k : String → Nat, (∀ name, k name + heard name rest = heard name entries) ∧
      Noted (fun name ↦ List.replicate (k name) (event, e)) w w'
  refine agree_get fun w' hw' ↦ ?_
  subst hw'
  refine ((agree_notifyEach (P := P) entries (fun n callback rest w hw hgone ↦ ?_)
    fun n callback rest w hw ↦ ?_).pre fun w hw ↦ ?_).post fun _ w hw ↦ ?_
  · obtain ⟨hmem, k, -, hnoted⟩ := hw
    have hthere : (w.watchers (.view id)).contains n = true := by
      rw [World.watchers, hnoted.view_eq]
      exact List.any_eq_true.mpr ⟨_, hmem _ List.mem_cons_self, decide_eq_true rfl⟩
    rw [hgone] at hthere
    exact Bool.noConfusion hthere
  · obtain ⟨hmem, k, hk, hnoted⟩ := hw
    obtain ⟨name, filter, reaction, heq⟩ := hscripts _ (hmem _ List.mem_cons_self)
    obtain rfl : callback = .script name filter reaction := heq
    obtain ⟨heq, hout⟩ := h name filter reaction (.window event e) w w rfl
    have hnext : P rest (w.reported name filter (.window event e)) := by
      let one : String → Nat := fun name' ↦
        if (Callback.script name filter reaction).hears name' event then 1 else 0
      refine ⟨fun entry hentry ↦ hmem entry (List.mem_cons_of_mem _ hentry), fun name' ↦ k name' + one name',
        fun name' ↦ ?_, ?_⟩
      · have hcons : heard name' ((n, .script name filter reaction) :: rest) = heard name' rest + one name' :=
          List.countP_cons
        rw [← hk name', hcons, Nat.add_comm (heard name' rest), Nat.add_assoc]
      · have hreported := hnoted.trans (.reported_window w name filter event e reaction)
        refine ⟨hreported.notes, fun name' ↦ (hreported.told_eq name').trans ?_⟩
        rw [← List.replicate_append_replicate]
        simp only [one]
        split <;> rfl
    exact ⟨heq, hout.mono (fun _ w' hw' ↦ hw' ▸ hnext) fun _ h ↦ h.elim⟩
  · subst hw
    exact ⟨fun _ h ↦ h, fun _ ↦ 0, fun _ ↦ Nat.zero_add _, .refl w⟩
  · obtain ⟨-, k, hk, hnoted⟩ := hw
    obtain rfl : k = fun name ↦ heard name entries := funext hk
    exact hnoted

/-- What is told of several entities is told of one after the other. -/
theorem agree_tell (event : WindowEvent) (es : List EntityRef) :
    Agree (· = w) (@View.tell D id event es) (@View.tell D id event es)
      (fun _ ↦ Noted (fun name ↦ es.flatMap fun e ↦ List.replicate (w.hearers id event name) (event, some e)) w) C := by
  induction es generalizing w with
  | nil => exact agree_pure fun w' hw' ↦ hw' ▸ .refl w
  | cons e rest ih =>
    refine agree_bind (h.agree_notify hscripts event (some e)) fun _ w' hw' ↦ ?_
    have hview := hw'.view_eq id
    have hhearers : ∀ name, w'.hearers id event name = w.hearers id event name := fun name ↦ by
      rw [World.hearers, hview, World.hearers]
    refine ((ih (w := w') (hview ▸ hscripts)).post fun _ w'' hw'' ↦ ?_) w' rfl
    refine ⟨(hw'.trans hw'').notes, fun name ↦ ((hw'.trans hw'').told_eq name).trans ?_⟩
    rw [List.flatMap_cons, hhearers]

end Reports

/-- What listeners do that write down what they are told. -/
inductive Reporting
  | told (name : String) (event : Event)

namespace Reporting

def perform [Dispatch] : Reporting → Act Unit
  | told name event => modify (·.inscribed name event)

/-- Calls to a given depth, for listeners that write down what they are told. -/
@[reducible]
def dispatch (n : Nat) : Dispatch :=
  Client.dispatch Reporting.perform (fun name event ↦ .act (.told name event) .done) n

theorem call_script (n : Nat) (name : String) (filter : EventFilter) (reaction : List Step)
    (event : Event) (w : World) : (dispatch (n + 1)).call (.script name filter reaction) event w =
      .ok () (w.reported name filter event) := by
  rw [dispatch, Client.call_script, World.reported]
  simp only [bind_run, get_run]
  split <;> rfl

theorem reports (n : Nat) : Reports (dispatch n) := by
  intro name filter reaction event w
  cases n with
  | zero => exact fun _ _ ↦ ⟨rfl, trivial⟩
  | succ n =>
    intro w' hw'
    subst hw'
    rw [call_script]
    exact ⟨rfl, rfl⟩

end Reporting

end LiveGraph
