import LiveGraph.Proofs.Client.Run
import LiveGraph.Proofs.Lifecycle.Telling
import LiveGraph.Proofs.Store.Start

/-!
# Followers mirror a store

Code edits a store, and begins to follow it. After every operation, replaying what a follower was told onto the contents
that the store had when it began to follow yields the contents that the store has now, and everything that it was told
changes what is replayed. A follower that asks for one type is told exactly what is of that type.
-/

namespace LiveGraph.Lifecycle

open Act

variable {own : String → Prop}

/-- What tells of a follower that entities and edges have come and gone. -/
def lifecycle : List StoreEvent := [.added, .removed, .edgeAdded, .edgeRemoved]

/-- Somebody listens to some events under a name. -/
def enrol (name kind : String) (events : List StoreEvent) (w : World) : World :=
  events.foldl (fun w event ↦ w.modifyWatchers (.store 0 event) (·.add (.script name (.kind kind) []))) w

/-- Somebody begins to follow a store under a name, which is given only once. -/
def follow (name kind : String) (w : World) : World :=
  if w.session.subscriptions.contains name then w else (enrol name kind lifecycle w).nameSubscription name none

/-- What code does with a store that is followed. -/
inductive Following (own : String → Prop)
  | look (r : Onlooking own)
  | edit (e : Edit)
  | follow (name kind : String) (h : own name)

namespace Following

def perform [Dispatch] : Following own → Act Unit
  | look r => r.perform
  | edit e => e.perform 0
  | follow name kind _ => modify (Lifecycle.follow name kind)

/-- What an operation makes of the contents. -/
noncomputable def outcome (c : Contents) : Following own → Contents
  | look _ => c
  | edit e => c.edited e
  | follow _ _ _ => c

/-- What there is to tell of an operation. -/
def Reports (c : Contents) : Following own → List Happening → Prop
  | look _, told => told = []
  | edit e, told => c.Reports e told
  | follow _ _ _, told => told = []

/-- The name under which somebody begins to follow. -/
def begins : Following own → Option String
  | look _ => none
  | edit _ => none
  | follow name _ _ => some name

theorem Reports.replays {c : Contents} {op : Following own} {told : List Happening} (h : op.Reports c told) :
    c.Replays told (op.outcome c) := by
  cases op with
  | look r => exact h ▸ rfl
  | edit e => exact Contents.Reports.replays h
  | follow name kind hown => exact h ▸ rfl

end Following

/-- Operations, and what was told of each. -/
abbrev Story (own : String → Prop) := List (Following own × List Happening)

namespace Story

/-- What the operations of a story make of the contents. -/
noncomputable def outcome (c : Contents) (story : Story own) : Contents :=
  story.foldl (fun c step ↦ step.1.outcome c) c

def told (story : Story own) : List Happening :=
  story.flatMap (·.2)

/-- Of each operation that is told what there is to tell. -/
def Tells : Contents → Story own → Prop
  | _, [] => True
  | c, (op, told) :: rest => op.Reports c told ∧ Tells (op.outcome c) rest

/-- Nobody has begun to follow under a name. -/
def Free (name : String) (story : Story own) : Prop :=
  ∀ step ∈ story, step.1.begins ≠ some name

variable {c : Contents} {story before after : Story own}

/-- What is told leads from the contents at the beginning to those at the end. -/
theorem Tells.replays (h : Tells c story) : c.Replays story.told (story.outcome c) := by
  induction story generalizing c with
  | nil => rfl
  | cons step rest ih => exact h.1.replays.append (ih h.2)

theorem tells_append : Tells c (before ++ after) ↔ Tells c before ∧ Tells (before.outcome c) after := by
  induction before generalizing c with
  | nil => exact (iff_of_eq (true_and _)).symm
  | cons step rest ih => exact (and_congr_right fun _ ↦ ih).trans and_assoc.symm

theorem outcome_append : (before ++ after).outcome c = after.outcome (before.outcome c) :=
  List.foldl_append

theorem told_append : (before ++ after).told = before.told ++ after.told :=
  List.flatMap_append

end Story

/-- A store that is as the operations of a story have made it, where each follower was told what it should be told, and
what was told at any time leads from the contents that there were then to those that there are. -/
structure Mirrored (story : Story own) (w : World) : Prop where
  tells : story.Tells .empty
  contents_eq : contentsOf w = story.outcome .empty
  replays : ∀ before after : Story own, story = before ++ after →
    (before.outcome .empty).Replays after.told (contentsOf w)
  heard_eq : ∀ (before : Story own) name kind hown told (after : Story own),
    story = before ++ (.follow name kind hown, told) :: after → before.Free name → Follows w name →
      heard w name = (after.told.filter (·.isFor kind)).map (·.note name)

/-- What operations there were is told in a story that the store mirrors. -/
def Mirrors (history : List (Following own)) (w : World) : Prop :=
  ∃ story : Story own, story.map (·.1) = history ∧ Mirrored story w

/-- What an account is after an operation, of which something was told. -/
inductive Next (a : Account) : Following own → List Happening → Account → Prop
  | look (r : Onlooking own) : Next a (.look r) [] a
  | edit {e : Edit} {told : List Happening} (h : a.contents.Reports e told) : Next a (.edit e) told (a.reporting e told)
  | follow {name kind : String} {hown : own name} (h : a.followers name = none) (id : StoreEvent → Nat) :
    Next a (.follow name kind hown) [] { a with followers := Function.update a.followers name (some ⟨kind, id⟩) }
  | again {name kind : String} {hown : own name} (h : a.followers name ≠ none) : Next a (.follow name kind hown) [] a

namespace Next

variable {a a' : Account} {op : Following own} {told : List Happening} {name kind : String} {y : Follower}

theorem reports (h : Next a op told a') : op.Reports a.contents told := by
  cases h with
  | look r => rfl
  | edit h => exact h
  | follow h id => rfl
  | again h => rfl

theorem contents_eq (h : Next a op told a') : a'.contents = op.outcome a.contents := by
  cases h with
  | look r => rfl
  | edit h => rfl
  | follow h id => rfl
  | again h => rfl

theorem subject_eq (h : Next a op told a') : a'.subject = a.subject := by
  cases h with
  | look r => rfl
  | edit h => rfl
  | follow h id => rfl
  | again h => rfl

/-- Whoever follows goes on, and is told what it asks for. -/
theorem follower (h : Next a op told a') (hy : a.followers name = some y) : a'.followers name = some y ∧
    a'.told name = a.told name ++ (told.filter (·.isFor y.kind)).map (·.note name) := by
  cases h with
  | look r => exact ⟨hy, (List.append_nil _).symm⟩
  | edit h =>
    refine ⟨hy, ?_⟩
    simp only [Account.reporting, Account.telling, hy, Option.elim_some]
  | @follow name' kind hown h id =>
    have hne : name ≠ name' := fun heq ↦ Option.some_ne_none y ((heq ▸ hy).symm.trans h)
    exact ⟨(Function.update_of_ne hne _ _).trans hy, (List.append_nil _).symm⟩
  | again h => exact ⟨hy, (List.append_nil _).symm⟩

/-- Whoever does not follow yet was told nothing. -/
theorem told_eq (h : Next a op told a') (hnone : a.followers name = none) : a'.told name = a.told name := by
  cases h with
  | look r => rfl
  | edit h => exact Account.telling_of_none (a := { a with contents := _ }) hnone told
  | follow h id => rfl
  | again h => rfl

theorem begun {hown : own name} (h : Next a (.follow name kind hown) told a') (hnone : a.followers name = none) :
    ∃ id, a'.followers name = some ⟨kind, id⟩ := by
  cases h with
  | follow h id => exact ⟨id, Function.update_self ..⟩
  | again h => exact absurd hnone h

theorem none_iff (h : Next a op told a') (name : String) :
    a'.followers name = none ↔ a.followers name = none ∧ op.begins ≠ some name := by
  cases h with
  | look r => exact (and_iff_left (Option.some_ne_none name).symm).symm
  | edit h => exact (and_iff_left (Option.some_ne_none name).symm).symm
  | @follow name' kind hown h id =>
    by_cases hname : name' = name
    · simp [hname, Following.begins]
    · simp [hname, Following.begins, Function.update_of_ne (Ne.symm hname)]
  | @again name' kind hown h =>
    refine (and_iff_left_of_imp fun hnone heq ↦ h ?_).symm
    rwa [Option.some.inj heq]

end Next

/-- An account of a story. -/
structure Recorded (story : Story own) (a : Account) : Prop where
  tells : story.Tells .empty
  contents_eq : a.contents = story.outcome .empty
  subject_eq : a.subject = none
  free_iff : ∀ name, own name → (a.followers name = none ↔ story.Free name)
  told_eq : ∀ name, a.followers name = none → a.told name = []
  follows : ∀ (before : Story own) name kind hown told (after : Story own),
    story = before ++ (.follow name kind hown, told) :: after → before.Free name →
      (∃ id, a.followers name = some ⟨kind, id⟩) ∧ a.told name = (after.told.filter (·.isFor kind)).map (·.note name)

namespace Recorded

variable {story : Story own} {a a' : Account} {op : Following own} {told : List Happening}

theorem nil : Recorded ([] : Story own) ⟨.empty, fun _ ↦ none, fun _ ↦ [], none⟩ where
  tells := trivial
  contents_eq := rfl
  subject_eq := rfl
  free_iff _ _ := iff_of_true rfl fun _ hmem ↦ absurd hmem List.not_mem_nil
  told_eq _ _ := rfl
  follows _ _ _ _ _ _ heq := absurd heq.symm (List.append_ne_nil_of_right_ne_nil _ (List.cons_ne_nil _ _))

/-- The next operation of a story, and what was told of it. -/
theorem snoc (h : Recorded story a) (hnext : Next a op told a') : Recorded (story ++ [(op, told)]) a' where
  tells := Story.tells_append.mpr ⟨h.tells, h.contents_eq ▸ hnext.reports, trivial⟩
  contents_eq := by
    rw [hnext.contents_eq, h.contents_eq, Story.outcome_append]
    rfl
  subject_eq := hnext.subject_eq.trans h.subject_eq
  free_iff name hown := by
    rw [hnext.none_iff name, h.free_iff name hown]
    refine ⟨fun ⟨hfree, hop⟩ step hmem ↦ ?_, fun hfree ↦ ⟨fun step hmem ↦ ?_, ?_⟩⟩
    · rcases List.mem_append.mp hmem with hmem | hmem
      · exact hfree step hmem
      · rwa [List.mem_singleton.mp hmem]
    · exact hfree step (List.mem_append_left _ hmem)
    · exact hfree _ (List.mem_append_right _ (List.mem_singleton.mpr rfl))
  told_eq name hnone := by
    cases hbefore : a.followers name with
    | none => exact (hnext.told_eq hbefore).trans (h.told_eq name hbefore)
    | some y => exact absurd ((hnext.follower hbefore).1.symm.trans hnone) (Option.some_ne_none y)
  follows before name kind hown told' after heq hfree := by
    rcases List.eq_nil_or_concat after with rfl | ⟨after, step, rfl⟩
    · obtain ⟨rfl, hlast⟩ := List.append_inj' heq rfl
      obtain ⟨rfl, rfl⟩ := Prod.mk.inj (List.singleton_inj.mp hlast)
      have hnone := (h.free_iff name hown).mpr hfree
      exact ⟨hnext.begun hnone, (hnext.told_eq hnone).trans (h.told_eq name hnone)⟩
    · rw [List.concat_eq_append, ← List.cons_append, ← List.append_assoc] at heq
      obtain ⟨rfl, hlast⟩ := List.append_inj' heq rfl
      obtain rfl := List.singleton_inj.mp hlast
      obtain ⟨⟨id, hid⟩, htold⟩ := h.follows before name kind hown told' after rfl hfree
      obtain ⟨hfollower, htold'⟩ := hnext.follower hid
      refine ⟨⟨id, hfollower⟩, ?_⟩
      rw [htold', htold, List.concat_eq_append, Story.told_append, List.filter_append, List.map_append]
      simp only [Story.told, List.flatMap_singleton]

end Recorded

section Enrolling

variable {a : Account} {w : World} {ks : List Topic}

/-- Who listens is known to the store alone. -/
theorem enrol_eq (name kind : String) (events : List StoreEvent) (w : World) :
    ∃ stores, enrol name kind events w = { w with stores := stores } := by
  induction events generalizing w with
  | nil => exact ⟨w.stores, rfl⟩
  | cons event rest ih =>
    obtain ⟨stores, heq⟩ := ih (w.modifyWatchers (.store 0 event) (·.add (.script name (.kind kind) [])))
    exact ⟨stores, heq⟩

theorem quiet_follow (name kind : String) (w : World) : w.Quiet (Lifecycle.follow name kind w) := by
  obtain ⟨stores, heq⟩ := enrol_eq name kind lifecycle w
  unfold Lifecycle.follow
  split
  · exact .refl w
  · rw [heq]
    exact ⟨rfl, rfl, rfl, rfl⟩

theorem sameGround_enrol (name kind : String) (events : List StoreEvent) (w : World) :
    SameGround w (enrol name kind events w) :=
  SameGround.foldl (fun w event ↦ .modifyWatchers w (.store 0 event) _) w events

theorem listeners_enrol (name kind : String) {events : List StoreEvent} (hnodup : events.Nodup) (h : 0 < w.stores.size)
    (event : StoreEvent) : listeners (enrol name kind events w) event =
      if event ∈ events then (listeners w event).add (.script name (.kind kind) []) else listeners w event := by
  induction events generalizing w with
  | nil => exact (if_neg List.not_mem_nil).symm
  | cons first rest ih =>
    obtain ⟨hfirst, hrest⟩ := List.nodup_cons.mp hnodup
    let w' := w.modifyWatchers (.store 0 first) (·.add (.script name (.kind kind) []))
    have hsize : 0 < w'.stores.size := (SameGround.modifyWatchers w (.store 0 first) _).stores_size ▸ h
    have hnew : listeners w' event = if first = event then (listeners w event).add (.script name (.kind kind) [])
        else listeners w event := w.listeners_modifyWatchers h first event _
    refine (ih hrest hsize).trans ?_
    rw [hnew]
    by_cases hevent : first = event
    · subst hevent
      rw [if_neg hfirst, if_pos rfl, if_pos List.mem_cons_self]
    · simp only [if_neg hevent, List.mem_cons, Ne.symm hevent, false_or]

/-- Whoever listens once somebody has begun to follow listened before, or is the one who follows. -/
theorem mem_enrol {name kind : String} {event : StoreEvent} {id : Nat} {callback : Callback} (h : 0 < w.stores.size)
    (hentry : (id, callback) ∈ (listeners (enrol name kind lifecycle w) event).entries) :
    (id, callback) ∈ (listeners w event).entries ∨
      id = (listeners w event).issued + 1 ∧ callback = .script name (.kind kind) [] := by
  rw [listeners_enrol name kind (by decide) h] at hentry
  split at hentry
  · exact (List.mem_append.mp hentry).imp_right fun hnew ↦ Prod.mk.inj (List.mem_singleton.mp hnew)
  · exact .inl hentry

theorem numbered_enrol (name kind : String) {event : StoreEvent} (hstores : 0 < w.stores.size)
    (h : (listeners w event).Numbered) : (listeners (enrol name kind lifecycle w) event).Numbered := by
  rw [listeners_enrol name kind (by decide) hstores]
  split
  · exact h.add _
  · exact h

/-- Somebody new follows. -/
theorem Followed.begin {followers : String → Option Follower} {told : String → List Note} {name : String}
    (h : Followed own followers told w) (hstores : 0 < w.stores.size) (hnone : followers name = none) (kind : String) :
    Followed own (Function.update followers name (some ⟨kind, fun event ↦ (listeners w event).issued + 1⟩)) told
      ((enrol name kind lifecycle w).nameSubscription name none) := by
  let w' := (enrol name kind lifecycle w).nameSubscription name none
  have hlisteners (event : StoreEvent) : listeners w' event = listeners (enrol name kind lifecycle w) event := rfl
  have hmem (event : StoreEvent) {id : Nat} {name' : String} {filter : EventFilter} {reaction : List Step}
      (hentry : (id, .script name' filter reaction) ∈ (listeners w' event).entries) :
      (id, .script name' filter reaction) ∈ (listeners w event).entries ∨
        id = (listeners w event).issued + 1 ∧ name' = name ∧ filter = .kind kind := by
    rw [hlisteners] at hentry
    refine (mem_enrol hstores hentry).imp_right fun ⟨hid, hscript⟩ ↦ ⟨hid, ?_⟩
    obtain ⟨hname, hfilter, -⟩ := Callback.script.inj hscript
    exact ⟨hname, hfilter⟩
  have hsession : w'.session = { w.session with subscriptions := w.session.subscriptions.insert name none } := by
    obtain ⟨stores, heq⟩ := enrol_eq name kind lifecycle w
    rw [show w' = (enrol name kind lifecycle w).nameSubscription name none from rfl, heq]
    rfl
  refine ⟨fun event ↦ ?_, fun name' hown ↦ ?_, fun event id name' filter reaction hown hentry ↦ ?_,
    fun name' hown hfollows ↦ ?_⟩
  · rw [hlisteners]
    exact numbered_enrol name kind hstores (h.numbered event)
  · rw [hsession, Std.TreeMap.contains_insert, h.registered name' hown]
    by_cases hname : name = name'
    · subst hname
      simp
    · simp [hname, Function.update_of_ne (Ne.symm hname)]
  · rcases hmem event hentry with hold | ⟨rfl, rfl, rfl⟩
    · obtain ⟨y, hy, hid, hfilter⟩ := h.entry_eq event id name' filter reaction hown hold
      have hname : name' ≠ name := fun heq ↦ Option.some_ne_none y (hy.symm.trans (heq ▸ hnone))
      exact ⟨y, (Function.update_of_ne hname _ _).trans hy, hid, hfilter⟩
    · exact ⟨_, Function.update_self .., rfl, rfl⟩
  · have hheard : heard w' name' = heard w name' := by
      rw [heard, hsession, heard]
    rw [hheard]
    by_cases hname : name' = name
    · subst hname
      exact h.heard_eq name' hown (.inl hnone)
    · rw [Function.update_of_ne hname] at hfollows
      refine h.heard_eq name' hown (hfollows.imp_right fun hall event hevent ↦ ?_)
      obtain ⟨id, filter, reaction, hentry⟩ := hall event hevent
      exact ⟨id, filter, reaction, (hmem event hentry).resolve_right fun hnew ↦ hname hnew.2.1⟩

/-- Whoever begins to follow is in the account from then on. -/
theorem Kept.follow (h : Kept own a (.whole ∅) ks w) {name : String} (hown : own name) (kind : String) :
    ∃ a', Next a (.follow name kind hown) [] a' ∧ Kept own a' (.whole ∅) ks (Lifecycle.follow name kind w) := by
  have hregistered := h.2.followed.registered name hown
  unfold Lifecycle.follow
  cases hnone : a.followers name with
  | some y =>
    have htaken : w.session.subscriptions.contains name = true := by
      rw [hregistered, hnone]
      rfl
    rw [if_pos htaken]
    refine ⟨a, .again ?_, h⟩
    rw [hnone]
    exact Option.some_ne_none y
  | none =>
    have hfree : ¬w.session.subscriptions.contains name = true := by
      rw [hregistered, hnone]
      exact Bool.false_ne_true
    rw [if_neg hfree]
    have hground := h.ground
    have hnamed (w : World) : SameGround w (w.nameSubscription name none) :=
      ⟨.refl _, rfl, fun h ↦ ⟨h, rfl⟩, rfl, rfl, rfl, rfl⟩
    have hsame := (sameGround_enrol name kind lifecycle w).trans (hnamed _)
    have hviews : ((enrol name kind lifecycle w).nameSubscription name none).views = w.views := by
      obtain ⟨stores, heq⟩ := enrol_eq name kind lifecycle w
      rw [heq]
      rfl
    have hstores : 0 < w.stores.size := hground.stores_size ▸ Nat.one_pos
    have hfollowed := h.2.followed.begin hstores hnone kind
    exact ⟨_, .follow hnone _, hground.same hsame, h.2.plain.same hsame, hviews.trans h.2.noViews,
      (contentsOf_same hground hsame).trans h.2.contents_eq, hfollowed, fun e uri kind hsubject ↦
        (h.2.named e uri kind hsubject).same hsame⟩

end Enrolling

section Run

variable {D : Dispatch} {d : Nat} {f : Bool} {w : World}

/-- There is an account of the operations so far. -/
def Recounted (history : List (Following own)) (w : World) : Prop :=
  ∃ (story : Story own) (a : Account), story.map (·.1) = history ∧ Recorded story a ∧ (Kept own a).settled w

theorem Recounted.depthFree (history : List (Following own)) : DepthFree (Recounted history) :=
  fun _ d ⟨story, a, hhistory, hrecorded, hkept⟩ ↦ ⟨story, a, hhistory, hrecorded, Kept.depthFree _ d hkept⟩

/-- Where there is an account of what was told, the store is mirrored. -/
theorem Recounted.mirrors {history : List (Following own)} (h : Recounted history w) : Mirrors history w := by
  obtain ⟨story, a, hhistory, hrecorded, hkept⟩ := h
  have hcontents : contentsOf w = story.outcome .empty := hkept.2.contents_eq.trans hrecorded.contents_eq
  refine ⟨story, hhistory, hrecorded.tells, hcontents, fun before after heq ↦ ?_,
    fun before name kind hown told after heq hfree hfollows ↦ ?_⟩
  · have htells := hrecorded.tells
    rw [heq, Story.tells_append] at htells
    rw [hcontents, heq, Story.outcome_append]
    exact htells.2.replays
  · obtain ⟨-, htold⟩ := hrecorded.follows before name kind hown told after heq hfree
    exact (hkept.2.followed.heard_eq name hown (.inr hfollows)).trans htold

/-- Every operation is told of in the next part of the story. -/
theorem Heeding.agree_following (h : Heeding own D) (history : List (Following own)) (op : Following own) :
    Agree (At (Recounted history) d f) (@Following.perform own D op) (@Following.perform own D op)
      (fun _ ↦ At (Recounted (history ++ [op])) d f) fun _ ↦ False := by
  intro w hw
  obtain ⟨story, a, rfl, hrecorded, hkept⟩ := hw.holds
  have hat : At (Kept own a).settled d f w := ⟨⟨hkept, hw.depth_eq, hw.flushing_eq⟩, hw.idle⟩
  have hnext {w' : World} {a' : Account} {told : List Happening} (hnext : Next a op told a')
      (hkept' : (Kept own a').settled w') : Recounted (story.map (·.1) ++ [op]) w' :=
    ⟨story ++ [(op, told)], a', List.map_append, hrecorded.snoc hnext, hkept'⟩
  cases op with
  | look r => exact ((h.agree_perform r).post fun _ _ hw' ↦ hw'.mono fun _ hkept' ↦ hnext (.look r) hkept') w hat
  | edit e =>
    refine ((h.agree_edit hrecorded.subject_eq e).post fun _ _ hw' ↦ hw'.mono fun _ hreported ↦ ?_) w hat
    obtain ⟨told, hreports, hkept'⟩ := hreported
    exact hnext (.edit hreports) hkept'
  | follow name kind hown =>
    obtain ⟨a', hfollow, hkept'⟩ := Kept.follow hkept hown kind
    refine agree_modify (P := (· = w)) (fun w' hw' ↦ ?_) w rfl
    subst hw'
    exact hat.quiet (quiet_follow name kind w') (hnext hfollow hkept')

theorem Heeding.agree_flush_recounted (h : Heeding own D) (history : List (Following own)) :
    Agree (Held (Recounted history) 0 false) (@flush D) (@flush D) (fun _ ↦ At (Recounted history) 0 false)
      fun _ ↦ False := by
  intro w hw
  obtain ⟨story, a, hhistory, hrecorded, hkept⟩ := hw.holds
  exact (h.agree_flush.post fun _ _ hw' ↦ hw'.mono fun _ hkept' ↦ ⟨story, a, hhistory, hrecorded, hkept'⟩) w
    ⟨hkept, hw.depth_eq, hw.flushing_eq⟩

/-- A session starts with nothing to tell of. -/
theorem recounted_start (schema : Schema) (keepsFirst : Bool) :
    At (Recounted ([] : List (Following own))) 0 false (Session.start schema keepsFirst) := by
  have hground := ground_start schema keepsFirst
  obtain ⟨hstore, hviews⟩ := start_parts schema keepsFirst
  have hsession := start_session schema keepsFirst
  refine ⟨⟨⟨[], _, rfl, .nil, hground.holds.1, hground.holds.2, hviews, ?_, ?_, fun e uri kind hsubject ↦
    Option.noConfusion rfl (heq_of_eq hsubject)⟩, hground.depth_eq, hground.flushing_eq⟩, hground.idle⟩
  · rw [contentsOf, hstore]
    refine Contents.ext (funext fun uri ↦ ?_) (Set.ext fun edge ↦ iff_of_false List.not_mem_nil (Set.notMem_empty edge))
    exact Contents.kindAt_eq_none_iff.mpr (show (∅ : Std.TreeMap Uri Nat)[uri]? = none from Std.TreeMap.getElem?_emptyc)
  · have hlisteners (event : StoreEvent) : listeners (Session.start schema keepsFirst) event = .empty ∨
        listeners (Session.start schema keepsFirst) event = Watchers.empty.add (.forget 0) := by
      rw [listeners, hstore]
      cases event with
      | removed => exact .inr rfl
      | added => exact .inl rfl
      | updated => exact .inl rfl
      | edgeAdded => exact .inl rfl
      | edgeRemoved => exact .inl rfl
    refine ⟨fun event ↦ ?_, fun name _ ↦ ?_, fun event id name filter reaction _ hentry ↦ ?_, fun name _ _ ↦ ?_⟩
    · rcases hlisteners event with heq | heq <;> rw [heq]
      · exact .empty
      · exact Watchers.Numbered.empty.add _
    · rw [hsession]
      exact Std.TreeMap.contains_emptyc
    · rcases hlisteners event with heq | heq <;> rw [heq] at hentry
      · exact absurd hentry List.not_mem_nil
      · exact Callback.noConfusion (congrArg Prod.snd (List.mem_singleton.mp hentry))
    · rw [heard, hsession]
      rfl

/-- Runs code over a store that is followed, to a given depth. -/
def run (react : String → Event → Client (Onlooking own)) (n : Nat) (c : Client (Following own)) : Act Unit :=
  @Client.run _ (dispatch react n) (@Following.perform own (dispatch react n)) c

/-- Whatever operations there are, in whatever batches, and whatever those who are told of them do who only look on,
after each operation the store is mirrored: the operations do the same under an observation that would stop them where
that is not so. -/
theorem run_mirrors (react : String → Event → Client (Onlooking own)) (n : Nat) (p : Program (Following own))
    (schema : Schema) (keepsFirst : Bool) :
    let start := Session.start schema keepsFirst
    let next : List (Following own) → Following own → List (Following own) := fun history op ↦ history ++ [op]
    run react n p.code start = run react n (p.watched next Mirrors []) start ∧
      ∀ w, run react n p.code start = .ok () w → Mirrors (p.record next []) w := by
  intro start next
  have hheeding := heeding_dispatch react n
  have hrun : Agree (At (Recounted []) 0 false) (run react n p.code) (run react n (p.watched next Mirrors []))
      (fun _ ↦ At (Recounted (p.record next [])) 0 false) fun _ ↦ False :=
    Program.agree_run_watched Recounted.depthFree (fun history op d f ↦ hheeding.agree_following history op)
      hheeding.agree_flush_recounted (fun history d w hw ↦ hw.holds.mirrors) p [] 0
  obtain ⟨heq, hout⟩ := hrun start (recounted_start schema keepsFirst)
  refine ⟨heq, fun w hw ↦ ?_⟩
  change Act.Outcome _ _ (run react n p.code start) at hout
  rw [hw] at hout
  exact hout.holds.mirrors

/-- An edge from an entity to itself goes once, and before the entity. What is there already is not told of again. -/
example :
    let edge : Edge := ⟨"needs", "a", "a"⟩
    let code : Program (Following fun _ ↦ True) :=
      .act (.edit (.add ⟨"a", "task", []⟩)) <| .act (.follow "all" "*" trivial) <| .act (.follow "tasks" "task" trivial) <|
        .act (.edit (.link edge false)) <| .act (.edit (.link edge true)) <| .act (.edit (.remove "a")) .done
    let event : Note → Option StoreEvent
      | .entity _ event _ => some event
      | .edge _ event _ => some event
      | _ => none
    (match run (fun _ _ ↦ .done) 8 code.code (Session.start default false) with
      | .ok _ w => ["all", "tasks"].map fun name ↦ (heard w name).map event
      | .error _ _ => []) = [[some .edgeAdded, some .edgeRemoved, some .removed], [some .removed]] := by
  decide +kernel

end Run

end LiveGraph.Lifecycle
