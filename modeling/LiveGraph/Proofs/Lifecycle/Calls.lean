import LiveGraph.Proofs.Client.Run
import LiveGraph.Proofs.Lifecycle.Accounts
import LiveGraph.Proofs.Store.Integrity

/-!
# Telling those who follow a store

While callbacks keep accounts, and write down what they are told of what has come and gone, telling of one thing tells
all who follow and ask for it, each once, and nobody else. Operations on properties tell of nothing that has come or
gone, and neither does a flush. So callbacks do keep accounts, to any depth of calls, where the code that they carry out
only looks on: it leaves entities and edges alone, and may write properties, listen to whatever it likes under names
that belong to nobody, end all kinds of subscriptions, and crash.
-/

namespace LiveGraph.Lifecycle

open Act

variable {own : String → Prop} {a : Account} {D : Dispatch} {C : World → Prop} {d : Nat} {f : Bool}
variable {stage : Stage} {ks : List Topic} {w : World} {x : Happening} {event : Event}

/-- Nothing of what has come and gone is written down under a name that is somebody's own. -/
def Silent (own : String → Prop) (callback : Callback) (event : Event) : Prop :=
  ∀ name filter reaction, callback = .script name filter reaction →
    ∀ w name', own name' → isHeard name' (event.note w name) = false

/-- The account once something was written down under a name, if it is asked for. -/
def Account.noting (a : Account) (name kind : String) (x : Happening) : Account :=
  if x.isFor kind then { a with told := Function.update a.told name (a.told name ++ [x.note name]) } else a

/-- Where all callbacks keep accounts, and followers write down what they ask for. -/
structure Heeding (own : String → Prop) (D : Dispatch) : Prop where
  silent : ∀ a callback event d f, 0 < d ∨ f = true → Silent own callback event →
    Agree (Held (Kept own a).settled d f) (D.call callback event) (D.call callback event)
      (fun _ ↦ Held (Kept own a).settled d f) (Held (Kept own a).settled d f)
  spoken : ∀ a x event name kind reaction d f, 0 < d ∨ f = true → own name → Says a.subject event x →
    Agree (Held (Kept own a).settled d f) (D.call (.script name (.kind kind) reaction) event)
      (D.call (.script name (.kind kind) reaction) event)
      (fun _ ↦ Held (Kept own (a.noting name kind x)).settled d f)
      (Held (Kept own (a.noting name kind x)).settled d f)

theorem silent_value (callback : Callback) (v : Datum) : Silent own callback (.value v) :=
  fun _ _ _ _ _ _ _ ↦ rfl

theorem silent_property (callback : Callback) (e : EntityRef) (prop : String) : Silent own callback (.property e prop) :=
  fun _ _ _ _ _ _ _ ↦ rfl

/-- What is written down under a name is written down under no other. -/
theorem silent_script {name : String} (h : ¬own name) (filter : EventFilter) (reaction : List Step) :
    Silent own (.script name filter reaction) event := by
  intro name' _ _ heq w name'' hown
  cases heq
  have hne : name ≠ name'' := fun heq ↦ h (heq ▸ hown)
  cases event with
  | entity what e => exact decide_eq_false hne
  | edge what edge => exact decide_eq_false hne
  | value d => rfl
  | property e prop => rfl
  | window what e => rfl
  | applied refusal => rfl

section Listed

/-- Whether a name is on the list of those who are still to be called. -/
def Waits (name : String) (callbacks : List (Nat × Callback)) : Prop :=
  ∃ id filter reaction, (id, .script name filter reaction) ∈ callbacks

/-- Followers on a list of callbacks, each under the number it has for an event, which nobody else has. -/
structure Listed (own : String → Prop) (a : Account) (event : StoreEvent) (callbacks : List (Nat × Callback)) :
    Prop where
  nodup : (callbacks.map (·.1)).Nodup
  follower : ∀ id name filter reaction, own name → (id, .script name filter reaction) ∈ callbacks →
    ∃ y, a.followers name = some y ∧ id = y.id event ∧ filter = .kind y.kind

open Classical in
/-- The account while some callbacks are still to be called about what has come or gone. -/
noncomputable def Account.partly (a : Account) (x : Happening) (callbacks : List (Nat × Callback)) : Account :=
  { a with told := fun name ↦ if Waits name callbacks then a.told name else (a.telling [x]).told name }

variable {id : Nat} {callback : Callback} {callbacks rest : List (Nat × Callback)} {name : String}
variable {filter : EventFilter} {reaction : List Step}

namespace Account

theorem partly_of_waits (h : Waits name callbacks) : (a.partly x callbacks).told name = a.told name :=
  if_pos h

theorem partly_of_not_waits (h : ¬Waits name callbacks) :
    (a.partly x callbacks).told name = (a.telling [x]).told name :=
  if_neg h

theorem partly_congr {callbacks' : List (Nat × Callback)} (h : Waits name callbacks ↔ Waits name callbacks') :
    (a.partly x callbacks).told name = (a.partly x callbacks').told name := by
  by_cases hwaits : Waits name callbacks
  · rw [partly_of_waits hwaits, partly_of_waits (h.mp hwaits)]
  · rw [partly_of_not_waits hwaits, partly_of_not_waits (mt h.mpr hwaits)]

theorem partly_nil : a.partly x [] = a.telling [x] := by
  have hnone (name : String) : ¬Waits name [] := fun ⟨_, _, _, hmem⟩ ↦ List.not_mem_nil hmem
  simp only [partly, hnone, if_false]
  rfl

/-- Whoever does not follow is not told. -/
theorem telling_of_none (h : a.followers name = none) (xs : List Happening) :
    (a.telling xs).told name = a.told name := by
  simp only [telling, h, Option.elim_none, List.append_nil]

/-- A follower is told what it asks for. -/
theorem telling_single {y : Follower} (h : a.followers name = some y) :
    (a.telling [x]).told name = if x.isFor y.kind then a.told name ++ [x.note name] else a.told name := by
  simp only [telling, h, Option.elim_some]
  cases hfor : x.isFor y.kind <;> simp [hfor]

theorem noting_self (name kind : String) :
    (a.noting name kind x).told name = if x.isFor kind then a.told name ++ [x.note name] else a.told name := by
  rw [noting]
  split
  · exact Function.update_self ..
  · rfl

theorem noting_of_ne {name' kind : String} (h : name' ≠ name) :
    (a.noting name kind x).told name' = a.told name' := by
  rw [noting]
  split
  · exact Function.update_of_ne h ..
  · rfl

theorem noting_eq (name kind : String) :
    a.noting name kind x = { a with told := (a.noting name kind x).told } := by
  rw [noting]
  split <;> rfl

end Account

theorem waits_cons : Waits name ((id, callback) :: rest) ↔
    (∃ filter reaction, callback = .script name filter reaction) ∨ Waits name rest := by
  constructor
  · rintro ⟨id', filter, reaction, hmem⟩
    rcases List.mem_cons.mp hmem with heq | hmem
    · exact .inl ⟨filter, reaction, (congrArg Prod.snd heq).symm⟩
    · exact .inr ⟨id', filter, reaction, hmem⟩
  · rintro (⟨filter, reaction, rfl⟩ | ⟨id', filter, reaction, hmem⟩)
    · exact ⟨id, filter, reaction, List.mem_cons_self⟩
    · exact ⟨id', filter, reaction, List.mem_cons_of_mem _ hmem⟩

theorem waits_cons_of_ne (h : ∀ filter reaction, callback ≠ .script name filter reaction) :
    Waits name ((id, callback) :: rest) ↔ Waits name rest :=
  waits_cons.trans (or_iff_right fun ⟨filter, reaction, heq⟩ ↦ h filter reaction heq)

namespace Listed

variable {listed : StoreEvent}

theorem tail (h : Listed own a listed ((id, callback) :: rest)) : Listed own a listed rest :=
  ⟨(List.nodup_cons.mp h.nodup).2, fun id name filter reaction hown hmem ↦
    h.follower id name filter reaction hown (List.mem_cons_of_mem _ hmem)⟩

/-- A follower is on the list only once. -/
theorem not_waits (h : Listed own a listed ((id, .script name filter reaction) :: rest)) (hown : own name) :
    ¬Waits name rest := by
  rintro ⟨id', filter', reaction', hmem⟩
  obtain ⟨y, hy, hid, -⟩ := h.follower id name filter reaction hown List.mem_cons_self
  obtain ⟨y', hy', hid', -⟩ := h.follower id' name filter' reaction' hown (List.mem_cons_of_mem _ hmem)
  obtain rfl := Option.some.inj (hy.symm.trans hy')
  refine (List.nodup_cons.mp h.nodup).1 (List.mem_map.mpr ⟨_, hmem, ?_⟩)
  exact hid'.trans hid.symm

end Listed

theorem event_ne_updated (x : Happening) : x.event ≠ .updated := by
  cases x <;> exact StoreEvent.noConfusion

/-- Those who listen are on the list, and nobody else who follows waits to be told. -/
theorem Kept.list (h : Kept own a (.whole ∅) ks w) (x : Happening) :
    Listed own a x.event (listeners w x.event).entries ∧
      Kept own (a.partly x (listeners w x.event).entries) (.whole ∅) ks w := by
  refine ⟨⟨(h.2.followed.numbered x.event).nodup, h.2.followed.entry_eq x.event⟩, h.retell _ fun name hown hfollows ↦ ?_⟩
  by_cases hwaits : Waits name (listeners w x.event).entries
  · exact if_pos hwaits
  · refine (if_neg hwaits).trans (Account.telling_of_none (hfollows.resolve_right fun hall ↦ ?_) [x])
    exact hwaits (hall x.event (event_ne_updated x))

/-- Whoever is not called any more does not follow any more. -/
theorem Kept.skip (hlisted : Listed own a x.event ((id, callback) :: rest))
    (h : Kept own (a.partly x ((id, callback) :: rest)) (.whole ∅) ks w)
    (hgone : (listeners w x.event).contains id = false) : Kept own (a.partly x rest) (.whole ∅) ks w := by
  refine h.retell (a.partly x rest).told fun name hown hfollows ↦ ?_
  by_cases hscript : ∃ filter reaction, callback = .script name filter reaction
  · obtain ⟨filter, reaction, rfl⟩ := hscript
    obtain ⟨y, hy, rfl, -⟩ := hlisted.follower id name filter reaction hown List.mem_cons_self
    have hall : Follows w name := hfollows.resolve_left fun hnone ↦
      Option.some_ne_none y (hy.symm.trans hnone)
    obtain ⟨id', filter', reaction', hmem⟩ := hall x.event (event_ne_updated x)
    obtain ⟨y', hy', rfl, -⟩ := h.2.followed.entry_eq x.event id' name filter' reaction' hown hmem
    obtain rfl := Option.some.inj (hy.symm.trans hy')
    have hthere : (listeners w x.event).contains (y.id x.event) = true :=
      List.any_eq_true.mpr ⟨_, hmem, decide_eq_true rfl⟩
    exact absurd (hthere.symm.trans hgone) Bool.true_eq_false.mp
  · simp only [not_exists] at hscript
    exact (Account.partly_congr (waits_cons_of_ne hscript)).symm

/-- A follower that was called was told. -/
theorem Kept.strikeOff {kind : String} (hlisted : Listed own a x.event ((id, .script name (.kind kind) reaction) :: rest))
    (hown : own name)
    (h : Kept own ((a.partly x ((id, .script name (.kind kind) reaction) :: rest)).noting name kind x) (.whole ∅) ks w) :
    Kept own (a.partly x rest) (.whole ∅) ks w := by
  obtain ⟨y, hy, -, hfilter⟩ := hlisted.follower id name (.kind kind) reaction hown List.mem_cons_self
  obtain rfl : kind = y.kind := EventFilter.kind.inj hfilter
  rw [Account.noting_eq] at h
  refine h.retell (a.partly x rest).told fun name' _ _ ↦ ?_
  by_cases hname : name' = name
  · subst hname
    have hwaits : Waits name' ((id, .script name' (.kind y.kind) reaction) :: rest) :=
      ⟨id, _, reaction, List.mem_cons_self⟩
    rw [Account.partly_of_not_waits (hlisted.not_waits hown), Account.telling_single hy, Account.noting_self,
      Account.partly_of_waits hwaits]
  · rw [Account.noting_of_ne hname]
    exact (Account.partly_congr (waits_cons_of_ne fun _ _ heq ↦ hname (Callback.script.inj heq).1.symm)).symm

end Listed

namespace Heeding

/-- The callbacks that are still to be called, and what is known meanwhile. -/
def Calling (own : String → Prop) (a : Account) (x : Happening) (d : Nat) (f : Bool) (callbacks : List (Nat × Callback))
    (w : World) : Prop :=
  Listed own a x.event callbacks ∧ Held (Kept own (a.partly x callbacks)).settled d f w

variable (h : Heeding own D) (hbusy : 0 < d ∨ f = true)
include h hbusy

/-- A callback that is called about what has come or gone. -/
theorem agree_call (hmeant : Says a.subject event x) (id : Nat) (callback : Callback) (rest : List (Nat × Callback)) :
    Agree (Calling own a x d f ((id, callback) :: rest)) (D.call callback event) (D.call callback event)
      (fun _ ↦ Calling own a x d f rest) (Calling own a x d f rest) := by
  rintro w ⟨hlisted, hkept⟩
  let a' := a.partly x ((id, callback) :: rest)
  by_cases hscript : ∃ name filter reaction, callback = .script name filter reaction ∧ own name
  · obtain ⟨name, filter, reaction, rfl, hown⟩ := hscript
    obtain ⟨y, -, -, rfl⟩ := hlisted.follower id name filter reaction hown List.mem_cons_self
    have hdone (w' : World) (hw' : Held (Kept own (a'.noting name y.kind x)).settled d f w') :
        Calling own a x d f rest w' :=
      ⟨hlisted.tail, Kept.strikeOff hlisted hown hw'.holds, hw'.depth_eq, hw'.flushing_eq⟩
    exact (h.spoken a' x event name y.kind reaction d f hbusy hown hmeant).mono (fun _ h ↦ h) (fun _ ↦ hdone) hdone
      w hkept
  · have hother (name : String) (hown : own name) (filter : EventFilter) (reaction : List Step) :
        callback ≠ .script name filter reaction := fun heq ↦ hscript ⟨name, filter, reaction, heq, hown⟩
    have hsilent : Silent own callback event := by
      intro name filter reaction heq
      refine silent_script (fun hown ↦ hother name hown filter reaction heq) filter reaction name filter reaction rfl
    have hdone (w' : World) (hw' : Held (Kept own a').settled d f w') : Calling own a x d f rest w' := by
      have hkept : Kept own a' (.whole ∅) [] w' := hw'.holds
      refine ⟨hlisted.tail, hkept.retell (a.partly x rest).told fun name hown _ ↦ ?_, hw'.depth_eq, hw'.flushing_eq⟩
      exact (Account.partly_congr (waits_cons_of_ne (hother name hown))).symm
    exact (h.silent a' callback event d f hbusy hsilent).mono (fun _ h ↦ h) (fun _ ↦ hdone) hdone w hkept

/-- Of what has come or gone all are told who follow and ask for it. -/
theorem agree_tell (hmeant : Says a.subject event x) :
    Agree (Held (Kept own a).settled d f) (@notify D (.store 0 x.event) event) (@notify D (.store 0 x.event) event)
      (fun _ ↦ Held (Kept own (a.telling [x])).settled d f) C := by
  refine agree_get fun w hw ↦ ?_
  obtain ⟨hlisted, hkept⟩ := Kept.list hw.holds x
  refine (agree_notifyEach_there (P := Calling own a x d f) (listeners w x.event).entries
    (fun id callback rest w hw hgone ↦ ?_) fun id callback rest ↦ ?_).mono (fun w' hw' ↦ ?_) (fun _ w' hw' ↦ ?_)
    fun _ h ↦ h
  · exact ⟨hw.1.tail, Kept.skip hw.1 hw.2.holds hgone, hw.2.depth_eq, hw.2.flushing_eq⟩
  · exact (h.agree_call hbusy hmeant id callback rest).pre fun _ hw ↦ hw.1
  · subst hw'
    exact ⟨hlisted, hkept, hw.depth_eq, hw.flushing_eq⟩
  · rw [← Account.partly_nil]
    exact hw'.2

/-- To tell of anything else is not written down under the name of a follower. -/
theorem agree_notify (channel : Channel) (hsilent : ∀ callback, Silent own callback event) :
    Agree (Held (Kept own a).settled d f) (@notify D channel event) (@notify D channel event)
      (fun _ ↦ Held (Kept own a).settled d f) C :=
  Act.agree_notify fun callback ↦ h.silent a callback event d f hbusy (hsilent callback)

omit hbusy

theorem agree_effect (effect : Effect) :
    Agree (Held (Kept own a).settled 0 true) (@Effect.run D effect) (@Effect.run D effect)
      (fun _ ↦ Held (Kept own a).settled 0 true) fun _ ↦ False := by
  cases effect with
  | derived id => exact Kept.viewless.agree_effect_derived id
  | view id => exact Kept.viewless.agree_effect_view id
  | signal id =>
    refine agree_get fun w hw ↦ agree_ite (fun _ ↦ ?_) fun _ ↦ agree_pure fun w' hw' ↦ hw' ▸ hw
    refine agree_bind (agree_modify (Q := fun _ ↦ Held (Kept own a).settled 0 true) fun w' hw' ↦
      hw' ▸ ⟨Kept.same hw.holds (.modifySignal w id _) ⟨rfl, rfl, rfl⟩, hw.depth_eq, hw.flushing_eq⟩)
      fun _ ↦ agree_get fun w hw ↦ ?_
    refine agree_ite (fun _ ↦ ?_) fun _ ↦ agree_pure fun w' hw' ↦ hw' ▸ hw
    exact (h.agree_notify (.inr rfl) _ fun callback ↦ silent_value callback _).pre fun w' hw' ↦ hw' ▸ hw

theorem agree_flush : Agree (Held (Kept own a).settled 0 false) (@flush D) (@flush D)
    (fun _ ↦ At (Kept own a).settled 0 false) fun _ ↦ False := by
  refine Kept.viewless.agree_flush (Kept.viewless.rounds rfl fun w effect rest frames hw _ ↦ ?_)
  refine (h.agree_effect effect).pre fun w' hw' ↦ hw' ▸ ⟨Kept.same hw.holds ⟨.refl _, rfl, fun hnone ↦
    ⟨hnone, hw.holds.2.plain.queue_eq.symm⟩, rfl, rfl, rfl, rfl⟩ ⟨rfl, rfl, rfl⟩, hw.depth_eq, hw.flushing_eq⟩

/-- Operations on properties leave an account as it is. -/
theorem assigning : Assigning (Kept own a) 0 D D fun _ ↦ False where
  depthFree _ _ := Kept.depthFree
  count _ _ _ _ hw := hw.counted _
  crash _ _ h := h
  reindex untold ks w e hw _ _ := by
    have hfiled : Kept own a (.filed untold e) ks w := hw
    exact hfiled.same (.reindex w e) (.reindex w e)
  obsolete _ _ _ hw _ _ := hw
  updated e prop d f _ := (h.agree_notify (.inl (Nat.succ_pos d)) _ fun callback ↦ silent_property callback e prop).pre
    fun _ hw ↦ hw.mono fun _ hw ↦ hw.1
  write _ _ _ _ id v hw _ _ _ _ _ := hw.write id v
  store_eq _ _ hw hknown := hw.1.store_eq hknown
  found _ _ _ hw hfound := hw.1.coherent.pos (World.live_of_find? hfound).2
  held _ _ hw := OnGround.held hw.1
  addProperty w e prop v d f hw _ hserial _ _ := by
    have hkept : Kept own a (.whole {e}) [] w := hw.holds
    have hadded : Kept own a (.whole {e}) [] (w.addProperty e prop v).2 :=
      hkept.same (.addProperty w e prop v hserial) (.addProperty w e prop v)
    exact agree_advance (I := Kept own a (.whole {e}) []) Kept.depthFree (hw.quiet (w.quiet_addProperty e prop v) rfl)
      (hadded.counted (.signal (w.entity e).shape)) fun _ _ ↦ h.agree_flush

theorem agree_propertyChanged (hbusy : 0 < d ∨ f = true) (e : EntityRef) (prop : String) :
    Agree (Held (Kept own a).settled d f) (@Entity.propertyChanged D e prop) (@Entity.propertyChanged D e prop)
      (fun _ ↦ Held (Kept own a).settled d f) fun _ ↦ False := by
  by_cases he : e.store = 0
  · exact (h.assigning.agree_propertyChanged (fun _ _ ↦ h.agree_flush) he prop).mono
      (fun w hw ↦ hw.at_busy hbusy) (fun _ w hw ↦ hw.toHeld) fun _ h ↦ h
  · refine agree_get fun w hw ↦ ?_
    rw [Ground.not_isCurrent hw.holds.1 he]
    exact agree_pure fun w' hw' ↦ hw' ▸ hw

/-- The callbacks of the session itself leave an account as it is. -/
theorem agree_callback (hbusy : 0 < d ∨ f = true) (callback : Callback) (event : Event)
    (hscript : ∀ name filter reaction, callback ≠ .script name filter reaction) :
    Agree (Held (Kept own a).settled d f) (@Callback.run D callback event) (@Callback.run D callback event)
      (fun _ ↦ Held (Kept own a).settled d f) fun _ ↦ False :=
  Kept.viewless.agree_callback hbusy (h.agree_propertyChanged hbusy) callback event hscript

end Heeding

/-- Code neither adds nor removes entities or edges, and does not listen under a name that is somebody's own. -/
def Harmless (own : String → Prop) : Listening → Prop
  | .edit e => ¬e.Structural
  | .listen _ _ name => ¬own name
  | .unlisten _ _ => True

/-- What those do who only look on. -/
structure Onlooking (own : String → Prop) where
  op : Listening
  harmless : Harmless own op

def Onlooking.perform [Dispatch] (r : Onlooking own) : Act Unit :=
  r.op.perform

/-- Calls to a given depth. Scripts write down what they are told, and carry out the code of their name. -/
@[reducible]
def dispatch (react : String → Event → Client (Onlooking own)) : Nat → Dispatch
  | 0 => ⟨0, fun _ _ ↦ throw .rounds, fun _ ↦ throw .rounds⟩
  | n + 1 =>
    { rounds := n
      call := fun callback event ↦
        letI := dispatch react n
        match callback with
        | .script name filter _ => do
          let w ← get
          if filter.admits w event then
            modify (·.note (event.note w name))
            (react name event).run Onlooking.perform
        | callback => callback.run event
      compute := fun id ↦ do
        letI := dispatch react n
        ((← get).derived id).compute.run }

theorem listeners_modify (h : Ground (fun _ ↦ False) w) (event event' : StoreEvent) (F : Watchers → Watchers) :
    listeners (w.modifyWatchers (.store 0 event) F) event' =
      if event = event' then F (listeners w event') else listeners w event' :=
  w.listeners_modifyWatchers (h.stores_size ▸ Nat.one_pos) event event' F

/-- Who listens to an event may change, as long as nobody new listens under the name of a follower. -/
theorem Kept.modifyListeners (h : Kept own a (.whole ∅) ks w) (event : StoreEvent) {F : Watchers → Watchers}
    (hnumbered : ∀ ws : Watchers, ws.Numbered → (F ws).Numbered)
    (hmem : ∀ (ws : Watchers) id name filter reaction, own name → (id, .script name filter reaction) ∈ (F ws).entries →
      (id, .script name filter reaction) ∈ ws.entries) :
    Kept own a (.whole ∅) ks (w.modifyWatchers (.store 0 event) F) := by
  have hground := h.ground
  have hsame : SameGround w (w.modifyWatchers (.store 0 event) F) := .modifyWatchers w (.store 0 event) F
  refine ⟨hground.same hsame, h.2.plain.same hsame, h.2.noViews, (contentsOf_same hground hsame).trans h.2.contents_eq,
    h.2.followed.shrink (fun event' ↦ ?_) (fun event' id name filter reaction hown hentry ↦ ?_) rfl,
    fun e uri kind hsubject ↦ (h.2.named e uri kind hsubject).same hsame⟩
  · rw [listeners_modify hground]
    split
    · exact hnumbered _ (h.2.followed.numbered event')
    · exact h.2.followed.numbered event'
  · rw [listeners_modify hground] at hentry
    split at hentry
    · exact hmem _ id name filter reaction hown hentry
    · exact hentry

/-- Something is written down. -/
theorem Kept.note (h : Kept own a (.whole ∅) ks w) (n : Note) {told : String → List Note}
    (heq : ∀ name, own name → told name = if isHeard name n then a.told name ++ [n] else a.told name) :
    Kept own { a with told := told } (.whole ∅) ks (w.note n) := by
  have hsame : SameGround w (w.note n) := ⟨.refl _, rfl, fun h ↦ ⟨h, rfl⟩, rfl, rfl, rfl, rfl⟩
  exact ⟨h.ground.same hsame, h.2.plain.same hsame, h.2.noViews, h.2.contents_eq, h.2.followed.note n heq,
    fun e uri kind hsubject ↦ (h.2.named e uri kind hsubject).same hsame⟩

namespace Heeding

variable (h : Heeding own D)
include h

/-- Whoever only looks on leaves an account as it is. -/
theorem agree_perform (r : Onlooking own) : Agree (At (Kept own a).settled d f) (@Onlooking.perform own D r)
    (@Onlooking.perform own D r) (fun _ ↦ At (Kept own a).settled d f) fun _ ↦ False := by
  obtain ⟨op, hharmless⟩ := r
  cases op with
  | edit e =>
    exact h.assigning.agree_perform (fun _ _ ↦ h.agree_flush) e hharmless fun w name kind x _ hw ↦
      Kept.same hw (.putIndex w 0 name kind x) (.putIndex w 0 name kind x)
  | listen event kind name =>
    refine agree_bind (Q := fun _ ↦ At (Kept own a).settled d f) (agree_modifyGet fun w hw ↦ ?_) fun _ ↦
      agree_pure fun _ hw ↦ hw
    refine hw.quiet ⟨rfl, rfl, rfl, rfl⟩ (Kept.modifyListeners hw.holds event (fun ws hws ↦ hws.add _)
      fun ws id name' filter reaction hown hentry ↦ ?_)
    refine (List.mem_append.mp hentry).resolve_right fun hnew ↦ hharmless ?_
    have heq := congrArg Prod.snd (List.mem_singleton.mp hnew)
    exact (Callback.script.inj heq).1 ▸ hown
  | unlisten event id =>
    refine agree_modify fun w hw ↦ ?_
    exact hw.quiet ⟨rfl, rfl, rfl, rfl⟩ (Kept.modifyListeners hw.holds event (fun ws hws ↦ hws.remove id)
      fun ws id' name filter reaction _ hentry ↦ (List.mem_filter.mp hentry).1)

theorem agree_code (c : Client (Onlooking own)) (hbusy : 0 < d ∨ f = true) :
    Agree (Held (Kept own a).settled d f) (@Client.run _ D (@Onlooking.perform own D) c)
      (@Client.run _ D (@Onlooking.perform own D) c) (fun _ ↦ Held (Kept own a).settled d f)
      (Held (Kept own a).settled d f) :=
  Client.agree_run_busy Kept.depthFree (fun r _ _ hbusy ↦ (h.agree_perform r).mono (fun _ hw ↦ hw.at_busy hbusy)
    (fun _ _ hw ↦ hw.toHeld) fun _ h ↦ h) c d f hbusy

end Heeding

/-- Those who follow keep accounts, whatever code they carry out, to any depth of calls. -/
theorem heeding_dispatch (react : String → Event → Client (Onlooking own)) (n : Nat) :
    Heeding own (dispatch react n) := by
  induction n with
  | zero => exact ⟨fun _ _ _ _ _ _ _ _ _ ↦ ⟨rfl, trivial⟩, fun _ _ _ _ _ _ _ _ _ _ _ _ _ ↦ ⟨rfl, trivial⟩⟩
  | succ n ih =>
    refine ⟨fun a callback event d f hbusy hsilent ↦ ?_, fun a x event name kind reaction d f hbusy hown hmeant ↦ ?_⟩
    · by_cases hscript : ∃ name filter reaction, callback = .script name filter reaction
      · obtain ⟨name, filter, reaction, rfl⟩ := hscript
        refine agree_get fun w hw ↦ agree_ite (fun _ ↦ ?_) fun _ ↦ agree_pure fun w' hw' ↦ hw' ▸ hw
        refine agree_bind (agree_modify (Q := fun _ ↦ Held (Kept own a).settled d f) fun w' hw' ↦ ?_) fun _ ↦
          ih.agree_code (react name event) hbusy
        subst hw'
        refine ⟨Kept.note hw.holds _ fun name' hown ↦ ?_, hw.depth_eq, hw.flushing_eq⟩
        rw [hsilent name filter reaction rfl w' name' hown]
        rfl
      · have hother : ∀ name filter reaction, callback ≠ .script name filter reaction := fun name filter reaction heq ↦
          hscript ⟨name, filter, reaction, heq⟩
        have hcall : (dispatch react (n + 1)).call callback event = @Callback.run (dispatch react n) callback event := by
          cases callback with
          | script name filter reaction => exact absurd rfl (hother name filter reaction)
          | property e prop => rfl
          | forget id => rfl
          | view id what => rfl
        rw [hcall]
        exact (ih.agree_callback hbusy callback event hother).mono (fun _ h ↦ h) (fun _ _ h ↦ h) fun _ h ↦ h.elim
    · refine agree_get fun w hw ↦ ?_
      have hadmits := Scene.admits_eq hw.holds.2 hmeant kind
      refine agree_ite (fun hfor ↦ ?_) fun hnot ↦ agree_pure fun w' hw' ↦ ?_
      · rw [hadmits] at hfor
        refine agree_bind (agree_modify (Q := fun _ ↦ Held (Kept own (a.noting name kind x)).settled d f)
          fun w' hw' ↦ ?_) fun _ ↦ ih.agree_code (react name event) hbusy
        subst hw'
        rw [Scene.note_eq hw.holds.2 hmeant name, Account.noting_eq]
        refine ⟨Kept.note hw.holds _ fun name' hown ↦ ?_, hw.depth_eq, hw.flushing_eq⟩
        by_cases hname : name' = name
        · subst hname
          rw [Account.noting_self, if_pos hfor, isHeard_note, decide_eq_true rfl, if_pos rfl]
        · rw [Account.noting_of_ne hname, isHeard_note, decide_eq_false (Ne.symm hname), if_neg Bool.false_ne_true]
      · rw [hadmits] at hnot
        subst hw'
        rw [Account.noting, if_neg hnot]
        exact hw

end LiveGraph.Lifecycle
