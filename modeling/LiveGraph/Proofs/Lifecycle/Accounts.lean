import LiveGraph.Proofs.Lifecycle.Contents
import LiveGraph.Proofs.Store.Backdrop
import LiveGraph.Session.Basic

/-!
# Accounts of a store and its followers

A follower listens to all that comes and goes, or to what is of one type, and has a name that nobody else has. Under
that name it is written down what it is told. An account says what a store has, who follows it, and what each of them
was told so far. It is kept at every stage of an operation: what changes neither the ground nor the listeners leaves it
as it is, and of each step that changes what the store has it is said here what the account is after it.
-/

namespace LiveGraph.Lifecycle

/-- Whether a note is of something that came or went, as told under a name. -/
def isHeard (name : String) : Note → Bool
  | .entity name' _ _ => name' = name
  | .edge name' _ _ => name' = name
  | _ => false

/-- What was told under a name of what came and went, in order. -/
def heard (w : World) (name : String) : List Note :=
  (w.session.notes.filter (isHeard name)).reverse

theorem isHeard_note (x : Happening) (name name' : String) : isHeard name' (x.note name) = decide (name = name') := by
  cases x <;> rfl

/-- Who listens to the first store. -/
def listeners (w : World) (event : StoreEvent) : Watchers :=
  (w.store 0).listeners.get event

/-- Whether all that comes and goes is still listened to under a name. -/
def Follows (w : World) (name : String) : Prop :=
  ∀ event, event ≠ .updated → ∃ id filter reaction, (id, .script name filter reaction) ∈ (listeners w event).entries

/-- The type that a follower asks for, and the numbers of its subscriptions. -/
structure Follower where
  kind : String
  id : StoreEvent → Nat

/-- What is known of those whose names are their own: who follows, and what was told under each name, as far as it
still follows. -/
structure Followed (own : String → Prop) (followers : String → Option Follower) (told : String → List Note)
    (w : World) : Prop where
  numbered : ∀ event, (listeners w event).Numbered
  registered : ∀ name, own name → w.session.subscriptions.contains name = (followers name).isSome
  entry_eq : ∀ event id name filter reaction, own name →
    (id, .script name filter reaction) ∈ (listeners w event).entries →
      ∃ x, followers name = some x ∧ id = x.id event ∧ filter = .kind x.kind
  heard_eq : ∀ name, own name → followers name = none ∨ Follows w name → heard w name = told name

/-- Two worlds with the same listeners, the same session and the same views. -/
structure Hushed (w w' : World) : Prop where
  listeners_eq : (w'.store 0).listeners = (w.store 0).listeners
  session_eq : w'.session = w.session
  views_eq : w'.views = w.views

namespace Hushed

theorem refl (w : World) : Hushed w w := ⟨rfl, rfl, rfl⟩

theorem trans {w w' w'' : World} (h : Hushed w w') (h' : Hushed w' w'') : Hushed w w'' :=
  ⟨h'.listeners_eq.trans h.listeners_eq, h'.session_eq.trans h.session_eq, h'.views_eq.trans h.views_eq⟩

theorem foldl {α : Type} {F : World → α → World} (h : ∀ (w : World) x, Hushed w (F w x)) (w : World) (xs : List α) :
    Hushed w (xs.foldl F w) := by
  induction xs generalizing w with
  | nil => exact refl w
  | cons x xs ih => exact (h w x).trans (ih (F w x))

variable (w : World)

theorem modifyStore (s : StoreId) (F : Store → Store) (h : ∀ s : Store, (F s).listeners = s.listeners) :
    Hushed w (w.modifyStore s F) :=
  ⟨w.part_modifyStore (·.listeners) h s 0, rfl, rfl⟩

theorem write (id : SignalId) (v : Value) : Hushed w (w.write id v) where
  listeners_eq := by rw [World.store, World.stores_write, World.store]
  session_eq := w.session_write id v
  views_eq := w.views_write id v

theorem counted (t : Topic) : Hushed w (w.counted t) := by
  obtain heq | ⟨id, v, -, heq⟩ := w.counted_cases t
  · rw [heq]
    exact refl w
  · rw [heq]
    exact write w id v

theorem disposeSignal (id : SignalId) : Hushed w (w.disposeSignal id) := by
  unfold World.disposeSignal
  split
  · exact refl w
  · exact ⟨rfl, rfl, rfl⟩

theorem addProperty (e : EntityRef) (prop : String) (v : Value) : Hushed w (w.addProperty e prop v).2 := by
  have hsubscribed : Hushed w ((w.addSignal v .same (.entity e)).2.subscribe (.signal w.signals.size)
      (.property e prop)).2 := ⟨rfl, rfl, rfl⟩
  exact hsubscribed.trans (modifyStore _ e.store _ fun _ ↦ rfl)

theorem addIncarnation (s : StoreId) (uri : Uri) (kind : String) : Hushed w (w.addIncarnation s uri kind).2 := by
  have hsignal : Hushed w (w.addSignal (.int 0) .same (.entity ⟨s, (w.store s).incarnations.size + 1⟩)).2 :=
    ⟨rfl, rfl, rfl⟩
  exact hsignal.trans (modifyStore _ s _ fun _ ↦ rfl)

theorem enlist (e : EntityRef) : Hushed w (w.enlist e) :=
  modifyStore w e.store _ fun _ ↦ rfl

theorem reindex (e : EntityRef) : Hushed w (w.reindex e).2 :=
  modifyStore w e.store _ fun _ ↦ rfl

theorem strike (e : EntityRef) : Hushed w (w.strike e).2 :=
  modifyStore w e.store _ fun _ ↦ rfl

theorem retire (e : EntityRef) : Hushed w (w.retire e) := by
  have hended : Hushed w (w.modifyEntity e fun x ↦ { x with live := false }) := modifyStore w e.store _ fun _ ↦ rfl
  exact (hended.trans (foldl disposeSignal _ _)).trans (disposeSignal _ _)

theorem retireClocks (s : StoreId) (uri : Uri) : Hushed w (w.retireClocks s uri) := by
  unfold World.retireClocks
  dsimp only
  split
  all_goals exact modifyStore w s _ fun _ ↦ rfl

theorem putIndex (s : StoreId) (name kind : String) (x : Extractor) : Hushed w (w.putIndex s name kind x) :=
  modifyStore w s _ fun _ ↦ rfl

end Hushed

namespace Followed

variable {own : String → Prop} {followers : String → Option Follower} {told told' : String → List Note}
variable {w w' : World}

/-- What was told is only known of those who still follow. -/
theorem retell (h : Followed own followers told w)
    (heq : ∀ name, own name → followers name = none ∨ Follows w name → told' name = told name) :
    Followed own followers told' w :=
  ⟨h.numbered, h.registered, h.entry_eq, fun name hown hfollows ↦
    (h.heard_eq name hown hfollows).trans (heq name hown hfollows).symm⟩

/-- Fewer or other listeners, but none under a name that is somebody's own. -/
theorem shrink (h : Followed own followers told w) (hnumbered : ∀ event, (listeners w' event).Numbered)
    (hmem : ∀ event id name filter reaction, own name →
      (id, .script name filter reaction) ∈ (listeners w' event).entries →
        (id, .script name filter reaction) ∈ (listeners w event).entries)
    (hsession : w'.session = w.session) : Followed own followers told w' where
  numbered := hnumbered
  registered := by
    rw [hsession]
    exact h.registered
  entry_eq event id name filter reaction hown hentry :=
    h.entry_eq event id name filter reaction hown (hmem event id name filter reaction hown hentry)
  heard_eq name hown hfollows := by
    rw [heard, hsession]
    refine h.heard_eq name hown (hfollows.imp_right fun hall event hevent ↦ ?_)
    obtain ⟨id, filter, reaction, hentry⟩ := hall event hevent
    exact ⟨id, filter, reaction, hmem event id name filter reaction hown hentry⟩

theorem hushed (h : Followed own followers told w) (hw : Hushed w w') : Followed own followers told w' := by
  have heq : ∀ event, listeners w' event = listeners w event := fun event ↦ by
    rw [listeners, hw.listeners_eq, listeners]
  refine h.shrink (fun event ↦ heq event ▸ h.numbered event) (fun event _ _ _ _ _ hentry ↦ ?_) hw.session_eq
  rwa [heq] at hentry

/-- Something is written down. -/
theorem note (h : Followed own followers told w) (n : Note)
    (heq : ∀ name, own name → told' name = if isHeard name n then told name ++ [n] else told name) :
    Followed own followers told' (w.note n) where
  numbered := h.numbered
  registered := h.registered
  entry_eq := h.entry_eq
  heard_eq name hown hfollows := by
    have hold := h.heard_eq name hown hfollows
    rw [heq name hown, ← hold]
    change ((n :: w.session.notes).filter (isHeard name)).reverse = _
    rw [List.filter_cons]
    split
    · rw [List.reverse_cons, heard]
    · rfl

end Followed

/-- What a store has, who follows it, what was told under each name, and with its URI and type the entity that is
spoken of. -/
structure Account where
  contents : Contents
  followers : String → Option Follower
  told : String → List Note
  subject : Option (EntityRef × Uri × String)

/-- An entity of the first store has a URI and a type. -/
structure Named (e : EntityRef) (uri : Uri) (kind : String) (w : World) : Prop where
  store_eq : e.store = 0
  serial_pos : 0 < e.serial
  uri_eq : w.uriOf e = uri
  kind_eq : w.kindOf e = kind

/-- An event tells of what has come or gone, where an entity is spoken of. -/
inductive Says (subject : Option (EntityRef × Uri × String)) : Event → Happening → Prop
  | came {e : EntityRef} {uri : Uri} {kind : String} (h : subject = some (e, uri, kind)) :
    Says subject (.entity .added e) (.came uri kind)
  | went {e : EntityRef} {uri : Uri} {kind : String} (h : subject = some (e, uri, kind)) :
    Says subject (.entity .removed e) (.went uri kind)
  | linked (edge : Edge) : Says subject (.edge .edgeAdded edge) (.linked edge)
  | cut (edge : Edge) : Says subject (.edge .edgeRemoved edge) (.cut edge)

namespace Account

variable (a : Account)

/-- The account once all followers were told of what has come and gone, each of what it asks for. -/
def telling (xs : List Happening) : Account :=
  { a with told := fun name ↦ a.told name ++ (a.followers name).elim [] fun x ↦
      (xs.filter (·.isFor x.kind)).map (·.note name) }

/-- The account after an operation of which there was something to tell. -/
noncomputable def reporting (e : Edit) (xs : List Happening) : Account :=
  { a with contents := a.contents.edited e }.telling xs

theorem telling_nil : a.telling [] = a := by
  have htold : (a.telling []).told = a.told := funext fun name ↦ by
    change a.told name ++ (a.followers name).elim [] (fun _ ↦ []) = a.told name
    cases a.followers name <;> exact List.append_nil _
  cases a
  simp only [telling] at htold ⊢
  rw [htold]

theorem telling_append (xs ys : List Happening) : a.telling (xs ++ ys) = (a.telling xs).telling ys := by
  have htold : (a.telling (xs ++ ys)).told = ((a.telling xs).telling ys).told := funext fun name ↦ by
    simp only [telling, List.append_assoc]
    cases a.followers name <;> simp
  simp only [telling] at htold ⊢
  rw [htold]

end Account

variable {own : String → Prop} {a : Account} {stage : Stage} {ks ks' : List Topic} {w w' : World}
variable {e : EntityRef} {uri : Uri} {kind : String}

/-- What an account says beyond the ground. -/
structure Scene (own : String → Prop) (a : Account) (w : World) : Prop where
  plain : Plain w
  noViews : w.views = #[]
  contents_eq : contentsOf w = a.contents
  followed : Followed own a.followers a.told w
  named : ∀ e uri kind, a.subject = some (e, uri, kind) → Named e uri kind w

/-- An account that is right, at each stage of an operation. -/
def Kept (own : String → Prop) (a : Account) : Staged := fun stage _ w ↦
  OnGround stage w ∧ Scene own a w

namespace Named

theorem same (h : Named e uri kind w) (hw : SameGround w w') : Named e uri kind w' := by
  obtain ⟨s, n⟩ := e
  obtain rfl := h.store_eq
  exact ⟨rfl, h.serial_pos, (hw.store.uri_eq n h.serial_pos).trans h.uri_eq,
    (hw.store.kind_eq n h.serial_pos).trans h.kind_eq⟩

theorem enlist (h : OnGround (.coming e uri kind) w) : Named e uri kind (w.enlist e) := by
  have hentity : (w.enlist e).entity e = w.entity e :=
    congrArg (fun incarnations : Array Entity ↦ incarnations.getD (e.serial - 1) default)
      (w.part_modifyStore (·.incarnations) (by intro; rfl) e.store e.store)
  exact ⟨h.2.store_eq, h.2.serial_pos, (congrArg Entity.uri hentity).trans h.2.uri_eq,
    (congrArg Entity.kind hentity).trans h.2.kind_eq⟩

/-- An entity that was removed still has its URI and its type. -/
theorem strike (h : Ground (fun _ ↦ False) w) (hfound : w.find? 0 uri = some e) :
    Named e uri (w.kindOf e) ((w.strike e).2.retire e) := by
  have hsame := OnGround.sameGraph_strike h hfound
  obtain ⟨he, hlive⟩ := World.live_of_find? hfound
  obtain ⟨s, n⟩ := e
  obtain rfl := he
  have hpos := h.coherent.pos hlive
  have hflag := (w.store 0).incarnation_modify n (fun x ↦ { x with live := false }) n hpos hpos
  rw [if_pos ⟨rfl, h.coherent.le_size hlive⟩] at hflag
  have huri := congrArg Entity.uri hflag
  have hkind := congrArg Entity.kind hflag
  exact ⟨rfl, hpos, ((hsame.uri_eq n hpos).trans huri).trans (h.coherent.uri_eq hlive),
    (hsame.kind_eq n hpos).trans hkind⟩

end Named

namespace Scene

variable {x : Happening} {event : Event}

/-- What is written down of an event. -/
theorem note_eq (h : Scene own a w) (hmeant : Says a.subject event x) (name : String) :
    event.note w name = x.note name := by
  cases hmeant with
  | came hsubject => exact congrArg (Note.entity name .added) (h.named _ _ _ hsubject).uri_eq
  | went hsubject => exact congrArg (Note.entity name .removed) (h.named _ _ _ hsubject).uri_eq
  | linked edge => rfl
  | cut edge => rfl

/-- Who is told of an event. -/
theorem admits_eq (h : Scene own a w) (hmeant : Says a.subject event x) (wanted : String) :
    (EventFilter.kind wanted).admits w event = x.isFor wanted := by
  have hkind : EventFilter.subjectKind w event = some x.kind := by
    cases hmeant with
    | came hsubject => exact congrArg some (h.named _ _ _ hsubject).kind_eq
    | went hsubject => exact congrArg some (h.named _ _ _ hsubject).kind_eq
    | linked edge => rfl
    | cut edge => rfl
  rw [EventFilter.admits, hkind, Happening.isFor]
  simp only [Option.some.injEq]

end Scene

namespace Kept

theorem ground (h : Kept own a (.whole ∅) ks w) : Ground (fun _ ↦ False) w :=
  h.1

theorem same (h : Kept own a stage ks w) (hw : SameGround w w') (hhushed : Hushed w w') : Kept own a stage ks' w' := by
  obtain ⟨_, hground⟩ := h.1.exists_ground
  exact ⟨h.1.same hw, h.2.plain.same hw, hhushed.views_eq.trans h.2.noViews,
    (contentsOf_same hground hw).trans h.2.contents_eq, h.2.followed.hushed hhushed,
    fun e uri kind hsubject ↦ (h.2.named e uri kind hsubject).same hw⟩

theorem write (h : Kept own a stage ks w) (id : SignalId) (v : Value) : Kept own a stage ks' (w.write id v) :=
  h.same (.write w id v) (.write w id v)

theorem counted (h : Kept own a stage ks w) (t : Topic) : Kept own a stage ks' (w.counted t) :=
  h.same (.counted w t) (.counted w t)

/-- What was told is only known of those who still follow. -/
theorem retell (h : Kept own a stage ks w) (told : String → List Note)
    (heq : ∀ name, own name → a.followers name = none ∨ Follows w name → told name = a.told name) :
    Kept own { a with told := told } stage ks w :=
  ⟨h.1, h.2.plain, h.2.noViews, h.2.contents_eq, h.2.followed.retell heq, h.2.named⟩

theorem viewless : Act.Viewless (Kept own a stage ks) where
  plain _ h := h.2.plain
  context w d f frames pins h := ⟨h.1.context d f frames pins, ⟨h.2.plain.noDeriveds, h.2.plain.queue_eq⟩,
    h.2.noViews, h.2.contents_eq, h.2.followed.hushed ⟨rfl, rfl, rfl⟩,
    fun e uri kind hsubject ↦
      have hnamed := h.2.named e uri kind hsubject
      ⟨hnamed.store_eq, hnamed.serial_pos, hnamed.uri_eq, hnamed.kind_eq⟩⟩
  reap w h := by rwa [World.reap_eq_of_noViews h.2.noViews h.2.plain.noDeriveds]
  noViews _ h := h.2.noViews
  roles _ _ _ _ _ _ _ _ _ v h _ := h.write _ v
  version _ v h _ := h.write _ v

theorem depthFree : DepthFree (Kept own a stage ks) := viewless.depthFree

/-- An entity is new, and cannot be found yet. -/
theorem addIncarnation (h : (Kept own a).settled w) (hsubject : a.subject = none) (hfree : w.contains 0 uri = false) :
    Kept own a (.coming ⟨0, (w.store 0).incarnations.size + 1⟩ uri kind) ks (w.addIncarnation 0 uri kind).2 := by
  refine ⟨OnGround.addIncarnation h.ground uri kind hfree, ⟨h.2.plain.noDeriveds, h.2.plain.queue_eq⟩, h.2.noViews,
    (contentsOf_addIncarnation h.ground uri kind).trans h.2.contents_eq,
    h.2.followed.hushed (.addIncarnation w 0 uri kind), fun e uri kind hsome ↦ ?_⟩
  rw [hsubject] at hsome
  exact absurd hsome.symm (Option.some_ne_none _)

/-- An entity has come, and is spoken of from now on. -/
theorem enlist (h : Kept own a (.coming e uri kind) ks w) :
    (Kept own { a with contents := a.contents.after (.came uri kind), subject := some (e, uri, kind) }).settled
      (w.enlist e) := by
  refine ⟨(OnGround.enlist h.1).1, ⟨h.2.plain.noDeriveds, h.2.plain.queue_eq⟩, h.2.noViews, ?_,
    h.2.followed.hushed (.enlist w e), fun e' uri' kind' hsome ↦ ?_⟩
  · rw [contentsOf_enlist h.1, h.2.contents_eq]
  · cases hsome
    exact .enlist h.1

/-- An entity is gone with its edges, and is spoken of from now on. -/
theorem strike (h : (Kept own a).settled w) (hfound : w.find? 0 uri = some e) :
    (Kept own { a with
        contents := a.contents.edited (.remove uri)
        subject := some (e, uri, w.kindOf e) }).settled ((w.strike e).2.retire e) := by
  have hhushed : Hushed w ((w.strike e).2.retire e) := (Hushed.strike w e).trans (.retire _ e)
  have hended : Plain ((w.strike e).2.modifyEntity e fun x ↦ { x with live := false }) :=
    ⟨h.2.plain.noDeriveds, h.2.plain.queue_eq⟩
  refine ⟨OnGround.strike h.ground hfound, hended.same (.retire (w.strike e).2 e),
    hhushed.views_eq.trans h.2.noViews, ?_, h.2.followed.hushed hhushed, fun e' uri' kind' hsome ↦ ?_⟩
  · have hkind := kindAt_of_find? hfound
    rw [h.2.contents_eq] at hkind
    rw [contentsOf_strike h.ground hfound, h.2.contents_eq, Contents.edited, if_neg]
    rw [hkind]
    exact Option.some_ne_none _
  · cases hsome
    exact .strike h.ground hfound

/-- The edges become others. -/
theorem rewire (h : (Kept own a).settled w) {edges : Adjacency} {c : Contents}
    (hground : Ground (fun _ ↦ False) (w.modifyStore 0 fun s ↦ { s with edges := edges }))
    (hcontents : Contents.ofStore { w.store 0 with edges := edges } = c) :
    (Kept own { a with contents := c }).settled (w.modifyStore 0 fun s ↦ { s with edges := edges }) := by
  refine ⟨hground, ⟨h.2.plain.noDeriveds, h.2.plain.queue_eq⟩, h.2.noViews, ?_,
    h.2.followed.hushed (.modifyStore w 0 _ fun _ ↦ rfl), fun e uri kind hsome ↦ ?_⟩
  · rw [contentsOf, h.ground.store_modifyStore]
    exact hcontents
  · obtain ⟨hstore, hpos, huri, hkind⟩ := h.2.named e uri kind hsome
    have hentity : (w.modifyStore 0 fun s ↦ { s with edges := edges }).entity e = w.entity e :=
      congrArg (fun incarnations : Array Entity ↦ incarnations.getD (e.serial - 1) default)
        (w.part_modifyStore (·.incarnations) (by intro; rfl) 0 e.store)
    exact ⟨hstore, hpos, (congrArg Entity.uri hentity).trans huri, (congrArg Entity.kind hentity).trans hkind⟩

/-- An entity need not be spoken of. -/
theorem hush {subject : Option (EntityRef × Uri × String)} (h : Kept own { a with subject := subject } stage ks w)
    (hnone : a.subject = none) : Kept own a stage ks w :=
  ⟨h.1, h.2.plain, h.2.noViews, h.2.contents_eq, h.2.followed, fun e uri kind hsome ↦ by
    rw [hnone] at hsome
    exact absurd hsome.symm (Option.some_ne_none _)⟩

end Kept

end LiveGraph.Lifecycle
