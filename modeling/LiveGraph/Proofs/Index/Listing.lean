import LiveGraph.Proofs.Client.Run
import LiveGraph.Proofs.Index.Calls
import LiveGraph.Proofs.Store.Integrity
import LiveGraph.Proofs.Store.Start

/-!
# What indices list

Code edits a store and defines indices over it, and listeners may do so too. Whenever the code looks
at the world outside of all batches, each index lists the live entities of its type by the key that
they have now, oldest first. At no time has it an entry of an entity that has ended.
-/

namespace LiveGraph

open Act

/-- What code does with a store that has indices. It may keep signals, and write them. -/
inductive Indexing
  | listening (op : Listening)
  | write (id : SignalId) (value : Value)

namespace Indexing

def perform [Dispatch] : Indexing → Act Unit
  | listening op => op.perform
  | write id value => do let _ ← Signal.set id value

/-- The index that an operation defines, with its type and extractor. -/
def defined? : Indexing → Option (String × String × Extractor)
  | listening (.edit (.defineIndex name kind x)) => some (name, kind, x)
  | _ => none

/-- How indices are defined after an operation. -/
def define (δ : Definitions) (op : Indexing) : Definitions :=
  match op.defined? with
  | some (name, kind, x) => Function.update δ name (some (kind, x))
  | none => δ

end Indexing

/-- What listeners do: the same, but some indices are left to others. -/
structure Reaction (own : String → Prop) where
  op : Indexing
  leaves : ∀ name kind x, op.defined? = some (name, kind, x) → ¬own name

def Reaction.perform {own : String → Prop} [Dispatch] (r : Reaction own) : Act Unit :=
  r.op.perform

variable {own : String → Prop} {δ : Definitions} {β : Background} {w : World} {D D' : Dispatch} {d : Nat} {f : Bool}

theorem Reaction.define_eq (r : Reaction own) {name : String} (hname : own name) :
    r.op.define δ name = δ name := by
  rw [Indexing.define]
  cases hdefined : r.op.defined? with
  | none => rfl
  | some definition =>
    have hne : name ≠ definition.1 := fun heq ↦ r.leaves _ _ _ hdefined (heq ▸ hname)
    exact Function.update_of_ne hne _ δ

/-- Who listens has nothing to do with indices. -/
theorem Indexed.modifyListeners (h : Indexed own δ β (.whole ∅) w) (event : StoreEvent)
    (F : Watchers → Watchers) :
    Indexed own δ β (.whole ∅) (w.modifyWatchers (.store 0 event) F) :=
  h.modifyStore (fun _ ↦ rfl) (fun _ ↦ rfl) (fun _ ↦ rfl) (fun h ↦ h)
    (h.ground_same (.modifyWatchers w (.store 0 event) F))

section Code

variable (h : ∀ δ, Filing (Indexed own δ β) D D')
include h

/-- Every operation of code leaves the indices right, and defined as it says. -/
theorem Indexing.agree_perform (op : Indexing) :
    Agree (At (Indexed own δ β (.whole ∅)) d f) (@Indexing.perform D op) (@Indexing.perform D' op)
      (fun _ ↦ At (Indexed own (op.define δ) β (.whole ∅)) d f) fun _ ↦ False := by
  have hedit (e : Edit) (hother : ∀ name kind x, e ≠ .defineIndex name kind x) :
      Agree (At (Indexed own δ β (.whole ∅)) d f) (@Edit.perform D 0 e) (@Edit.perform D' 0 e)
        (fun _ ↦ At (Indexed own δ β (.whole ∅)) d f) fun _ ↦ False :=
    (Indexed.kept (h δ)).agree_perform (Indexed.kept (h δ)).flushes e fun _ name kind x heq ↦
      absurd heq (hother name kind x)
  match op with
  | .write id value =>
    refine agree_bind (Q := fun _ ↦ At (Indexed own δ β (.whole ∅)) d f) (fun w hw ↦ ?_) fun _ ↦
      agree_pure fun _ hw ↦ hw
    have hassigned : Indexed own δ β (.whole ∅) (w.assigned id value) := by
      rcases w.assigned_cases id value with heq | ⟨-, heq⟩
      · rw [heq]
        exact hw.holds
      · rw [heq]
        exact hw.holds.write id value
    exact agree_assign Indexed.depthFree ⟨⟨rfl, hw.depth_eq, hw.flushing_eq⟩, hw.idle⟩ hassigned
      (Indexed.kept (h δ)).flushes w rfl
  | .listening (.listen event kind name) =>
    refine agree_bind (Q := fun _ ↦ At (Indexed own δ β (.whole ∅)) d f)
      (agree_modifyGet fun w hw ↦ ?_) fun _ ↦ agree_pure fun _ hw ↦ hw
    exact hw.quiet ⟨rfl, rfl, rfl, rfl⟩
      (hw.holds.modifyListeners event (·.add (.script name (.kind kind) [])))
  | .listening (.unlisten event id) =>
    refine Act.agree_modify fun w hw ↦ ?_
    exact hw.quiet ⟨rfl, rfl, rfl, rfl⟩ (hw.holds.modifyListeners event (·.remove id))
  | .listening (.edit (.defineIndex name kind x)) =>
    exact (Indexed.kept (h _)).agree_defineIndex (Indexed.kept (h _)).flushes name kind x fun w hw ↦
      Indexed.putIndex hw name kind x
  | .listening (.edit (.add spec)) => exact hedit (.add spec) fun _ _ _ ↦ nofun
  | .listening (.edit (.remove uri)) => exact hedit (.remove uri) fun _ _ _ ↦ nofun
  | .listening (.edit (.update uri props)) => exact hedit (.update uri props) fun _ _ _ ↦ nofun
  | .listening (.edit (.set e prop value)) => exact hedit (.set e prop value) fun _ _ _ ↦ nofun
  | .listening (.edit (.define e prop value)) => exact hedit (.define e prop value) fun _ _ _ ↦ nofun
  | .listening (.edit (.link edge atFront)) => exact hedit (.link edge atFront) fun _ _ _ ↦ nofun
  | .listening (.edit (.unlink edge)) => exact hedit (.unlink edge) fun _ _ _ ↦ nofun

theorem Reaction.agree_perform (r : Reaction own) :
    Agree (At (Indexed own δ β (.whole ∅)) d f) (@r.perform _ D) (@r.perform _ D')
      (fun _ ↦ At (Indexed own δ β (.whole ∅)) d f) fun _ ↦ False :=
  (r.op.agree_perform h).post fun _ _ hw ↦ hw.mono fun _ hw ↦ hw.redefine fun _ ↦ r.define_eq

end Code

namespace Reaction

/-- What calls come to for code that reacts to what it is told. -/
@[reducible]
def dispatch (react : String → Event → Client (Reaction own)) (n : Nat) : Dispatch :=
  Client.dispatch Reaction.perform react n

/-- Whatever code reacts to what it is told, calls keep the indices right. -/
theorem filing_dispatch (react : String → Event → Client (Reaction own)) {P : World → Prop}
    (hP : ∀ δ β d f w, At (Indexed own δ β (.whole ∅)) d f w → P w) (n : Nat) :
    Filing (Indexed own δ β) (dispatch react n)
      (dispatch (fun name event ↦ (react name event).checked P) n) := by
  induction n generalizing δ with
  | zero => exact .dispatch_zero _ _ _
  | succ n ih =>
    have hcode : ∀ δ, Filing (Indexed own δ β) (dispatch react n) _ := fun _ ↦ ih
    refine .dispatch_succ Indexed.filed ih fun name event d f hbusy ↦ ?_
    exact (Client.agree_run_checked Indexed.depthFree (fun r d f ↦ r.agree_perform hcode)
      (ih.agree_flush Indexed.filed) (fun d w hw ↦ hP δ β d f w hw) (react name event) d).mono
      (fun _ hw ↦ hw.at_busy hbusy) (fun _ _ hw ↦ hw.toHeld) fun _ hw ↦ hw

end Reaction

namespace World

/-- An index gives by a key the live entities of a type that have the key now, oldest first. -/
structure Lists (w : World) (name kind : String) (x : Extractor) (key : Value) : Prop where
  mem_iff : ∀ e, e ∈ (Store.filed 0 name key).value w ↔
    w.IsLive 0 e ∧ w.kindOf e = kind ∧ w.keyOf? x e = some key
  sorted : ((Store.filed 0 name key).value w).Pairwise fun a b ↦ a.serial < b.serial
  first_eq : (Store.firstFiled 0 name key).value w = ((Store.filed 0 name key).value w).head?

/-- Every entry of an index is that of a live entity, under the URI it has. -/
def Fresh (w : World) : Prop :=
  ∀ (name : String) (x : Index) (uri : Uri) (key : Value) (n : Nat),
    (w.store 0).indices[name]? = some x →
    x.filed[uri]? = some (key, n) ∨ (x.bucket key)[n]? = some uri →
    w.IsLive 0 ⟨0, n⟩ ∧ w.uriOf ⟨0, n⟩ = uri ∧ w.kindOf ⟨0, n⟩ = x.kind

/-- Some indices are defined as they should be, and outside of all batches each index gives what its
definition says. -/
structure InSync (own : String → Prop) (δ : Definitions) (w : World) : Prop where
  fresh : w.Fresh
  definitions_eq : ∀ name, own name → w.definitions name = δ name
  lists : w.depth = 0 → ∀ name kind x, w.definitions name = some (kind, x) →
    ∀ key, w.Lists name kind x key

variable {u : EntityRef → Prop} {x : Index} {name : String}

/-- What is read of an index is its bucket. -/
theorem Files.filed_value (h : w.Files u x) (hx : (w.store 0).indices[name]? = some x) (key : Value) :
    (Store.filed 0 name key).value w = (x.bucket key).toList.map (fun p ↦ ⟨0, p.1⟩) ∧
      (Store.firstFiled 0 name key).value w = ((Store.filed 0 name key).value w).head? := by
  have hfind : ∀ p ∈ (x.bucket key).toList, w.find? 0 p.2 = some ⟨0, p.1⟩ := fun p hp ↦ by
    rw [Std.TreeMap.mem_toList_iff_getElem?_eq_some, h.mirrored.bucket_iff] at hp
    obtain ⟨hcurrent, huri, -⟩ := h.current p.2 key p.1 hp
    rw [isCurrent, decide_eq_true_eq, huri] at hcurrent
    rw [find?, hcurrent]
    rfl
  have hfiled : (Store.filed 0 name key).value w = (x.all key).filterMap (w.find? 0) := by
    change (((w.store 0).indices[name]?).elim [] (·.all key)).filterMap (w.find? 0) = _
    rw [hx]
    rfl
  have hfirst : (Store.firstFiled 0 name key).value w = (x.first? key).bind (w.find? 0) := by
    change (((w.store 0).indices[name]?).bind (·.first? key)).bind (w.find? 0) = _
    rw [hx]
    rfl
  have hvalue : (Store.filed 0 name key).value w = (x.bucket key).toList.map (fun p ↦ ⟨0, p.1⟩) := by
    rw [hfiled, Index.all, Tables.values_eq_map, List.filterMap_map]
    exact (List.filterMap_congr hfind).trans (congrFun List.filterMap_eq_map' _)
  refine ⟨hvalue, ?_⟩
  rw [hfirst, hvalue, Index.first?, Index.all, Tables.values_eq_map]
  cases hentries : (x.bucket key).toList with
  | nil => rfl
  | cons p rest => exact hfind p (hentries ▸ List.mem_cons_self)

end World

namespace Indexed

theorem fresh (h : Indexed own δ β (.whole ∅) w) : w.Fresh := by
  intro name x uri key n hx hentry
  have hfiles := h.files name x hx
  rw [hfiles.mirrored.bucket_iff, or_self] at hentry
  obtain ⟨hcurrent, habout⟩ := hfiles.current uri key n hentry
  exact ⟨h.isLive rfl hcurrent, habout⟩

/-- Where nothing is left to be told, an index lists what it should. -/
theorem lists (h : Indexed own δ β (.whole ∅) w) (heffects : w.effects = []) {name : String} {x : Index}
    (hx : (w.store 0).indices[name]? = some x) (key : Value) : w.Lists name x.kind x.extractor key := by
  have hfiles := h.files name x hx
  obtain ⟨hvalue, hfirst⟩ := hfiles.filed_value hx key
  have hpending : ∀ e, ¬w.Pending e := by
    rintro e ⟨prop, signal, -, hmem⟩
    rw [heffects] at hmem
    exact List.not_mem_nil hmem
  have hkey : ∀ e : EntityRef, e.store = 0 → w.isCurrent e → w.kindOf e = x.kind →
      x.keyOf? (w.uriOf e) = w.keyOf? x.extractor e := fun e he hcurrent hkind ↦
    hfiles.key_eq e he hcurrent hkind (Set.notMem_empty e) (hpending e)
  have hmem : ∀ e, e ∈ (Store.filed 0 name key).value w ↔
      e.store = 0 ∧ ∃ uri, x.filed[uri]? = some (key, e.serial) := fun e ↦ by
    rw [hvalue, List.mem_map]
    constructor
    · rintro ⟨⟨n, uri⟩, hp, rfl⟩
      rw [Std.TreeMap.mem_toList_iff_getElem?_eq_some, hfiles.mirrored.bucket_iff] at hp
      exact ⟨rfl, uri, hp⟩
    · rintro ⟨he, uri, hentry⟩
      rw [← hfiles.mirrored.bucket_iff, ← Std.TreeMap.mem_toList_iff_getElem?_eq_some] at hentry
      exact ⟨(e.serial, uri), hentry, EntityRef.eq_of_serial he.symm rfl⟩
  refine ⟨fun e ↦ (hmem e).trans ⟨fun ⟨he, uri, hentry⟩ ↦ ?_, fun ⟨hlive, hkind, hhas⟩ ↦ ?_⟩, ?_, hfirst⟩
  · obtain ⟨hcurrent, huri, hkind⟩ := hfiles.current uri key e.serial hentry
    rw [show (⟨0, e.serial⟩ : EntityRef) = e from EntityRef.eq_of_serial he.symm rfl] at *
    refine ⟨h.isLive he hcurrent, hkind, ?_⟩
    rw [← hkey e he hcurrent hkind, Index.keyOf?, Std.TreeMap.get?_eq_getElem?, huri, hentry]
    rfl
  · have he := hlive.1
    have hcurrent := (Ground.isCurrent_iff_isLive h.ground he).mpr hlive
    have hfiled := (hkey e he hcurrent hkind).trans hhas
    rw [Index.keyOf?, Std.TreeMap.get?_eq_getElem?] at hfiled
    obtain ⟨⟨_, n⟩, hentry, rfl⟩ := Option.map_eq_some_iff.mp hfiled
    have hserial := (hfiles.owns he hcurrent _ _ n hentry).mp rfl
    exact ⟨he, w.uriOf e, hserial ▸ hentry⟩
  · rw [hvalue, List.pairwise_map]
    refine (Std.TreeMap.ordered_keys_toList).imp fun hlt ↦ ?_
    exact Nat.compare_eq_lt.mp hlt

theorem inSync (h : At (Indexed own δ β (.whole ∅)) d false w) : w.InSync own δ where
  fresh := h.holds.fresh
  definitions_eq := h.holds.defined
  lists hdepth name kind x hdefined key := by
    obtain ⟨x, hx, heq⟩ := Option.map_eq_some_iff.mp hdefined
    obtain ⟨rfl, rfl⟩ := Prod.mk.inj heq
    exact h.holds.lists (h.idle hdepth h.flushing_eq).2 hx key

end Indexed

/-- A session starts with one index, which has no entries. -/
theorem indexed_start (own : String → Prop) (schema : Schema) (keepsFirst : Bool) :
    At (Indexed own (Session.start schema keepsFirst).definitions
      (Session.start schema keepsFirst).background (.whole ∅)) 0 false
      (Session.start schema keepsFirst) := by
  have hground := ground_start schema keepsFirst
  obtain ⟨hstore, hviews⟩ := start_parts schema keepsFirst
  refine ⟨⟨⟨hground.holds.1, hground.holds.2, hviews, tied_start schema keepsFirst,
    behind_start schema keepsFirst, fun name x hx ↦ ?_, fun _ _ ↦ rfl⟩, hground.depth_eq, hground.flushing_eq⟩, hground.idle⟩
  rw [hstore, Std.TreeMap.getElem?_insert] at hx
  split at hx
  · obtain rfl := Option.some.inj hx
    refine (World.Files.new _ _).mono fun e he hcurrent _ _ ↦ ?_
    exact absurd (hground.holds.1.isLive_of_isCurrent he hcurrent) (not_isLive_start schema keepsFirst e)
  · have hnone : Store.empty.indices[name]? = none := Std.TreeMap.getElem?_emptyc
    exact nomatch hnone.symm.trans hx

namespace Indexing

/-- Runs code whose listeners react to what they are told, to a given depth. -/
def run (react : String → Event → Client (Reaction own)) (n : Nat) (c : Client Indexing) : Act Unit :=
  @Client.run _ (Reaction.dispatch react n) (@perform (Reaction.dispatch react n)) c

/-- Whatever operations there are, in whatever batches, and whatever listeners do meanwhile, each index
gives what it was last defined to give: the operations do the same under an observation that would stop
them, and the listeners, where that is not so. Indices that listeners may define as well are as they are
defined in the store. -/
theorem run_inSync (react : String → Event → Client (Reaction own)) (n : Nat)
    (p : Program Indexing) (schema : Schema) (keepsFirst : Bool) :
    let start := Session.start schema keepsFirst
    run react n p.code start = run (fun name event ↦ (react name event).checked World.Fresh) n
        (p.watched define (World.InSync own) start.definitions) start ∧
      ∀ w, run react n p.code start = .ok () w →
        w.InSync own (p.record define start.definitions) := by
  intro start
  have hfiling := fun δ ↦ Reaction.filing_dispatch (δ := δ) (β := start.background) react
    (P := World.Fresh) (fun _ _ _ _ _ hw ↦ hw.holds.fresh) n
  have hrun : Agree (At (Indexed own start.definitions start.background (.whole ∅)) 0 false) (run react n p.code)
      (run (fun name event ↦ (react name event).checked World.Fresh) n _)
      (fun _ ↦ At (Indexed own (p.record define start.definitions) start.background (.whole ∅)) 0 false)
      fun _ ↦ False :=
    Program.agree_run_watched (I := fun δ ↦ Indexed own δ start.background (.whole ∅))
      (fun _ ↦ Indexed.depthFree) (fun δ op d f ↦ op.agree_perform hfiling)
      (fun δ ↦ (hfiling δ).agree_flush Indexed.filed)
      (fun δ d w hw ↦ Indexed.inSync hw) p start.definitions 0
  obtain ⟨heq, hout⟩ := hrun start (indexed_start own schema keepsFirst)
  refine ⟨heq, fun w hw ↦ ?_⟩
  change Act.Outcome _ _ (run react n p.code start) at hout
  rw [hw] at hout
  exact Indexed.inSync hout

end Indexing

end LiveGraph
