import LiveGraph.Proofs.Lifecycle.Calls

/-!
# What is told of an operation

An operation on a store tells its followers exactly what comes and goes by it. An entity that is removed is told of after
all its edges, and of what fails or changes nothing there is nothing to tell.
-/

namespace LiveGraph.Lifecycle

open Act

variable {own : String → Prop} {a : Account} {D : Dispatch} {C : World → Prop} {d : Nat} {f : Bool} {w : World}
variable {ks : List Topic}

/-- What an operation has done is in the account, and so is what was told of it. -/
def Reported (own : String → Prop) (a : Account) (e : Edit) (w : World) : Prop :=
  ∃ told, a.contents.Reports e told ∧ (Kept own (a.reporting e told)).settled w

/-- Some edges were cut, and of those on a list it was not told yet. What is known of all of them is known. -/
def Cutting (own : String → Prop) (a : Account) (known : List Edge → Prop) (edges : List Edge) (w : World) : Prop :=
  ∃ done, known (done ++ edges) ∧ (Kept own (a.telling (done.map .cut))).settled w

theorem Reported.depthFree (e : Edit) : DepthFree (Reported own a e) := fun _ d ⟨told, hreports, hkept⟩ ↦
  ⟨told, hreports, Kept.depthFree _ d hkept⟩

theorem Cutting.counting {known : List Edge → Prop} (edges : List Edge) :
    Counting 0 fun _ ↦ Cutting own a known edges where
  depthFree _ _ d hw := hw.imp fun _ ⟨hknown, hkept⟩ ↦ ⟨hknown, Kept.depthFree _ d hkept⟩
  count key _ _ hw := hw.imp fun _ ⟨hknown, hkept⟩ ↦ ⟨hknown, Kept.counted hkept (.clock 0 key)⟩

/-- Of what changes nothing there is nothing to tell. -/
theorem Kept.reported_nothing (h : Kept own a (.whole ∅) ks w) {e : Edit} (hreports : a.contents.Reports e []) :
    Reported own a e w := by
  have hcontents : a.contents = a.contents.edited e := hreports.replays
  refine ⟨[], hreports, ?_⟩
  rw [Account.reporting, ← hcontents, Account.telling_nil]
  exact h

namespace Heeding

variable (h : Heeding own D)
include h

theorem concluding (e : Edit) : Concluding (Reported own a e) D D (fun _ ↦ False) d f where
  depthFree := Reported.depthFree e
  crash _ _ h := h
  flush _ _ w hw := by
    obtain ⟨told, hreports, hkept⟩ := hw.holds
    exact (h.agree_flush.post fun _ w hw ↦ hw.mono fun _ hkept ↦ ⟨told, hreports, hkept⟩) w
      ⟨hkept, hw.depth_eq, hw.flushing_eq⟩

/-- The next edge on the list is told of. -/
theorem agree_cut {known : List Edge → Prop} (edge : Edge) (rest : List Edge) :
    Agree (Held (Cutting own a known (edge :: rest)) (d + 1) f)
      (@notify D (.store 0 .edgeRemoved) (.edge .edgeRemoved edge))
      (@notify D (.store 0 .edgeRemoved) (.edge .edgeRemoved edge))
      (fun _ ↦ Held (Cutting own a known rest) (d + 1) f) C := by
  intro w hw
  obtain ⟨done, hknown, hkept⟩ := hw.holds
  refine ((h.agree_tell (.inl (Nat.succ_pos d)) (.cut edge)).post fun _ w' hw' ↦
    hw'.mono fun _ hkept ↦ ⟨done ++ [edge], ?_, ?_⟩) w ⟨hkept, hw.depth_eq, hw.flushing_eq⟩
  · rwa [List.append_assoc, List.singleton_append]
  · rwa [List.map_append, Account.telling_append]

variable (hsubject : a.subject = none)
include hsubject

theorem agree_add (spec : EntitySpec) : Agree (Held (Kept own a).settled d f) (@Store.add D 0 spec) (@Store.add D 0 spec)
    (fun _ ↦ At (Reported own a (.add spec)) d f) fun _ ↦ False := by
  intro w hw
  cases hfree : w.contains 0 spec.uri with
  | true =>
    have hreports (w : World) (hkept : (Kept own a).settled w) (htaken : w.contains 0 spec.uri = true) :
        a.contents.Reports (.add spec) [] := by
      have hkind : a.contents.kindAt spec.uri ≠ none := hkept.2.contents_eq ▸ Contents.kindAt_ne_none_iff.mpr htaken
      exact (if_neg hkind).symm
    refine (h.concluding (.add spec)).agree_batch (I := fun w ↦ (Kept own a).settled w ∧ w.contains 0 spec.uri)
      (fun w d hw ↦ ⟨Kept.depthFree w d hw.1, hw.2⟩) (agree_get fun w hw ↦ ?_) w
      ⟨⟨hw.holds, hfree⟩, hw.depth_eq, hw.flushing_eq⟩
    refine agree_ite (fun _ ↦ agree_pure fun w' hw' ↦ ?_) fun hnot ↦ absurd hw.holds.2 hnot
    exact hw' ▸ hw.mono fun w hw ↦ Kept.reported_nothing hw.1 (hreports w hw.1 hw.2)
  | false =>
    let e : EntityRef := ⟨0, (w.store 0).incarnations.size + 1⟩
    let a' : Account := { a with
      contents := a.contents.after (.came spec.uri spec.kind)
      subject := some (e, spec.uri, spec.kind) }
    let I : World → Prop := fun w' ↦ (Kept own a).settled w' ∧ w'.contains 0 spec.uri = false ∧
      (w'.store 0).incarnations.size = (w.store 0).incarnations.size
    have hkind : a.contents.kindAt spec.uri = none := by
      rw [← hw.holds.2.contents_eq]
      exact Contents.kindAt_eq_none_iff.mpr (Std.TreeMap.getElem?_eq_none_of_contains_eq_false hfree)
    have hcoming : Coming (fun _ ↦ Kept own a (.coming e spec.uri spec.kind) []) 0 e :=
      { depthFree := fun _ ↦ Kept.depthFree
        hidden := fun _ w hw ↦ OnGround.coming hw.1
        given := fun _ w prop v hw _ ↦ by
          have hadded : Kept own a (.coming e spec.uri spec.kind) [] (w.addProperty e prop v).2 :=
            Kept.same hw (.addProperty w e prop v (Nat.succ_pos _)) (.addProperty w e prop v)
          exact hadded.counted (.signal (w.entity e).shape)
        kept := fun _ _ _ _ _ hw _ ↦ hw }
    have hadded : Agree (Held (Kept own a').settled (d + 1) f) (@notify D (.store 0 .added) (.entity .added e))
        (@notify D (.store 0 .added) (.entity .added e)) (fun _ ↦ Held (Reported own a (.add spec)) (d + 1) f)
        fun _ ↦ False := by
      refine (h.agree_tell (.inl (Nat.succ_pos d)) (.came rfl)).post fun _ w' hw' ↦ hw'.mono fun w hkept ↦
        ⟨[.came spec.uri spec.kind], (if_pos hkind).symm, ?_⟩
      rw [Account.reporting, Contents.edited, if_pos hkind]
      exact Kept.hush hkept hsubject
    refine ((Act.agree_add (A := fun _ ↦ (Kept own a').settled) (h.concluding (.add spec)) (I := I) spec
      (fun w d hw ↦ ⟨Kept.depthFree w d hw.1, hw.2⟩) hcoming ⟨fun _ ↦ Kept.depthFree, fun _ _ _ hw ↦ hw.counted _⟩
      (fun w hw ↦ ⟨hw.2.1, EntityRef.eq_of_serial rfl (congrArg (· + 1) hw.2.2), ?_⟩) (fun w hw ↦ ?_) hadded).post
      fun _ _ hw ↦ hw.2) w ⟨⟨hw.holds, hfree, rfl⟩, hw.depth_eq, hw.flushing_eq⟩
    · have hnew : Kept own a (.coming _ spec.uri spec.kind) [] _ := Kept.addIncarnation hw.1 hsubject hw.2.1
      rwa [hw.2.2] at hnew
    · exact (Kept.enlist hw).same (.reindex _ e) (.reindex _ e)

theorem agree_remove (uri : Uri) : Agree (Held (Kept own a).settled d f) (@Store.remove D 0 uri) (@Store.remove D 0 uri)
    (fun _ ↦ At (Reported own a (.remove uri)) d f) fun _ ↦ False := by
  let gone (e : EntityRef) (kind : String) : Account := { a with
    contents := a.contents.edited (.remove uri)
    subject := some (e, uri, kind) }
  let K : EntityRef → List Edge → List Topic → World → Prop := fun e edges _ w ↦ ∃ kind,
    Cutting own (gone e kind) (fun all ↦ a.contents.Reports (.remove uri) (all.map .cut ++ [.went uri kind])) edges w
  have hK (e : EntityRef) (edges : List Edge) : Counting 0 (K e edges) :=
    ⟨fun ks w d hw ↦ hw.imp fun _ hw ↦ (Cutting.counting edges).depthFree ks w d hw,
      fun key ks w hw ↦ hw.imp fun _ hw ↦ (Cutting.counting edges).count key ks w hw⟩
  refine Act.agree_remove (K := K) (h.concluding (.remove uri)) uri Kept.depthFree hK (fun w hw hnone ↦ ?_)
    (fun w e hw hfound ↦ ?_) (fun e edge rest ks w hw ↦ ?_) (fun e he w hw ↦ ?_) fun w hw ↦ ?_
  · have hkind : a.contents.kindAt uri = none := hw.2.contents_eq ▸ kindAt_eq_none_of_find? hnone
    refine Kept.reported_nothing hw ?_
    rw [Contents.Reports, hkind]
  · have hkind : a.contents.kindAt uri = some (w.kindOf e) := hw.2.contents_eq ▸ kindAt_of_find? hfound
    obtain ⟨hnodup, hmem⟩ := mem_strike (Kept.ground hw) hfound
    refine ⟨w.kindOf e, [], ?_, ?_⟩
    · dsimp only
      rw [Contents.Reports, hkind]
      exact ⟨_, hnodup, hw.2.contents_eq ▸ hmem, rfl⟩
    · rw [List.map_nil, Account.telling_nil]
      exact Kept.strike hw hfound
  · obtain ⟨kind, hcutting⟩ := hw.holds
    exact ((h.agree_cut edge rest).post fun _ _ hw ↦ hw.mono fun _ hw ↦ ⟨kind, hw⟩) w
      ⟨hcutting, hw.depth_eq, hw.flushing_eq⟩
  · obtain ⟨kind, done, hreports, hkept⟩ := hw.holds
    refine ((h.agree_tell (.inl (Nat.succ_pos d)) (.went rfl)).post fun _ w' hw' ↦ hw'.mono fun w hkept ↦
      ⟨done.map .cut ++ [.went uri kind], ?_, ?_⟩) w ⟨hkept, hw.depth_eq, hw.flushing_eq⟩
    · rwa [List.append_nil] at hreports
    · rw [Account.reporting, Account.telling_append]
      exact Kept.hush hkept hsubject
  · obtain ⟨told, hreports, hkept⟩ := hw
    exact ⟨told, hreports, Kept.same hkept (.retireClocks w 0 uri) (.retireClocks w 0 uri)⟩

omit hsubject

theorem agree_link (edge : Edge) (atFront : Bool) : Agree (Held (Kept own a).settled d f)
    (@Store.link D 0 edge atFront) (@Store.link D 0 edge atFront)
    (fun _ ↦ At (Reported own a (.link edge atFront)) d f) fun _ ↦ False := by
  let K : List Topic → World → Prop := fun _ w ↦ a.contents.Linkable edge ∧
    (Kept own { a with contents := a.contents.after (.linked edge) }).settled w
  refine Act.agree_link (K := K) (h.concluding (.link edge atFront)) edge atFront Kept.depthFree
    ⟨fun _ w d hw ↦ ⟨hw.1, Kept.depthFree w d hw.2⟩, fun key _ w hw ↦ ⟨hw.1, Kept.counted hw.2 (.clock 0 key)⟩⟩
    (fun w hw hnone ↦ ?_) (fun w edges hw hsource htarget hinsert ↦ ?_) fun w hw ↦ ?_
  · have hnot : ¬a.contents.Linkable edge := hw.2.contents_eq ▸ not_linkable (Kept.ground hw) hnone
    exact Kept.reported_nothing hw (if_neg hnot).symm
  · have hground := Kept.ground hw
    refine ⟨hw.2.contents_eq ▸ linkable hground hsource htarget hinsert, Kept.rewire hw
      (OnGround.link hground hsource htarget hinsert) ?_⟩
    rw [Contents.ofStore_link hground.coherent hinsert, ← hw.2.contents_eq]
    rfl
  · obtain ⟨hlinkable, hkept⟩ := hw.holds
    refine ((h.agree_tell (.inl (Nat.succ_pos d)) (.linked edge)).post fun _ w' hw' ↦ hw'.mono fun w hkept ↦
      ⟨[.linked edge], (if_pos hlinkable).symm, ?_⟩) w ⟨hkept, hw.depth_eq, hw.flushing_eq⟩
    rw [Account.reporting, Contents.edited, if_pos hlinkable]
    exact hkept

theorem agree_unlink (edge : Edge) : Agree (Held (Kept own a).settled d f) (@Store.unlink D 0 edge)
    (@Store.unlink D 0 edge) (fun _ ↦ At (Reported own a (.unlink edge)) d f) fun _ ↦ False := by
  let K : List Edge → List Topic → World → Prop := fun edges _ ↦ Cutting own
    { a with contents := a.contents.edited (.unlink edge) }
    (fun all ↦ a.contents.Reports (.unlink edge) (all.map .cut)) edges
  refine Act.agree_unlink (K := K) (h.concluding (.unlink edge)) edge Kept.depthFree Cutting.counting
    (fun w hw hnone ↦ ?_) (fun w edges hw hremove ↦ ?_) (fun edge rest _ ↦ h.agree_cut edge rest) fun w hw ↦ ?_
  · have hnot : edge ∉ a.contents.edges := hw.2.contents_eq ▸ not_mem_edges (Kept.ground hw) hnone
    exact Kept.reported_nothing hw (if_neg hnot).symm
  · have hground := Kept.ground hw
    have hmem : edge ∈ a.contents.edges := hw.2.contents_eq ▸ (hground.coherent.edges.remove? hremove).2.1
    refine ⟨[], (if_pos hmem).symm, ?_⟩
    rw [List.map_nil, Account.telling_nil]
    refine Kept.rewire hw (OnGround.unlink hground hremove) ?_
    rw [Contents.ofStore_unlink hground.coherent hremove, ← hw.2.contents_eq]
    rfl
  · obtain ⟨done, hreports, hkept⟩ := hw
    rw [List.append_nil] at hreports
    exact ⟨done.map .cut, hreports, hkept⟩

include hsubject

/-- Every operation does what it does to the contents, and tells what there is to tell of that. -/
theorem agree_edit (e : Edit) : Agree (At (Kept own a).settled d f) (@Edit.perform D 0 e) (@Edit.perform D 0 e)
    (fun _ ↦ At (Reported own a e) d f) fun _ ↦ False := by
  have hdone {α : Type} {act : Act α} (hact : Agree (Held (Kept own a).settled d f) act act
      (fun _ ↦ At (Reported own a e) d f) fun _ ↦ False) : Agree (At (Kept own a).settled d f) (do let _ ← act)
      (do let _ ← act) (fun _ ↦ At (Reported own a e) d f) fun _ ↦ False :=
    agree_bind (hact.pre fun _ hw ↦ hw.toHeld) fun _ ↦ agree_pure fun _ hw ↦ hw
  have hflat (hflat : ¬e.Structural) (hreports : a.contents.Reports e []) : Agree (At (Kept own a).settled d f)
      (@Edit.perform D 0 e) (@Edit.perform D 0 e) (fun _ ↦ At (Reported own a e) d f) fun _ ↦ False :=
    (h.assigning.agree_perform (fun _ _ ↦ h.agree_flush) e hflat fun w name kind x _ hw ↦
      Kept.same hw (.putIndex w 0 name kind x) (.putIndex w 0 name kind x)).post fun _ w hw ↦
        hw.mono fun _ hw ↦ Kept.reported_nothing hw hreports
  cases e with
  | add spec => exact hdone (h.agree_add hsubject spec)
  | remove uri => exact hdone (h.agree_remove hsubject uri)
  | link edge atFront => exact hdone (h.agree_link edge atFront)
  | unlink edge => exact hdone (h.agree_unlink edge)
  | update uri props => exact hflat id rfl
  | set e prop value => exact hflat id rfl
  | define e prop value => exact hflat id rfl
  | defineIndex name kind x => exact hflat id rfl

end Heeding

end LiveGraph.Lifecycle
