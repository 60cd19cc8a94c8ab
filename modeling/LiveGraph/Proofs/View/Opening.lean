import LiveGraph.Proofs.View.Rows

/-!
# Opening views and registering scripts

A view that is opened has its rows taken from the store as it is, and is told of everything that
happens from then on. Scripts may listen to the store and watch views.
-/

namespace LiveGraph

variable {w : World} {untold gone : Excuse} {hidden : Nat → Prop}

theorem World.listeners_subscribe (hstores : 0 < w.stores.size) (event event' : StoreEvent)
    (callback : Callback) :
    ((w.subscribe (.store 0 event) callback).2.store 0).listeners.get event' =
      if event = event' then ((w.store 0).listeners.get event').add callback
      else (w.store 0).listeners.get event' :=
  w.listeners_modifyWatchers hstores event event' (·.add callback)

theorem World.mem_listeners_subscribe (hstores : 0 < w.stores.size) {event event' : StoreEvent}
    {callback : Callback} {entry : Nat × Callback}
    (h : entry ∈ ((w.store 0).listeners.get event').entries) :
    entry ∈ (((w.subscribe (.store 0 event) callback).2.store 0).listeners.get event').entries := by
  rw [World.listeners_subscribe hstores]
  split
  · exact List.mem_append_left _ h
  · exact h

theorem World.size_subscribe (event : StoreEvent) (callback : Callback) :
    (w.subscribe (.store 0 event) callback).2.stores.size = w.stores.size :=
  w.size_modifyStore 0 _

theorem World.live_subscribe (event : StoreEvent) (callback : Callback) (s : StoreId) :
    ((w.subscribe (.store 0 event) callback).2.store s).live = (w.store s).live := by
  rw [show (w.subscribe (.store 0 event) callback).2 = w.modifyStore 0 _ from rfl,
    World.store_modifyStore]
  split <;> rfl

theorem Steady.subscribe (event : StoreEvent) (callback : Callback) :
    Steady w (w.subscribe (.store 0 event) callback).2 := by
  refine .of_eq rfl rfl fun s ↦ ?_
  rw [show (w.subscribe (.store 0 event) callback).2 = w.modifyStore 0 _ from rfl,
    World.store_modifyStore]
  split <;> rfl

theorem Query.filed_rows (hcoherent : (w.store 0).Coherent) (v : View) {predicates : List Predicate}
    {sort : Option SortKey} (hquery : v.query = .filter v.kind predicates sort)
    (hrows : v.rows = v.query.rows w 0) (hwindow : v.window = v.nextWindow) :
    w.Filed (fun _ ↦ False) (fun _ ↦ False) v := by
  let es := ((v.query.candidates 0).value w).filter (v.query.admits w)
  have hcandidates : (v.query.candidates 0).value w = w.entitiesOf 0 v.kind := by
    rw [hquery]
    rfl
  have hmem : ∀ e : EntityRef, e ∈ es ↔ (w.IsLive 0 e ∧ w.kindOf e = v.kind) ∧ v.query.admits w e := by
    intro e
    rw [List.mem_filter, hcandidates, World.mem_entitiesOf_of_coherent hcoherent]
  have hsorted : es.Pairwise fun a b ↦ a.serial < b.serial := by
    refine List.Pairwise.filter _ ?_
    rw [hcandidates]
    exact World.sorted_entitiesOf v.kind
  have hperm : v.rows.Perm (es.map (v.query.rowOf w)) := by
    have hplaced := Query.foldl_place_perm (q := v.query) (v.query.rowOf w) es []
    rw [List.append_nil] at hplaced
    rw [hrows]
    exact hplaced
  have hentities : (v.rows.map (·.entity)).Perm es := by
    refine (hperm.map _).trans ?_
    rw [List.map_map]
    exact .of_eq (List.map_id es)
  have hrow : ∀ row ∈ v.rows, row.entity ∈ es ∧ row.key = v.query.sortKey w row.entity := by
    intro row hrow
    obtain ⟨e, he, rfl⟩ := List.mem_map.mp (hperm.mem_iff.mp hrow)
    exact ⟨he, rfl⟩
  have hcurrent : ∀ e : EntityRef, e.store = 0 → (w.isCurrent e ↔ w.IsLive 0 e) := by
    intro e he
    rw [World.isCurrent, decide_eq_true_eq, he]
    exact (World.live_iff_isLive hcoherent e he _).trans (and_iff_left rfl)
  refine ⟨?_, ?_, fun row hmemRow ↦ ?_, fun e he hcurrentE hkind _ _ ↦ ?_, fun row hmemRow _ _ _ ↦ ?_,
    hwindow⟩
  · rw [hrows]
    exact Query.Sorted.foldl_place (fun _ ↦ rfl) List.Pairwise.nil hsorted fun _ _ _ h ↦ absurd h
      List.not_mem_nil
  · rw [hentities.nodup_iff]
    exact hsorted.imp fun hlt heq ↦ Nat.ne_of_lt hlt (congrArg EntityRef.serial heq)
  · obtain ⟨⟨hlive, hkind⟩, -⟩ := (hmem row.entity).mp (hrow row hmemRow).1
    exact ⟨hlive.1, hkind, .inl ((hcurrent _ hlive.1).mpr hlive)⟩
  · rw [hentities.mem_iff, hmem]
    exact and_iff_right ⟨(hcurrent e he).mp hcurrentE, hkind⟩
  · exact (hrow row hmemRow).2

/-- Other callbacks than views may listen to the store. -/
theorem Arranged.listen (h : Arranged untold gone w) (hstores : 0 < w.stores.size)
    (hlive : ∀ e : EntityRef, e.store = 0 → w.isCurrent e → w.IsLive 0 e) (event : StoreEvent)
    (callback : Callback) (hfits : ∀ w, World.Fits w event callback) :
    Arranged untold gone (w.subscribe (.store 0 event) callback).2 := by
  let w' := (w.subscribe (.store 0 event) callback).2
  have hsteady : Steady w w' := .subscribe event _
  have hhooked : w'.Hooked := by
    refine ⟨fun event' entry hentry ↦ ?_, fun id hid ↦ ?_⟩
    · rw [World.listeners_subscribe hstores] at hentry
      split at hentry
      · rcases List.mem_append.mp hentry with hold | hnew
        · exact (h.hooked.listeners event' entry hold).mono (Nat.le_refl _)
        · rename_i heq
          rw [List.mem_singleton.mp hnew, ← heq]
          exact hfits w'
      · exact (h.hooked.listeners event' entry hentry).mono (Nat.le_refl _)
    · obtain ⟨hnamed, hundisposed, hundropped, hkind, hscripts, hlistens⟩ := h.hooked.views id hid
      refine ⟨hnamed, hundisposed, hundropped, hkind, hscripts, fun event' hevent ↦ ?_⟩
      obtain ⟨n, hn⟩ := hlistens event' hevent
      exact ⟨n, World.mem_listeners_subscribe hstores hn⟩
  exact h.unmoved (hsteady.tied h.tied) hhooked rfl fun _ ↦
    hsteady.unmoved h.tied hlive (World.live_subscribe _ _)

/-- A script may watch a view. -/
theorem Arranged.watch (h : Arranged untold gone w) (id : ViewId) (name : String)
    (filter : EventFilter) (reaction : List Step) :
    Arranged untold gone (w.subscribe (.view id) (.script name filter reaction)).2 := by
  refine h.modifyView id (f := fun v ↦ { v with
    watchers := v.watchers.add (.script name filter reaction) }) ⟨fun _ ↦ rfl, fun _ ↦ rfl,
    fun _ ↦ rfl, fun _ ↦ rfl, fun v hv entry hentry ↦ ?_⟩ (fun _ hfiled ↦ hfiled.tell _ _)
    fun _ _ ↦ ⟨fun _ h ↦ h, fun _ h ↦ h⟩
  rcases List.mem_append.mp hentry with hold | hnew
  · exact hv entry hold
  · rw [List.mem_singleton.mp hnew]
    exact ⟨name, filter, reaction, rfl⟩

/-- A world where a view is told of what happens in the first store. -/
def World.attach (w : World) (id : ViewId) : World :=
  let added := (w.subscribe (.store 0 .added) (.view id .added)).2
  let removed := (added.subscribe (.store 0 .removed) (.view id .removed)).2
  (removed.subscribe (.store 0 .updated) (.view id .updated)).2

theorem World.listeners_attach (hstores : 0 < w.stores.size) (id : ViewId) (event : StoreEvent) :
    ((w.attach id).store 0).listeners.get event =
      if event ∈ [StoreEvent.added, .removed, .updated] then
        ((w.store 0).listeners.get event).add (.view id event)
      else (w.store 0).listeners.get event := by
  unfold World.attach
  rw [World.listeners_subscribe, World.listeners_subscribe, World.listeners_subscribe hstores]
  · cases event <;> rfl
  · rwa [World.size_subscribe]
  · rwa [World.size_subscribe, World.size_subscribe]

theorem World.live_attach (id : ViewId) (s : StoreId) :
    ((w.attach id).store s).live = (w.store s).live := by
  unfold World.attach
  rw [World.live_subscribe, World.live_subscribe, World.live_subscribe]

theorem Steady.attach (id : ViewId) : Steady w (w.attach id) :=
  ((Steady.subscribe _ _).trans (.subscribe _ _)).trans (.subscribe _ _)

/-- What is opened is a view with the rows of its query, which is told from then on. -/
theorem World.addView_eq (w : World) (query : Query) (kind : String) (window : Window) :
    ∃ v : View, (w.addView 0 query kind window).2 =
        { (w.addSignal (.int 0) .same (.view w.views.size)).2.attach w.views.size with
          views := w.views.push v } ∧
      v.query = query ∧ v.kind = kind ∧
      v.rows = query.rows (w.addSignal (.int 0) .same (.view w.views.size)).2 0 ∧
      v.window = v.nextWindow ∧ v.watchers = .empty ∧ v.disposed = false ∧ v.dropped = false ∧
      v.version = w.signals.size ∧ v.changing = false :=
  ⟨_, rfl, rfl, rfl, rfl, rfl, rfl, rfl, rfl, rfl, rfl⟩

theorem World.view_push (views : Array View) (v : View) (j : ViewId) :
    ({ w with views := views.push v } : World).view j =
      if j = views.size then v else ({ w with views := views } : World).view j := by
  simp only [World.view, Array.getD_eq_getD_getElem?, Array.getElem?_push]
  split <;> rfl

/-- A view may be opened under a new name. -/
theorem Arranged.openView (h : Arranged untold gone w) (hground : Ground (fun _ ↦ False) w)
    {query : Query} {kind : String} (window : Window) {name : String}
    (hkind : ∀ qkind predicates sort, query = .filter qkind predicates sort → kind = qkind)
    (hname : w.session.views.contains name = false) :
    Arranged untold gone ((w.addView 0 query kind window).2.modifySession fun s ↦
      { s with views := s.views.insert name w.views.size }) := by
  obtain ⟨v, hadd, hquery, hvkind, hrows, hwindow, hwatchers, hundisposed, hundropped, -⟩ :=
    w.addView_eq query kind window
  have hsteady : Steady w (w.addSignal (.int 0) .same (.view w.views.size)).2 := .addSignal _ _ _
  have hground₁ : Ground (fun _ ↦ False) (w.addSignal (.int 0) .same (.view w.views.size)).2 :=
    ⟨hground.coherent, hground.stores_size, hground.current⟩
  have hlive₁ : ∀ s, ((w.addSignal (.int 0) .same (.view w.views.size)).2.store s).live =
      (w.store s).live := fun _ ↦ rfl
  have hlisteners₁ : ((w.addSignal (.int 0) .same (.view w.views.size)).2.store 0).listeners =
      (w.store 0).listeners := rfl
  have hsession₁ : (w.addSignal (.int 0) .same (.view w.views.size)).2.session = w.session := rfl
  rw [hadd]
  generalize (w.addSignal (.int 0) .same (.view w.views.size)).2 = w₁ at *
  have hstores₁ : 0 < w₁.stores.size := by
    rw [hground₁.stores_size]
    exact Nat.one_pos
  have hget := World.listeners_attach hstores₁ w.views.size
  have hattach : Steady w₁ (w₁.attach w.views.size) := .attach _
  have hlive₂ := World.live_attach (w := w₁) w.views.size
  have hsession₂ : (w₁.attach w.views.size).session = w₁.session := rfl
  generalize w₁.attach w.views.size = w₂ at *
  obtain ⟨w', hw'⟩ : ∃ w', w' = ({ w₂ with views := w.views.push v } : World).modifySession fun s ↦
    { s with views := s.views.insert name w.views.size } := ⟨_, rfl⟩
  rw [← hw']
  have hstore : ∀ s, w'.store s = w₂.store s := fun s ↦ by rw [hw']; rfl
  have hnames : w'.session.views = w.session.views.insert name w.views.size := by
    rw [hw', ← hsession₁, ← hsession₂]
    rfl
  have hview : ∀ j, w'.view j = if j = w.views.size then v else w.view j := fun j ↦ by
    rw [hw']
    exact w₂.view_push w.views v j
  have hsize : w'.views.size = w.views.size + 1 := by
    rw [hw']
    exact Array.size_push ..
  have hpush : Steady w₂ w' := by
    rw [hw']
    exact .of_eq rfl rfl fun _ ↦ rfl
  clear hw'
  have hafter := hattach.trans hpush
  have htied := hsteady.tied h.tied
  refine ⟨hafter.tied htied, ⟨fun event entry hentry ↦ ?_, fun j hj ↦ ?_⟩, fun j hj hv ↦ ?_⟩
  · rw [hstore, hget, hlisteners₁] at hentry
    have hbefore : entry ∈ ((w.store 0).listeners.get event).entries → w'.Fits event entry.2 :=
      fun hmem ↦ (h.hooked.listeners event entry hmem).mono (hsize ▸ Nat.le_succ _)
    split at hentry
    · rcases List.mem_append.mp hentry with hmem | hnew
      · exact hbefore hmem
      · rw [List.mem_singleton.mp hnew]
        exact ⟨rfl, hsize ▸ Nat.lt_succ_self _⟩
    · exact hbefore hentry
  · by_cases hnew : j = w.views.size
    · have hviewj : w'.view j = v := by rw [hview, if_pos hnew]
      refine ⟨⟨name, ?_⟩, ?_, ?_, fun qkind predicates sort hfilter ↦ ?_, ?_, fun event hevent ↦
        ⟨((w.store 0).listeners.get event).issued + 1, ?_⟩⟩
      · rw [hnames, hnew]
        exact Std.TreeMap.getElem?_insert_self
      · rw [hviewj, hundisposed]
      · rw [hviewj, hundropped]
      · rw [hviewj, hquery] at hfilter
        rw [hviewj, hvkind]
        exact hkind qkind predicates sort hfilter
      · rw [hviewj, hwatchers]
        exact fun entry hentry ↦ absurd hentry List.not_mem_nil
      · rw [hstore, hget, hlisteners₁, if_pos hevent, hnew]
        exact List.mem_append_right _ (List.mem_singleton.mpr rfl)
    · rw [hsize] at hj
      have hj : j < w.views.size := Nat.lt_of_le_of_ne (Nat.le_of_lt_succ hj) hnew
      have hviewj : w'.view j = w.view j := by rw [hview, if_neg hnew]
      have hrest := h.hooked.views j hj
      obtain ⟨name', hname'⟩ := hrest.named
      refine ⟨⟨name', ?_⟩, ?_, ?_, ?_, ?_, fun event hevent ↦ ?_⟩
      · have hne : name ≠ name' := fun heq ↦ by
          rw [heq, Std.TreeMap.contains_eq_isSome_getElem?, hname'] at hname
          exact Bool.noConfusion hname
        rw [hnames, Std.TreeMap.getElem?_insert, if_neg (by simpa using hne), hname']
      · rw [hviewj, hrest.undisposed]
      · rw [hviewj, hrest.undropped]
      · rw [hviewj]
        exact hrest.kind_eq
      · rw [hviewj]
        exact hrest.scripts
      · obtain ⟨n, hn⟩ := hrest.listens event hevent
        rw [hstore, hget, hlisteners₁, if_pos hevent]
        exact ⟨n, List.mem_append_left _ hn⟩
  · have hlive : ∀ s, (w'.store s).live = (w₁.store s).live := fun s ↦ by rw [hstore, hlive₂]
    by_cases hnew : j = w.views.size
    · rw [hview, if_pos hnew] at hv ⊢
      obtain ⟨predicates, sort, hfilter, hwild⟩ := hv
      have hfiled := Query.filed_rows hground₁.coherent v hfilter (hquery ▸ hrows) hwindow
      have hmoved := hfiled.unmoved ⟨predicates, sort, hfilter, hwild⟩
        (hafter.unmoved htied (fun e ↦ hground₁.isLive_of_isCurrent) hlive)
      exact hmoved.mono (fun _ _ h ↦ h.elim) fun _ h ↦ h.elim
    · rw [hsize] at hj
      have hj : j < w.views.size := Nat.lt_of_le_of_ne (Nat.le_of_lt_succ hj) hnew
      rw [hview, if_neg hnew] at hv ⊢
      exact (h.filed j hj hv).unmoved hv ((hsteady.trans hafter).unmoved h.tied
        (fun e ↦ hground.isLive_of_isCurrent) fun s ↦ (hlive s).trans (hlive₁ s))

end LiveGraph
