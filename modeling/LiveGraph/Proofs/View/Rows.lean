import LiveGraph.Proofs.Store.Notices
import LiveGraph.Proofs.View.Arranged

/-!
# Changes of views

A view that takes up an entity, or leaves one out, is no longer excused of it; all that is told
about entities of another type is passed over. Nothing else about a view has to do with its rows.
-/

namespace LiveGraph

variable {w w' : World} {v : View} {e : EntityRef} {u u' g g' : EntityRef → Prop}

namespace View

theorem mem_withoutRow (row : Row) : row ∈ v.withoutRow e ↔ row ∈ v.rows ∧ row.entity ≠ e := by
  rw [withoutRow, List.mem_filter, decide_eq_true_eq]

theorem mem_rowsWith (id : ViewId) (row : Row) : row ∈ rowsWith w id e ↔
    (row ∈ (w.view id).rows ∧ row.entity ≠ e) ∨
      (w.view id).query.admits w e = true ∧ row = (w.view id).query.rowOf w e := by
  unfold rowsWith
  dsimp only
  split
  · rename_i hadmits
    rw [(Query.place_perm _ _).mem_iff, List.mem_cons, mem_withoutRow]
    simp [hadmits, or_comm]
  · rename_i hadmits
    rw [mem_withoutRow]
    simp [hadmits]

end View

namespace World.Filed

/-- An entity of another type is none of a view's business. -/
theorem other (h : w.Filed u g v) (hkind : w.kindOf e ≠ v.kind) (hu : ∀ e', u e' → e' = e ∨ u' e')
    (hg : ∀ e', g e' → e' = e ∨ g' e') : w.Filed u' g' v where
  sorted := h.sorted
  nodup := h.nodup
  current row hrow := by
    obtain ⟨hstore, hrowKind, hcurrent⟩ := h.current row hrow
    exact ⟨hstore, hrowKind, hcurrent.imp_right fun hgone ↦
      (hg _ hgone).resolve_left fun heq ↦ hkind (heq ▸ hrowKind)⟩
  mem_iff e' he' hcurrent hkind' hnot := h.mem_iff e' he' hcurrent hkind' fun hun ↦
    hnot ((hu e' hun).resolve_left fun heq ↦ hkind (heq ▸ hkind'))
  key_eq row hrow hcurrent hnot := h.key_eq row hrow hcurrent fun hun ↦
    hnot ((hu _ hun).resolve_left fun heq ↦ hkind (heq ▸ (h.current row hrow).2.1))
  window_eq := h.window_eq

/-- Rows that are right about one entity, and about all others what they were. -/
theorem replace (h : w.Filed u g v) (e : EntityRef) {rows : List Row}
    (hsorted : v.query.Sorted rows) (hnodup : (rows.map (·.entity)).Nodup)
    (hold : ∀ row : Row, row.entity ≠ e → (row ∈ rows ↔ row ∈ v.rows))
    (hnew : ∀ row ∈ rows, row.entity = e → e.store = 0 ∧ w.kindOf e = v.kind ∧ w.isCurrent e ∧
      row.key = v.query.sortKey w e)
    (hmem : w.isCurrent e → (e ∈ rows.map (·.entity) ↔ v.query.admits w e))
    (hu : ∀ e', u e' → e' = e ∨ u' e') (hg : ∀ e', g e' → e' = e ∨ g' e') :
    w.Filed u' g' { v with rows := rows, window := View.slice rows v.offset v.limit } where
  sorted := hsorted
  nodup := hnodup
  current row hrow := by
    by_cases heq : row.entity = e
    · obtain ⟨hstore, hkind, hcurrent, -⟩ := hnew row hrow heq
      rw [heq]
      exact ⟨hstore, hkind, .inl hcurrent⟩
    · obtain ⟨hstore, hkind, hcurrent⟩ := h.current row ((hold row heq).mp hrow)
      exact ⟨hstore, hkind, hcurrent.imp_right fun hgone ↦ (hg _ hgone).resolve_left heq⟩
  mem_iff e' he' hcurrent hkind hnot hp := by
    by_cases heq : e' = e
    · rw [heq] at hcurrent ⊢
      exact hmem hcurrent
    · rw [← h.mem_iff e' he' hcurrent hkind (fun hun ↦ hnot ((hu e' hun).resolve_left heq)) hp,
        List.mem_map, List.mem_map]
      refine exists_congr fun row ↦ and_congr_left fun hrow ↦ hold row ?_
      rwa [hrow]
  key_eq row hrow hcurrent hnot hp := by
    by_cases heq : row.entity = e
    · rw [(hnew row hrow heq).2.2.2, heq]
    · exact h.key_eq row ((hold row heq).mp hrow) hcurrent
        (fun hun ↦ hnot ((hu _ hun).resolve_left heq)) hp
  window_eq := rfl

theorem sorted_withoutRow (h : w.Filed u g v) (e : EntityRef) : v.query.Sorted (v.withoutRow e) :=
  h.sorted.filter _

theorem nodup_withoutRow (h : w.Filed u g v) (e : EntityRef) :
    ((v.withoutRow e).map (·.entity)).Nodup :=
  h.nodup.sublist (List.filter_sublist.map _)

/-- After it was taken up, an entity needs no excuse. -/
theorem takeUp {id : ViewId} (h : w.Filed u g (w.view id)) (hstore : e.store = 0)
    (hcurrent : w.isCurrent e) (hkind : w.kindOf e = (w.view id).kind)
    (hu : ∀ e', u e' → e' = e ∨ u' e') : w.Filed u' g { w.view id with
      rows := View.rowsWith w id e
      window := View.slice (View.rowsWith w id e) (w.view id).offset (w.view id).limit } := by
  have hperm : (View.rowsWith w id e).Perm (if (w.view id).query.admits w e then
      (w.view id).query.rowOf w e :: (w.view id).withoutRow e else (w.view id).withoutRow e) := by
    unfold View.rowsWith
    dsimp only
    split
    · exact Query.place_perm _ _
    · exact .refl _
  refine h.replace e ?_ ?_ (fun row hne ↦ ?_) (fun row hrow heq ↦ ?_) (fun _ ↦ ?_) hu
    fun _ hgone ↦ .inr hgone
  · unfold View.rowsWith
    dsimp only
    split
    · refine (h.sorted_withoutRow e).place fun row hrow hserial ↦ ?_
      obtain ⟨hrow, hne⟩ := (View.mem_withoutRow row).mp hrow
      exact hne (EntityRef.eq_of_serial ((h.current row hrow).1.trans hstore.symm) hserial)
    · exact h.sorted_withoutRow e
  · rw [(hperm.map _).nodup_iff]
    split
    · rw [List.map_cons, List.nodup_cons]
      refine ⟨fun hmem ↦ ?_, h.nodup_withoutRow e⟩
      obtain ⟨row, hrow, heq⟩ := List.mem_map.mp hmem
      exact ((View.mem_withoutRow row).mp hrow).2 heq
    · exact h.nodup_withoutRow e
  · rw [View.mem_rowsWith]
    constructor
    · rintro (⟨hrow, -⟩ | ⟨-, rfl⟩)
      · exact hrow
      · exact absurd rfl hne
    · exact fun hrow ↦ .inl ⟨hrow, hne⟩
  · obtain ⟨-, hne⟩ | ⟨-, rfl⟩ := (View.mem_rowsWith id row).mp hrow
    · exact absurd heq hne
    · exact ⟨hstore, hkind, hcurrent, rfl⟩
  · rw [List.mem_map]
    constructor
    · rintro ⟨row, hrow, heq⟩
      obtain ⟨-, hne⟩ | ⟨hadmits, -⟩ := (View.mem_rowsWith id row).mp hrow
      · exact absurd heq hne
      · exact hadmits
    · exact fun hadmits ↦ ⟨_, (View.mem_rowsWith id _).mpr (.inr ⟨hadmits, rfl⟩), rfl⟩

/-- After it was left out, an entity that cannot be found needs no excuse. -/
theorem leaveOut (h : w.Filed u g v) (e : EntityRef) (hgone : w.isCurrent e = false)
    (hg : ∀ e', g e' → e' = e ∨ g' e') : w.Filed u g' { v with
      rows := v.withoutRow e
      window := View.slice (v.withoutRow e) v.offset v.limit } := by
  refine h.replace e (h.sorted_withoutRow e) (h.nodup_withoutRow e) (fun row hne ↦ ?_)
    (fun row hrow heq ↦ ?_) (fun hcurrent ↦ ?_) (fun _ hun ↦ .inr hun) hg
  · rw [View.mem_withoutRow]
    exact and_iff_left hne
  · exact absurd heq ((View.mem_withoutRow row).mp hrow).2
  · simp [hgone] at hcurrent

/-- An entity that has no row needs no excuse once it cannot be found. -/
theorem absent (h : w.Filed u g v) (e : EntityRef)
    (hnone : (v.rows.any fun row ↦ row.entity = e) = false) (hg : ∀ e', g e' → e' = e ∨ g' e') :
    w.Filed u g' v where
  sorted := h.sorted
  nodup := h.nodup
  current row hrow := by
    obtain ⟨hstore, hkind, hcurrent⟩ := h.current row hrow
    refine ⟨hstore, hkind, hcurrent.imp_right fun hgone ↦ (hg _ hgone).resolve_left fun heq ↦ ?_⟩
    simpa [heq] using List.any_eq_false.mp hnone row hrow
  mem_iff := h.mem_iff
  key_eq := h.key_eq
  window_eq := h.window_eq

/-- Whom a view tells has nothing to do with its rows. -/
theorem tell (h : w.Filed u g v) (watchers : Watchers) (changing : Bool) :
    w.Filed u g { v with watchers := watchers, changing := changing } :=
  ⟨h.sorted, h.nodup, h.current, h.mem_iff, h.key_eq, h.window_eq⟩

/-- The window may be moved. -/
theorem move (h : w.Filed u g v) (offset limit : Nat) : w.Filed u g { v with
    offset := offset
    limit := limit
    window := View.slice v.rows offset limit } :=
  ⟨h.sorted, h.nodup, h.current, h.mem_iff, h.key_eq, rfl⟩

end World.Filed

end LiveGraph

/-!
## Views and callbacks in place

What changes a view, registers a callback, or takes up a notification that was put off, and that a
world whose views all have names has nothing to let go of.
-/

namespace LiveGraph

variable {w w' : World} {untold untold' gone gone' : Excuse}

/-- A change of a view that concerns neither what it is about nor which sort of callback it has. -/
structure View.Keeps (f : View → View) : Prop where
  query_eq : ∀ v, (f v).query = v.query
  kind_eq : ∀ v, (f v).kind = v.kind
  disposed_eq : ∀ v, (f v).disposed = v.disposed
  dropped_eq : ∀ v, (f v).dropped = v.dropped
  scripts : ∀ v, (∀ entry ∈ v.watchers.entries, ∃ name filter reaction,
      entry.2 = .script name filter reaction) →
    ∀ entry ∈ (f v).watchers.entries, ∃ name filter reaction, entry.2 = .script name filter reaction

theorem World.Fits.mono {event : StoreEvent} {callback : Callback} (h : w.Fits event callback)
    (hsize : w.views.size ≤ w'.views.size) : w'.Fits event callback := by
  match callback with
  | .script _ _ _ => exact trivial
  | .forget _ => exact trivial
  | .view _ _ => exact ⟨h.1, Nat.lt_of_lt_of_le h.2 hsize⟩
  | .property _ _ => exact h.elim

theorem World.Hooked.modifyView (h : w.Hooked) (id : ViewId) {f : View → View} (hf : View.Keeps f) :
    (w.modifyView id f).Hooked := by
  refine ⟨fun event entry hentry ↦ (h.listeners event entry hentry).mono ?_, fun j hj ↦ ?_⟩
  · exact Nat.le_of_eq (w.size_modifyView id f).symm
  · rw [w.size_modifyView] at hj
    obtain ⟨hnamed, hundisposed, hundropped, hkind, hscripts, hlistens⟩ := h.views j hj
    by_cases hid : id = j
    · subst hid
      have hview : (w.modifyView id f).view id = f (w.view id) := by
        rw [w.view_modifyView, if_pos ⟨rfl, hj⟩]
      refine ⟨hnamed, ?_, ?_, fun kind predicates sort ↦ ?_, ?_, hlistens⟩
      · rw [hview, hf.disposed_eq, hundisposed]
      · rw [hview, hf.dropped_eq, hundropped]
      · rw [hview, hf.query_eq, hf.kind_eq]
        exact hkind kind predicates sort
      · rw [hview]
        exact hf.scripts _ hscripts
    · have hview : (w.modifyView id f).view j = w.view j := by
        rw [w.view_modifyView, if_neg fun h ↦ hid h.1]
      rw [← hview] at hundisposed hundropped hkind hscripts
      exact ⟨hnamed, hundisposed, hundropped, hkind, hscripts, hlistens⟩

theorem World.modifyView_congr {id : ViewId} {f g : View → View} (h : f (w.view id) = g (w.view id)) :
    w.modifyView id f = w.modifyView id g := by
  have hviews : w.views.modify id f = w.views.modify id g := by
    refine Array.ext (by simp) fun i hi hi' ↦ ?_
    rw [Array.getElem_modify, Array.getElem_modify]
    split
    · rename_i hid
      subst hid
      have hlt : id < w.views.size := by simpa using hi
      have hview : w.view id = w.views[id] := by simp [World.view, hlt]
      rwa [← hview]
    · rfl
  exact congrArg (fun views ↦ { w with views := views }) hviews

theorem World.modifyView_modifyView (id : ViewId) (f g : View → View) :
    (w.modifyView id f).modifyView id g = w.modifyView id (g ∘ f) := by
  have hviews : (w.views.modify id f).modify id g = w.views.modify id (g ∘ f) := by
    refine Array.ext (by simp) fun i hi hi' ↦ ?_
    simp only [Array.getElem_modify]
    split <;> rfl
  exact congrArg (fun views ↦ { w with views := views }) hviews

/-- A view may be changed as long as its rows become what they should be. -/
theorem Arranged.modifyView (h : Arranged untold gone w) (id : ViewId) {f : View → View}
    (hf : View.Keeps f)
    (hfiled : (w.view id).Filters → w.Filed (untold id) (gone id) (w.view id) →
      w.Filed (untold' id) (gone' id) (f (w.view id)))
    (hother : ∀ j, id ≠ j → (∀ e, untold j e → untold' j e) ∧ ∀ e, gone j e → gone' j e) :
    Arranged untold' gone' (w.modifyView id f) := by
  refine ⟨?_, h.hooked.modifyView id hf, fun j hj hv ↦ ?_⟩
  · have hsteady : Steady w (w.modifyView id f) := .of_eq rfl rfl fun _ ↦ rfl
    exact hsteady.tied h.tied
  · rw [w.size_modifyView] at hj
    rw [w.view_modifyView] at hv ⊢
    have hsame : ∀ {u u' g g' : EntityRef → Prop}, (∀ e, u e → u' e) → (∀ e, g e → g' e) →
        Unmoved w (w.modifyView id f) u u' g g' := fun hu hg ↦
      ⟨fun e _ hcurrent hnot hp ↦ ⟨hcurrent, fun hun ↦ hnot (hu e hun), hp, fun _ ↦ rfl⟩,
        fun e _ hkept ↦ ⟨rfl, rfl, hkept.imp_right (hg e)⟩⟩
    by_cases hid : id = j
    · subst hid
      rw [if_pos ⟨rfl, hj⟩] at hv ⊢
      obtain ⟨predicates, sort, hquery, hkind⟩ := hv
      rw [hf.query_eq, hf.kind_eq] at hquery
      rw [hf.kind_eq] at hkind
      have hv : (w.view id).Filters := ⟨predicates, sort, hquery, hkind⟩
      refine (hfiled hv (h.filed id hj hv)).unmoved ?_ (hsame (fun _ h ↦ h) fun _ h ↦ h)
      exact ⟨predicates, sort, by rw [hf.query_eq, hf.kind_eq, hquery], by rw [hf.kind_eq]; exact hkind⟩
    · rw [if_neg fun h ↦ hid h.1] at hv ⊢
      exact (h.filed j hj hv).unmoved hv (hsame (hother j hid).1 (hother j hid).2)

/-- What is put off for a view to tell is nothing to the rows. -/
theorem Arranged.deferView (h : Arranged untold gone w) (id : ViewId)
    (hlive : ∀ e : EntityRef, e.store = 0 → w.isCurrent e → w.IsLive 0 e) :
    Arranged untold gone (w.deferView id) := by
  unfold World.deferView
  split
  · exact h
  · have hchanging : Arranged untold gone (w.modifyView id fun v ↦ { v with changing := true }) :=
      h.modifyView id ⟨fun _ ↦ rfl, fun _ ↦ rfl, fun _ ↦ rfl, fun _ ↦ rfl, fun _ h ↦ h⟩
      (fun _ hfiled ↦ hfiled.tell _ _) fun _ _ ↦ ⟨fun _ h ↦ h, fun _ h ↦ h⟩
    exact hchanging.steady (.defer _ (.view id)) hlive (fun _ ↦ rfl) rfl rfl rfl

/-- What was put off and is told now excuses the entity it is about, if any. -/
theorem Arranged.pop (h : Arranged untold gone w) {effect : Effect} (hpopped : Popped w w' effect)
    (hu : ∀ vid e, untold vid e ∨ (∃ prop id, effect = .signal id ∧ w.HasProperty e prop id) →
      untold' vid e) : Arranged untold' gone w' :=
  h.unmoved (hpopped.tied h.tied) (h.hooked.congr (by rw [hpopped.store_eq]) hpopped.views_eq
    (by rw [hpopped.session_eq])) hpopped.views_eq fun vid ↦ hpopped.unmoved (hu vid)

theorem foldl_unchanged {α β : Type} {f : β → α → β} {b : β} (xs : List α) (h : ∀ x ∈ xs, f b x = b) :
    xs.foldl f b = b := by
  induction xs with
  | nil => rfl
  | cons x rest ih =>
    rw [List.foldl_cons, h x List.mem_cons_self]
    exact ih fun y hy ↦ h y (List.mem_cons_of_mem x hy)

/-- Where every view has a name and there is nothing to compute, nothing ends. -/
theorem World.reap_eq (h : w.Hooked) (hnone : w.deriveds = #[]) : w.reap = w := by
  have hviews : w.reapViews = w := by
    refine foldl_unchanged _ fun id hid ↦ if_pos ?_
    obtain ⟨name, hname⟩ := (h.views id (List.mem_range.mp hid)).named
    have hmem : id ∈ w.session.views.values := (Tables.mem_values _ id).mpr ⟨name, hname⟩
    simp [isViewHeld, hmem]
  rw [reap, hviews, hnone]
  rfl

end LiveGraph
