import LiveGraph.Breakpoint.Basic

/-!
# Which breakpoint is meant

Of the breakpoints on one line a column means one, if there is any. Which one depends on their columns and on their
order.
-/

namespace LiveGraph.Breakpoint

/-- What is chosen from a list one by one is one of its members, unless it was chosen before. -/
theorem mem_of_foldl {α : Type} {f : Option α → α → Option α}
    (hf : ∀ best x, f best x = best ∨ f best x = some x) {xs : List α} {best : Option α} {x : α}
    (h : xs.foldl f best = some x) : best = some x ∨ x ∈ xs := by
  induction xs generalizing best with
  | nil => exact .inl h
  | cons y rest ih =>
    rcases ih h with hnow | hlater
    · rcases hf best y with hkept | htaken
      · exact .inl (hkept.symm.trans hnow)
      · exact .inr (Option.some.inj (htaken.symm.trans hnow) ▸ List.mem_cons_self)
    · exact .inr (List.mem_cons_of_mem y hlater)

/-- Once one was chosen, one stays chosen. -/
theorem isSome_foldl {α : Type} {f : Option α → α → Option α} (hf : ∀ b x, (f (some b) x).isSome) {b : α}
    (xs : List α) : (xs.foldl f (some b)).isSome := by
  induction xs generalizing b with
  | nil => rfl
  | cons x rest ih =>
    obtain ⟨b', hb'⟩ := Option.isSome_iff_exists.mp (hf b x)
    rw [List.foldl_cons, hb']
    exact ih

variable {α : Type} {wanted : Option Int64} {onLine : List (α × Option Int64)}

/-- The breakpoint that is meant is one of those on the line. -/
theorem mem_of_choose {e : α} (h : choose wanted onLine = some e) :
    ∃ column, (e, column) ∈ onLine := by
  obtain ⟨⟨e', column⟩, hchosen, rfl⟩ := Option.map_eq_some_iff.mp h
  refine ⟨column, ?_⟩
  rcases Option.or_eq_some_iff.mp (Option.orElse_eq_or.symm.trans hchosen) with hexact | ⟨-, hrest⟩
  · obtain ⟨_, -, hfind⟩ := Option.bind_eq_some_iff.mp hexact
    exact List.mem_of_find?_eq_some hfind
  · rcases Option.or_eq_some_iff.mp (Option.orElse_eq_or.symm.trans hrest) with hbare | ⟨-, hlowest⟩
    · exact List.mem_of_find?_eq_some hbare
    · refine (mem_of_foldl (fun best x ↦ ?_) hlowest).resolve_left (Option.some_ne_none _).symm
      cases best with
      | none => exact .inr rfl
      | some b =>
        dsimp only
        split
        · exact .inr rfl
        · exact .inl rfl

/-- A location means none exactly if there is none on its line. -/
theorem choose_eq_none_iff : choose wanted onLine = none ↔ onLine = [] := by
  refine ⟨fun hnone ↦ ?_, fun hnil ↦ ?_⟩
  · obtain ⟨-, hrest⟩ := Option.or_eq_none_iff.mp (Option.orElse_eq_or.symm.trans (Option.map_eq_none_iff.mp hnone))
    obtain ⟨-, hlowest⟩ := Option.or_eq_none_iff.mp (Option.orElse_eq_or.symm.trans hrest)
    cases onLine with
    | nil => rfl
    | cons e rest =>
      refine absurd hlowest (Option.isSome_iff_ne_none.mp ?_)
      exact isSome_foldl (fun b x ↦ by dsimp only; split <;> rfl) rest
  · rw [hnil]
    cases wanted <;> rfl

/-- If there is one breakpoint on a line, every location on the line means that one. -/
theorem choose_singleton (wanted : Option Int64) (e : α) (column : Option Int64) :
    choose wanted [(e, column)] = some e := by
  have hsome : (choose wanted [(e, column)]).isSome :=
    Option.isSome_iff_ne_none.mpr fun hnone ↦ List.cons_ne_nil _ _ (choose_eq_none_iff.mp hnone)
  obtain ⟨e', he'⟩ := Option.isSome_iff_exists.mp hsome
  obtain ⟨column', hmem⟩ := mem_of_choose he'
  rw [he', (Prod.mk.inj (List.mem_singleton.mp hmem)).1]

/-- What is meant depends on columns and places alone. -/
theorem choose_map {α β : Type} (f : α → β) (wanted : Option Int64) (onLine : List (α × Option Int64)) :
    choose wanted (onLine.map fun e ↦ (f e.1, e.2)) = (choose wanted onLine).map f := by
  let g : α × Option Int64 → β × Option Int64 := fun e ↦ (f e.1, e.2)
  have hfirst : ∀ {a b c : Option (α × Option Int64)} {a' b' c' : Option (β × Option Int64)}, a' = a.map g →
      b' = b.map g → c' = c.map g → (a' <|> b' <|> c').map (·.1) = ((a <|> b <|> c).map (·.1)).map f := by
    rintro a b c _ _ _ rfl rfl rfl
    cases a <;> cases b <;> cases c <;> rfl
  refine hfirst ?_ List.find?_map ?_
  · cases wanted with
    | none => rfl
    | some column => exact List.find?_map
  · rw [List.foldl_map]
    change List.foldl _ (Option.map g none) onLine = _
    refine List.foldl_hom (Option.map g) fun best e ↦ ?_
    cases best with
    | none => rfl
    | some b =>
      simp only [Option.map_some]
      split <;> rfl

end LiveGraph.Breakpoint
