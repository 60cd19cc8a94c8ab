import LiveGraph.Proofs.Network.Glancing

/-!
# Telling the callbacks

When the queue is worked off, the callbacks are told, one source after the other. As long as they write
nothing, nothing is queued meanwhile: each callback that is still registered when its turn comes is told once,
and the value it is told is the one that is there in the end.
-/

namespace LiveGraph

/-- The name that a callback of a script has. -/
def Callback.title : Callback → String
  | .script name _ _ => name
  | _ => ""

/-- What is put off where a source has another value. -/
def Source.effect : Source → Effect
  | signal id => .signal id
  | derived id => .derived id

theorem Source.effect_injective : Function.Injective Source.effect := by
  intro s s' h
  cases s <;> cases s' <;> simp_all [effect]

namespace Network

open Act

variable {net : Network} {w w' w₁ w₂ : World} {told : List (String × Datum)}

variable (quiet : String → Event → Glancing)

/-- Which callbacks of a source were told: all those that stayed, each once. -/
structure Heard (w w' : World) (s : Source) (heard : List (Nat × Callback)) : Prop where
  nodup : (heard.map (·.1)).Nodup
  of_stayed : ∀ e, e ∈ (w.watchers s.channel).entries → e ∈ (w'.watchers s.channel).entries → e ∈ heard
  mem_or_lt : ∀ e ∈ heard, e ∈ (w.watchers s.channel).entries ∨ (w.watchers s.channel).issued < e.1

/-- Two worlds that differ by what is under way and by what waits to be told. -/
structure Alike (w w' : World) : Prop where
  queue_eq : w'.queue = w.queue
  effects_eq : w'.effects = w.effects
  valueOf_eq : ∀ id, w'.valueOf id = w.valueOf id
  value_eq : ∀ d, (w'.derived d).value = (w.derived d).value
  watchers_eq : ∀ s : Source, w'.watchers s.channel = w.watchers s.channel
  session_eq : w'.session = w.session

theorem Quiet.alike (h : net.Quiet told w₁ w₂) (hbefore : Alike w w₁) (hafter : Alike w₂ w')
    (hlevel : w.Level w') : net.Quiet told w w' := by
  have hevaluated (d : DerivedId) : w₁.Evaluated d ↔ w.Evaluated d := by
    rw [World.Evaluated, hbefore.value_eq d]
    rfl
  obtain ⟨log, hlog, htold, hcomputed⟩ := h.notes
  refine ⟨hlevel, hafter.queue_eq.trans (h.queue_eq.trans hbefore.queue_eq),
    hafter.effects_eq.trans (h.effects_eq.trans hbefore.effects_eq),
    fun id ↦ (hafter.valueOf_eq id).trans ((h.valueOf_eq id).trans (hbefore.valueOf_eq id)), fun d hd ↦ ?_,
    fun s ↦ ?_, log, ?_, htold, fun n hn name hname ↦ ?_⟩
  · rw [hafter.value_eq, h.value_eq d ((hevaluated d).mpr hd), hbefore.value_eq]
  · rw [hafter.watchers_eq, ← hbefore.watchers_eq]
    exact h.later s
  · rw [hafter.session_eq, hlog, hbefore.session_eq]
  · obtain ⟨d, rfl, hd⟩ := hcomputed n hn name hname
    exact ⟨d, rfl, fun hd' ↦ hd ((hevaluated d).mpr hd')⟩

theorem Heard.congr {s : Source} {heard : List (Nat × Callback)} (h : Heard w₁ w₂ s heard)
    (hbefore : w₁.watchers s.channel = w.watchers s.channel)
    (hafter : w'.watchers s.channel = w₂.watchers s.channel) : Heard w w' s heard := by
  refine ⟨h.nodup, fun e he he' ↦ h.of_stayed e ?_ ?_, fun e he ↦ ?_⟩
  · rw [hbefore]
    exact he
  · rw [← hafter]
    exact he'
  · rw [← hbefore]
    exact h.mem_or_lt e he

end Network

end LiveGraph
