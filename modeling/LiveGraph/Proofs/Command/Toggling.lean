import LiveGraph.Command.Execution
import LiveGraph.Proofs.Breakpoint.Opening
import LiveGraph.Proofs.Snapshot.File

/-!
# Toggling through files

A command that toggles a breakpoint loads a snapshot, toggles, and saves. Toggling by one command after the other
comes to the same as toggling in one process, on what was loaded once: what is done is the same each time, and in the
end there are the same breakpoints on every path. Only their URIs may differ, since each process numbers them anew.
-/

namespace LiveGraph

open Act Breakpoint

/-- One location after the other is toggled, and it is listed what each toggle came to. -/
def Task.toggleAll [Dispatch] (id : StateId) : List Location → Act (List (Option (Except Fault Toggled)))
  | [] => return []
  | l :: rest => do
    let r ← toggleNow 0 id l
    let rs ← toggleAll id rest
    return r :: rs

namespace Invocation

/-- What a command works on once a snapshot was loaded. -/
def opened (c : Config) (snapshot : Snapshot) : Option World :=
  letI := dispatch Command.depth
  let (id, w) := World.empty.addState c.schema
  match snapshot.restore id true w with
  | .ok (.ok ()) w => some w
  | _ => none

/-- The same invocation, for a toggle. -/
def toggling (i : Invocation) (l : Location) : Invocation :=
  { i with command := .toggle l }

/-- One location after the other is toggled, by a command of its own. -/
def toggleThrough (i : Invocation) (usual : Option String) :
    List Location → Files → Option (Except Fault (List String × Files))
  | [], files => some (.ok ([], files))
  | l :: rest, files =>
    match (i.toggling l).execute usual files with
    | none => none
    | some (.error why) => some (.error why)
    | some (.ok (text, files)) => (toggleThrough i usual rest files).map (·.map fun (texts, files) ↦ (text :: texts, files))

variable {i : Invocation} {usual : Option String} {files : Files} {c : Config} {s : Snapshot} {w : World} {l : Location}

theorem deep_depth : Deep (dispatch Command.depth) :=
  deep_dispatch 5

/-- What can be opened repeats no URI. -/
theorem nodup_of_opened (h : opened c s = some w) : (s.entities.map (·.uri)).Nodup := by
  let _ := dispatch Command.depth
  obtain ⟨r, w', hrun, hok, -⟩ := ends_restore_fresh c.schema (Nat.zero_lt_of_lt deep_depth.rounds_pos) s
  have hopened : opened c s = if r = .ok () then some w' else none := by
    change (match s.restore 0 true (fresh c.schema) with
      | .ok (.ok ()) w => some w
      | _ => none) = _
    rw [hrun]
    cases r <;> rfl
  rw [hopened, Option.ite_none_right_eq_some] at h
  exact hok.mp h.1

/-- What repeats no URI is restored, and is opened so. -/
theorem restore_run (c : Config) (h : (s.entities.map (·.uri)).Nodup) : ∃ w,
    @Snapshot.restore (dispatch Command.depth) s 0 true (fresh c.schema) = .ok (.ok ()) w ∧ opened c s = some w ∧
      Settled w ∧ roster w = rosterOf s.normal := by
  let _ := dispatch Command.depth
  obtain ⟨r, w, hrun, hok, hsettled⟩ := ends_restore_fresh c.schema (Nat.zero_lt_of_lt deep_depth.rounds_pos) s
  obtain rfl := hok.mpr h
  refine ⟨w, hrun, ?_, hsettled rfl⟩
  change (match s.restore 0 true (fresh c.schema) with
    | .ok (.ok ()) w => some w
    | _ => none) = _
  rw [hrun]

/-- A toggle that is not rejected is reported, and what there is then is to be saved. -/
theorem toggleBreakpoint_run [Dispatch] (i : Invocation) {id : StateId} {w' : World} {t : Toggled}
    (h : Task.toggleNow 0 id l w = .ok (some (.ok t)) w') (ht : t ≠ .rejected) : ∃ uri,
      Command.toggleBreakpoint i id l w = .ok (.ok { Command.showToggled i l t.action (some uri) with
        save := some (i.snapshot, w'.capture id true) }) w' := by
  cases t with
  | added p => exact ⟨p.uri, by simp only [Command.toggleBreakpoint, bind_run, h, get_run]; rfl⟩
  | removed uri => exact ⟨uri, by simp only [Command.toggleBreakpoint, bind_run, h, get_run]; rfl⟩
  | rejected => exact absurd rfl ht

/-- A command that toggles reports what it did, and saves what there is then. -/
theorem perform_toggling (i : Invocation) (c : Config) (h : (s.entities.map (·.uri)).Nodup) (l : Location) :
    ∃ t uri w, Settled w ∧ (rosterOf s.normal).Toggles l t (roster w) ∧ (i.toggling l).perform c (some s) =
      some (.ok { Command.showToggled i l t.action (some uri) with save := some (i.snapshot, w.capture 0 true) }) := by
  let _ := dispatch Command.depth
  obtain ⟨w, hrestore, -, hsettled, hroster⟩ := restore_run c h
  obtain ⟨r, w', htoggle, hsettled', t, rfl, htoggles⟩ := hsettled.ends_toggleNow deep_depth l
  obtain ⟨uri, hreport⟩ := toggleBreakpoint_run (i.toggling l) htoggle htoggles.ne_rejected
  refine ⟨t, uri, w', hsettled', hroster ▸ htoggles, ?_⟩
  have hrestore' : @Snapshot.restore (dispatch Command.depth) s (World.empty.addState c.schema).1 true
      (World.empty.addState c.schema).2 = .ok (.ok ()) w := hrestore
  have hrun : Command.run (i.toggling l) c (World.empty.addState c.schema).1 w = .ok (.ok
      { Command.showToggled i l t.action (some uri) with save := some (i.snapshot, w'.capture 0 true) }) w' := hreport
  simp only [Invocation.perform, bind_run, hrestore', hrun]

/-- Another file that is written leaves the configuration. -/
theorem loadConfig_congr {files' : Files} (i : Invocation) (usual : Option String)
    (h : ∀ path ∈ i.config.or usual, files'.find path = files.find path) :
    i.loadConfig usual files' = i.loadConfig usual files := by
  unfold loadConfig
  cases hpath : i.config.or usual with
  | none => rfl
  | some path => simp only [h path hpath]

/-- A process that toggles a location of a file that can be opened: what it reports, and the file after it. -/
theorem execute_toggling (hconfig : i.loadConfig usual files = .ok c) (hload : Snapshot.load files i.snapshot = .ok s)
    (h : (s.entities.map (·.uri)).Nodup) (l : Location) :
    ∃ t uri w files', Settled w ∧ (rosterOf s.normal).Toggles l t (roster w) ∧
      (i.toggling l).execute usual files = some (.ok ((Command.showToggled i l t.action (some uri)).text, files')) ∧
      files'.find i.snapshot = .ok (.file ((Encoding.ofPath i.snapshot).write (w.capture 0 true))) ∧
      ∀ path, Files.nameOf path ≠ Files.nameOf i.snapshot → files'.find path = files.find path := by
  obtain ⟨t, uri, w, hsettled, htoggles, hperform⟩ := perform_toggling i c h l
  obtain ⟨files', hsave, hfind, hothers⟩ := Snapshot.save_of_load hload (w.capture 0 true)
  refine ⟨t, uri, w, files', hsettled, htoggles, ?_, hfind, hothers⟩
  have hloaded : (i.toggling l).loadSnapshot files = .ok (some s) := by
    obtain ⟨content, hcontent⟩ := Snapshot.find_of_load hload
    have hexists : files.existsAt i.snapshot = true := by
      rw [Files.existsAt, hcontent]
      rfl
    change (if files.existsAt i.snapshot = true then _ else _) = _
    rw [if_pos hexists]
    exact congrArg (Except.map some) hload
  have hconfig' : (i.toggling l).loadConfig usual files = .ok c := hconfig
  have hsaved : saveReport files { Command.showToggled i l t.action (some uri) with
      save := some (i.snapshot, w.capture 0 true) } = .ok ((Command.showToggled i l t.action (some uri)).text, files') := by
    change ((w.capture 0 true).save files i.snapshot).map _ = _
    rw [hsave]
    rfl
  simp only [execute, hconfig', hloaded, hperform, Option.map_some]
  exact congrArg some hsaved

/-- What was captured of a debug state by itself repeats no URI, and is of the same roster. -/
theorem capture_settled (h : Settled w) : ((w.capture 0 true).entities.map (·.uri)).Nodup ∧
    rosterOf (w.capture 0 true).normal = roster w := by
  have hcoherent := h.ground.coherent
  have hcapture : w.capture 0 true = { w.contents 0 with focus := w.focused 0 } := by
    rw [World.capture, h.store_eq]
    rfl
  have hnormal : (w.capture 0 true).normal = (w.contents 0).normal := by
    rw [hcapture]
    rfl
  refine ⟨?_, ?_⟩
  · rw [hcapture]
    change ((w.contents 0).entities.map (·.uri)).Nodup
    rw [World.uris_contents]
    exact nodup_uris hcoherent
  · rw [hnormal, World.normal_contents hcoherent, rosterOf_contents]

/-- The debug state of a process that goes on, and files with which one process after the other goes on: the rosters
differ in the URIs of breakpoints only. -/
structure Abreast (i : Invocation) (w : World) (files : Files) : Prop where
  settled : Settled w
  exists_loaded : ∃ s ρ, Snapshot.load files i.snapshot = .ok s ∧ (s.entities.map (·.uri)).Nodup ∧
    Renamed ρ (roster w) (rosterOf s.normal)

namespace Abreast

/-- They are at first. -/
theorem of_opened (hload : Snapshot.load files i.snapshot = .ok s) (hopened : opened c s = some w) :
    Abreast i w files := by
  have hnodup := nodup_of_opened hopened
  obtain ⟨w', -, hopened', hsettled, hroster⟩ := restore_run c hnodup
  obtain rfl : w' = w := Option.some.inj (hopened'.symm.trans hopened)
  exact ⟨hsettled, s, id, hload, hnodup, hroster ▸ .refl _⟩

variable (h : Abreast i w files)
include h

/-- Then the file can be opened, and there are the same breakpoints on every path. -/
theorem exists_opened (c : Config) : ∃ s w', Snapshot.load files i.snapshot = .ok s ∧ opened c s = some w' ∧
    ∀ path, linesOn w' path = linesOn w path := by
  obtain ⟨s, ρ, hload, hnodup, hrenamed⟩ := h.exists_loaded
  obtain ⟨w', -, hopened, hsettled, hroster⟩ := restore_run c hnodup
  refine ⟨s, w', hload, hopened, fun path ↦ ?_⟩
  rw [hsettled.linesOn_eq, hroster, h.settled.linesOn_eq]
  exact hrenamed.marks_eq (closed_roster h.settled.ground.coherent) path

/-- A toggle here and a toggle there do the same, and unless the file is too large then, they still are. -/
theorem toggle (hconfig : i.loadConfig usual files = .ok c) (l : Location) : ∃ t uri w' files' content,
    @Task.toggleNow (dispatch Command.depth) 0 0 l w = .ok (some (.ok t)) w' ∧ t ≠ .rejected ∧
      (i.toggling l).execute usual files = some (.ok ((Command.showToggled i l t.action (some uri)).text, files')) ∧
      (∀ path, Files.nameOf path ≠ Files.nameOf i.snapshot → files'.find path = files.find path) ∧
      files'.find i.snapshot = .ok (.file content) ∧ (content.size ≤ maxSnapshotSize → Abreast i w' files') := by
  let _ := dispatch Command.depth
  obtain ⟨s, ρ, hload, hnodup, hrenamed⟩ := h.exists_loaded
  obtain ⟨r, w', htoggle, hsettled, t, rfl, htoggles⟩ := h.settled.ends_toggleNow deep_depth l
  obtain ⟨u, uri, v, files', hsettled', htoggles', hexecute, hfind, hothers⟩ := execute_toggling hconfig hload hnodup l
  have hclosed : (rosterOf s.normal).Closed := by
    obtain ⟨w₀, -, -, hsettled₀, hroster₀⟩ := restore_run c hnodup
    exact hroster₀ ▸ closed_roster hsettled₀.ground.coherent
  obtain ⟨haction, ρ', hrenamed'⟩ := hrenamed.toggles (closed_roster h.settled.ground.coherent) hclosed htoggles htoggles'
  obtain ⟨hnodup', hroster'⟩ := capture_settled hsettled'
  refine ⟨t, uri, w', files', _, htoggle, htoggles.ne_rejected, haction ▸ hexecute, hothers, hfind, fun hle ↦ ?_⟩
  exact ⟨hsettled, _, ρ', Snapshot.load_of_find hfind hle, hnodup', hroster'.symm ▸ hrenamed'⟩

end Abreast

/-- Toggling by one command after the other does the same, each time, as toggling in one process that has loaded the
file once, and in the end the file has the same breakpoints on every path, as long as no file is too large. -/
theorem toggleThrough_eq_toggleAll (i : Invocation) (usual : Option String) (ls : List Location)
    (hconfig : i.loadConfig usual files = .ok c)
    (hapart : ∀ path ∈ i.config.or usual, Files.nameOf path ≠ Files.nameOf i.snapshot)
    (hload : Snapshot.load files i.snapshot = .ok s) (hopened : opened c s = some w)
    (hsize : ∀ n texts files' content, i.toggleThrough usual (ls.take n) files = some (.ok (texts, files')) →
      files'.find i.snapshot = .ok (.file content) → content.size ≤ maxSnapshotSize) :
    ∃ ts w' texts files',
      @Task.toggleAll (dispatch Command.depth) 0 ls w = .ok (ts.map fun t ↦ some (.ok t)) w' ∧
      i.toggleThrough usual ls files = some (.ok (texts, files')) ∧
      ts.length = ls.length ∧ Toggled.rejected ∉ ts ∧
      List.Forall₂ (fun (l, t) text ↦ ∃ uri, text = (Command.showToggled i l t.action (some uri)).text)
        (ls.zip ts) texts ∧
      ∃ s' w'', Snapshot.load files' i.snapshot = .ok s' ∧ opened c s' = some w'' ∧
        ∀ path, linesOn w'' path = linesOn w' path := by
  have habreast : Abreast i w files := .of_opened hload hopened
  clear hload hopened
  induction ls generalizing files w with
  | nil => exact ⟨[], w, [], files, rfl, rfl, rfl, List.not_mem_nil, .nil, habreast.exists_opened c⟩
  | cons l rest ih =>
    obtain ⟨t, uri, w₁, files₁, content, htoggle, ht, hexecute, hothers, hfind, hnext⟩ := habreast.toggle hconfig l
    have hthrough : ∀ ls, i.toggleThrough usual (l :: ls) files = (i.toggleThrough usual ls files₁).map
        (·.map fun (texts, files) ↦ ((Command.showToggled i l t.action (some uri)).text :: texts, files)) := fun ls ↦ by
      rw [toggleThrough, hexecute]
    have hfirst : content.size ≤ maxSnapshotSize := hsize 1 _ files₁ content (hthrough []) hfind
    have hconfig₁ : i.loadConfig usual files₁ = .ok c :=
      (loadConfig_congr i usual fun path hpath ↦ hothers path (hapart path hpath)).trans hconfig
    obtain ⟨ts, w', texts, files', hall, hrest, hlength, hnone, htexts, hdone⟩ := ih hconfig₁
      (fun n texts files' content hrun hcontent ↦ hsize (n + 1) _ files' content (by
        rw [List.take_succ_cons, hthrough, hrun]
        rfl) hcontent) (hnext hfirst)
    refine ⟨t :: ts, w', _, files', ?_, by rw [hthrough, hrest]; rfl, congrArg Nat.succ hlength, ?_,
      .cons ⟨uri, rfl⟩ htexts, hdone⟩
    · simp only [Task.toggleAll, bind_run, htoggle, hall, pure_run, List.map_cons]
    · exact List.not_mem_cons_of_ne_of_not_mem ht.symm hnone

/-- A source with one breakpoint. -/
def marked : Snapshot where
  entities := [⟨"s", sourceKind, [("path", .str "a.rs")]⟩,
    ⟨"b", Breakpoint.kind, [("path", .str "a.rs"), ("line", .int 3)]⟩]
  edges := [⟨Schema.sourceKind, "b", "s"⟩]
  focus := []

/-- Whether a file is within the limit once toggles went through it. -/
def withinLimit (path : String) : Option (Except Fault (List String × Files)) → Bool
  | some (.ok (_, files)) => match files.find path with
    | .ok (.file content) => content.size ≤ maxSnapshotSize
    | _ => true
  | _ => true

/-- It is kept packed, the one breakpoint is toggled, and then the next line. -/
theorem toggleThrough_eq_toggleAll_marked :
    let i : Invocation := ⟨"s.bin", none, none, false, .stats⟩
    let ls : List Location := [⟨"a.rs", 3, none⟩, ⟨"a.rs", 4, some 1⟩]
    let files : Files := [("s.bin", Encoding.packed.write marked)]
    Snapshot.load files i.snapshot = .ok marked ∧ ∃ w ts w' texts files',
      opened .empty marked = some w ∧
      @Task.toggleAll (dispatch Command.depth) 0 ls w = .ok (ts.map fun t ↦ some (.ok t)) w' ∧
      i.toggleThrough none ls files = some (.ok (texts, files')) ∧
      List.Forall₂ (fun (l, t) text ↦ ∃ uri, text = (Command.showToggled i l t.action (some uri)).text)
        (ls.zip ts) texts ∧
      ∃ s' w'', Snapshot.load files' i.snapshot = .ok s' ∧ opened .empty s' = some w'' ∧
        ∀ path, linesOn w'' path = linesOn w' path := by
  intro i ls files
  have hload : Snapshot.load files i.snapshot = .ok marked := by decide +kernel
  obtain ⟨w, -, hopened, -⟩ := restore_run .empty (s := marked) (by decide)
  have hsize : ∀ n texts files' content, i.toggleThrough none (ls.take n) files = some (.ok (texts, files')) →
      files'.find i.snapshot = .ok (.file content) → content.size ≤ maxSnapshotSize := by
    intro n texts files' content hrun hfind
    have hall : ∀ n < 3, withinLimit i.snapshot (i.toggleThrough none (ls.take n) files) = true := by decide +kernel
    have hn : ls.take n = ls.take (min n 2) := by
      rcases Nat.le_total n 2 with hle | hle
      · rw [Nat.min_eq_left hle]
      · rw [Nat.min_eq_right hle, List.take_of_length_le hle, List.take_of_length_le (Nat.le_refl 2)]
    have hwithin := hall (min n 2) (Nat.lt_succ_of_le (Nat.min_le_right n 2))
    rw [← hn, hrun, withinLimit, hfind] at hwithin
    exact of_decide_eq_true hwithin
  obtain ⟨ts, w', texts, files', hall, hthrough, -, -, htexts, hdone⟩ :=
    toggleThrough_eq_toggleAll i none ls rfl (fun _ hpath ↦ absurd hpath (by simp)) hload hopened hsize
  exact ⟨hload, w, ts, w', texts, files', hopened, hall, hthrough, htexts, hdone⟩

end Invocation

end LiveGraph
