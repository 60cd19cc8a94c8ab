import LiveGraph.Files
import Mathlib.Data.List.Infix

/-!
# Writing files

A path can be written to where the directory it stands in is there, and it is none itself. What is written is then
found at its path. A file that can be read can be written to, and at all paths of other files is found what was
found before.
-/

namespace LiveGraph

namespace Path

/-- No step has a slash in it. -/
theorem not_mem_of_mem_splitOn {c : Char} {l part : List Char} (h : part ∈ l.splitOn c) : c ∉ part := by
  induction l generalizing part with
  | nil =>
    obtain rfl := List.mem_singleton.mp h
    exact List.not_mem_nil
  | cons a rest ih =>
    rw [List.splitOn_cons_eq_if_modifyHead] at h
    split at h
    · obtain rfl | h := List.mem_cons.mp h
      · exact List.not_mem_nil
      · exact ih h
    · rename_i hne
      cases hparts : rest.splitOn c with
      | nil => exact absurd hparts (List.splitOn_ne_nil c rest)
      | cons first others =>
        rw [hparts] at h ih
        obtain rfl | h := List.mem_cons.mp h
        · intro hmem
          obtain rfl | hmem := List.mem_cons.mp hmem
          · exact hne (beq_self_eq_true c)
          · exact ih List.mem_cons_self hmem
        · exact ih (List.mem_cons_of_mem first h)

theorem not_mem_of_mem_steps {path step : String} (h : step ∈ steps path) :
    '/' ∉ step.toList ∧ (step ≠ "" ∧ step ≠ ".") := by
  obtain ⟨hmem, hstep⟩ := List.mem_filter.mp h
  obtain ⟨part, hpart, rfl⟩ := List.mem_map.mp hmem
  refine ⟨?_, of_decide_eq_true hstep⟩
  rw [String.toList_ofList]
  exact not_mem_of_mem_splitOn hpart

end Path

namespace Files

variable {files : Files} {path path' name name' : String} {content content' : Bytes}

/-- The name of a file leads where its path leads. -/
theorem steps_nameOf (path : String) : Path.steps (nameOf path) = Path.steps path := by
  by_cases hnone : Path.steps path = []
  · have hempty : nameOf path = "" := by
      rw [nameOf, hnone]
      rfl
    rw [hempty, hnone]
    decide
  · have hparts : (nameOf path).toList.splitOn '/' = (Path.steps path).map String.toList := by
      rw [nameOf, String.toList_intercalate]
      refine List.splitOn_intercalate '/' (fun part hpart ↦ ?_) fun hnil ↦ hnone (List.map_eq_nil_iff.mp hnil)
      obtain ⟨step, hstep, rfl⟩ := List.mem_map.mp hpart
      exact (Path.not_mem_of_mem_steps hstep).1
    have hback : ((Path.steps path).map String.toList).map String.ofList = Path.steps path := by
      rw [List.map_map]
      exact (List.map_congr_left fun step _ ↦ String.ofList_toList).trans (List.map_id _)
    rw [Path.steps, hparts, hback]
    exact List.filter_eq_self.mpr fun step hstep ↦ decide_eq_true (Path.not_mem_of_mem_steps hstep).2

/-! ## What depends on names alone -/

theorem isBlocked_congr {files' : Files} (h : files'.map (·.1) = files.map (·.1)) (steps : List String) :
    files'.isBlocked steps = files.isBlocked steps := by
  have hnames : ∀ files : Files, files.isBlocked steps = (files.map (·.1)).any fun name ↦
      (Path.steps name).isPrefixOf steps && steps != Path.steps name := fun files ↦ by
    rw [List.any_map]
    rfl
  rw [hnames, h, hnames]

theorem isDirectory_congr {files' : Files} (h : files'.map (·.1) = files.map (·.1)) (steps : List String) :
    files'.isDirectory steps = files.isDirectory steps := by
  have hnames : ∀ files : Files, files.isDirectory steps = (steps.isEmpty || (files.map (·.1)).any fun name ↦
      steps.isPrefixOf (Path.steps name) && steps != Path.steps name) := fun files ↦ by
    rw [List.any_map]
    rfl
  rw [hnames, h, hnames]

/-! ## Overwriting -/

theorem any_of_get? (h : files.get? name = some content) : files.any (·.1 = name) = true := by
  obtain ⟨f, hfind, -⟩ := Option.map_eq_some_iff.mp h
  exact List.any_eq_true.mpr ⟨f, List.mem_of_find?_eq_some hfind, by simpa using List.find?_some hfind⟩

variable (h : files.any (·.1 = name) = true)
include h

/-- A file that is overwritten keeps its name, and no other has that name. -/
theorem map_put (content : Bytes) : (files.put name content).map (·.1) = files.map (·.1) := by
  rw [put, if_pos h, List.map_map]
  refine List.map_congr_left fun f _ ↦ ?_
  rw [Function.comp_apply]
  split
  · rename_i heq
    exact heq.symm
  · rfl

theorem get?_put_self (content : Bytes) : (files.put name content).get? name = some content := by
  obtain ⟨f, hf, hname⟩ := List.any_eq_true.mp h
  rw [put, if_pos h, get?, List.find?_map]
  have hcond : ((fun f : String × Bytes ↦ decide (f.1 = name)) ∘ fun f ↦ if f.1 = name then (name, content) else f) =
      fun f ↦ decide (f.1 = name) := by
    funext f
    rw [Function.comp_apply]
    split <;> simp_all
  rw [hcond]
  cases hfind : files.find? fun f ↦ decide (f.1 = name) with
  | none => exact absurd hname (List.find?_eq_none.mp hfind f hf)
  | some g =>
    have hg : g.1 = name := by simpa using List.find?_some hfind
    rw [Option.map_some, Option.map_some, if_pos hg]

theorem get?_put_of_ne (hne : name' ≠ name) (content : Bytes) :
    (files.put name content).get? name' = files.get? name' := by
  rw [put, if_pos h, get?, List.find?_map, get?]
  have hcond : ((fun f : String × Bytes ↦ decide (f.1 = name')) ∘ fun f ↦ if f.1 = name then (name, content) else f) =
      fun f ↦ decide (f.1 = name') := by
    funext f
    rw [Function.comp_apply]
    split
    · rename_i heq
      simp [heq]
    · rfl
  rw [hcond, Option.map_map]
  cases hfind : files.find? fun f ↦ decide (f.1 = name') with
  | none => rfl
  | some g =>
    have hg : g.1 = name' := by simpa using List.find?_some hfind
    rw [Option.map_some, Option.map_some, Function.comp_apply, if_neg fun heq ↦ hne (hg.symm.trans heq)]

end Files

namespace Files

variable {files : Files} {path path' : String} {content content' : Bytes}

/-- What is found as a file is its content. -/
theorem find_file (h : files.find path = .ok (.file content)) : path ≠ "" ∧
    files.isBlocked (Path.steps path) = false ∧ files.isDirectory (Path.steps path) = false ∧
    files.get? (nameOf path) = some content ∧ Path.isClosed path = false := by
  simp only [find] at h
  split at h
  · exact absurd h (by simp)
  · rename_i hpath
    split at h
    · exact absurd h (by simp)
    · rename_i hblocked
      split at h
      · exact absurd h (by simp)
      · rename_i hdirectory
        split at h
        · rename_i found hfound
          split at h
          · exact absurd h (by simp)
          · rename_i hclosed
            obtain rfl := Entry.file.inj (Except.ok.inj h)
            exact ⟨hpath, Bool.not_eq_true _ ▸ hblocked, Bool.not_eq_true _ ▸ hdirectory, hfound,
              Bool.not_eq_true _ ▸ hclosed⟩
        · exact absurd h (by simp)

/-- A file stands in a directory. -/
theorem isDirectory_dropLast (h : files.find path = .ok (.file content)) :
    files.isDirectory (Path.steps path).dropLast = true := by
  obtain ⟨-, -, hdirectory, hget, -⟩ := find_file h
  have hsteps : Path.steps path ≠ [] := fun hnil ↦ by
    rw [hnil] at hdirectory
    exact Bool.noConfusion hdirectory
  obtain ⟨f, hfind, -⟩ := Option.map_eq_some_iff.mp hget
  have hname : f.1 = nameOf path := by simpa using List.find?_some hfind
  have hshorter : (Path.steps path).dropLast ≠ Path.steps path := fun heq ↦ by
    have hlength := congrArg List.length heq
    rw [List.length_dropLast] at hlength
    have hpos := List.length_pos_iff.mpr hsteps
    omega
  rw [isDirectory, Bool.or_eq_true]
  refine .inr (List.any_eq_true.mpr ⟨f, List.mem_of_find?_eq_some hfind, ?_⟩)
  rw [hname, steps_nameOf, Bool.and_eq_true]
  exact ⟨List.isPrefixOf_iff_prefix.mpr (List.dropLast_prefix _), bne_iff_ne.mpr hshorter⟩

/-- A path to write to: no file stands on the way, it is no directory, and it stands in one. -/
structure Writable (files : Files) (path : String) : Prop where
  named : path ≠ ""
  unblocked : files.isBlocked (Path.steps path) = false
  undirected : files.isDirectory (Path.steps path) = false
  standing : files.isDirectory (Path.steps path).dropLast = true
  unclosed : Path.isClosed path = false

theorem Writable.write_eq (h : files.Writable path) (content : Bytes) :
    files.write path content = .ok (files.put (nameOf path) content) := by
  simp only [write, h.named, h.unblocked, h.undirected, h.standing, h.unclosed, if_false, Bool.false_eq_true,
    Bool.not_true]

/-- A file that is put where none was stands after all others. -/
theorem put_of_not_any (h : ¬files.any (·.1 = name) = true) (content : Bytes) :
    files.put name content = files ++ [(name, content)] :=
  if_neg h

theorem get?_append_self (h : ¬files.any (·.1 = name) = true) (content : Bytes) :
    Files.get? (files ++ [(name, content)]) name = some content := by
  have hnone : files.find? (·.1 = name) = none := List.find?_eq_none.mpr fun f hf hname ↦
    h (List.any_eq_true.mpr ⟨f, hf, hname⟩)
  rw [get?, List.find?_append, hnone, Option.none_or]
  simp

/-- A file neither stands in its own way nor holds itself. -/
theorem isBlocked_put_self (path : String) (content : Bytes) :
    (files.put (nameOf path) content).isBlocked (Path.steps path) = files.isBlocked (Path.steps path) := by
  by_cases hthere : files.any (·.1 = nameOf path) = true
  · exact isBlocked_congr (map_put hthere content) _
  · rw [put_of_not_any hthere, isBlocked, List.any_append, List.any_cons, steps_nameOf, bne_self_eq_false,
      Bool.and_false, List.any_nil, Bool.or_false, Bool.or_false, isBlocked]

theorem isDirectory_put_self (path : String) (content : Bytes) :
    (files.put (nameOf path) content).isDirectory (Path.steps path) = files.isDirectory (Path.steps path) := by
  by_cases hthere : files.any (·.1 = nameOf path) = true
  · exact isDirectory_congr (map_put hthere content) _
  · rw [put_of_not_any hthere, isDirectory, List.any_append, List.any_cons, steps_nameOf, bne_self_eq_false,
      Bool.and_false, List.any_nil, Bool.or_false, Bool.or_false, isDirectory]

/-- What was written is found. -/
theorem Writable.find_put (h : files.Writable path) (content : Bytes) :
    (files.put (nameOf path) content).find path = .ok (.file content) := by
  have hget : (files.put (nameOf path) content).get? (nameOf path) = some content := by
    by_cases hthere : files.any (·.1 = nameOf path) = true
    · exact get?_put_self hthere content
    · rw [put_of_not_any hthere]
      exact get?_append_self hthere content
  simp only [find, h.named, isBlocked_put_self, h.unblocked, isDirectory_put_self, h.undirected, hget, h.unclosed,
    if_false, Bool.false_eq_true]

/-- A file that can be read can be written to. -/
theorem writable_of_find (h : files.find path = .ok (.file content)) : files.Writable path := by
  obtain ⟨hpath, hblocked, hdirectory, -, hclosed⟩ := find_file h
  exact ⟨hpath, hblocked, hdirectory, isDirectory_dropLast h, hclosed⟩

/-- At all paths of other files is found what was found before. -/
theorem find_put_of_ne (h : files.find path = .ok (.file content)) (content' : Bytes)
    (hne : nameOf path' ≠ nameOf path) : (files.put (nameOf path) content').find path' = files.find path' := by
  have hthere := any_of_get? (find_file h).2.2.2.1
  rw [find, isBlocked_congr (map_put hthere content'), isDirectory_congr (map_put hthere content'),
    get?_put_of_ne hthere hne, find]

end Files

end LiveGraph
