import Mathlib.Data.List.Basic
import DocFlow.Proofs.Outcome
import DocFlow.Source.Directory

namespace DocFlow.Directory

variable {d d' : Directory} {place here : List Text} {bytes : Bytes}

theorem lookup_replace (files : List (List Text × Bytes)) (place parts : List Text) (bytes : Bytes) :
    (files.map fun f => if f.1 = place then (place, bytes) else f).lookup parts =
      if parts = place then (files.lookup place).map fun _ => bytes else files.lookup parts := by
  induction files with
  | nil => split <;> rfl
  | cons f files ih =>
    obtain ⟨key, held⟩ := f
    by_cases hkey : key = place
    · subst hkey
      by_cases hparts : parts = key
      · simp [hparts]
      · simp [List.lookup_cons, beq_eq_false_iff_ne.2 hparts, hparts, ih]
    · by_cases hparts : parts = key
      · simp [hparts, hkey]
      · by_cases hplace : parts = place
        · subst hplace
          simp [List.lookup_cons, beq_eq_false_iff_ne.2 hparts, hkey, ih]
        · simp [List.lookup_cons, beq_eq_false_iff_ne.2 hparts, hkey, hplace, ih]

/-- A write changes one file. -/
theorem lookup_put (parts : List Text) :
    (d.put place bytes).files.lookup parts =
      if parts = place then some bytes else d.files.lookup parts := by
  rw [put]
  split
  · next held hheld =>
    rw [lookup_replace, hheld]
    rfl
  · next hnone =>
    rw [List.lookup_append]
    by_cases hparts : parts = place
    · simp [hparts, hnone]
    · simp [List.lookup_cons, beq_eq_false_iff_ne.2 hparts, hparts]

theorem any_put {p : List Text → Bool} (h : d.files.any (p ·.1) = true) :
    (d.put place bytes).files.any (p ·.1) = true := by
  obtain ⟨f, hf, hp⟩ := List.any_eq_true.1 h
  rw [put]
  split
  · refine List.any_eq_true.2 ⟨_, List.mem_map_of_mem hf, ?_⟩
    split
    · next hplace => rwa [← hplace]
    · exact hp
  · exact List.any_eq_true.2 ⟨f, List.mem_append_left _ hf, hp⟩

theorem entry_put_self : (d.put place bytes).entry place = .file bytes := by
  rw [entry, lookup_put, if_pos rfl]

/-- Directories stay what they are. -/
theorem entry_put_directory (hdirectory : d.entry here = .directory) (hne : here ≠ place) :
    (d.put place bytes).entry here = .directory := by
  rw [entry] at hdirectory
  split at hdirectory
  · cases hdirectory
  · next hnone =>
    split at hdirectory
    · next hinside =>
      rw [entry, lookup_put, if_neg hne, hnone]
      exact if_pos (hinside.imp_right any_put)
    · cases hdirectory

/-- The way to a file that is written is the same afterwards. -/
theorem descend_put (hfree : d.entry place ≠ .directory) {parts target : List Text}
    (h : d.descend here parts = .ok target) :
    (d.put place bytes).descend here parts = .ok target := by
  induction parts generalizing here with
  | nil => exact h
  | cons part rest ih =>
    rw [descend] at h
    split at h
    · cases h
    · cases h
    · next hdirectory =>
      have hne : here ≠ place := by
        rintro rfl
        exact hfree hdirectory
      rw [descend, entry_put_directory hdirectory hne]
      dsimp only
      split at h
      · next hup =>
        rw [if_pos hup]
        split at h
        · cases h
        · next htop =>
          rw [if_neg htop]
          exact ih h
      · next hdown =>
        rw [if_neg hdown]
        exact ih h

theorem write_eq_ok {p : Path} (h : d.write p bytes = .ok d') :
    ∃ place, d.locate p = .ok place ∧ d.entry place ≠ .directory ∧ d' = d.put place bytes := by
  obtain ⟨place, hplace, h⟩ := bind_eq_ok.1 h
  refine ⟨place, hplace, ?_⟩
  cases hentry : d.entry place <;> rw [hentry] at h <;> cases h <;> exact ⟨nofun, rfl⟩

/-- What can be written does not depend on the bytes. -/
theorem exists_write {p : Path} (h : d.write p bytes = .ok d') (bytes' : Bytes) :
    ∃ d'', d.write p bytes' = .ok d'' := by
  obtain ⟨place, hplace, hfree, -⟩ := write_eq_ok h
  refine ⟨d.put place bytes', bind_eq_ok.2 ⟨place, hplace, ?_⟩⟩
  cases hentry : d.entry place with
  | file | nothing => rfl
  | directory => exact absurd hentry hfree

/-- What has been written is read. -/
theorem read_of_write {p : Path} (h : d.write p bytes = .ok d') : d'.read p = .ok bytes := by
  obtain ⟨place, hplace, hfree, rfl⟩ := write_eq_ok h
  refine bind_eq_ok.2 ⟨place, ?_, by rw [entry_put_self]⟩
  rw [locate] at hplace ⊢
  split at hplace
  · next hroot =>
    rw [if_pos hroot]
    exact descend_put hfree hplace
  · split at hplace <;> cases hplace

end DocFlow.Directory
