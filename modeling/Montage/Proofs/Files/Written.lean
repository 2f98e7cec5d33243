import Montage.Files.Disk

/-!
Contract: a written file is read back under the path it was written to.

A path only passes through directories, and a file is never written where a
directory stands, so a path that led to the file before leads to it afterwards.

Owns: what stands where after something has been placed, and reading what was
written.
Does not own: what other paths lead to afterwards.
-/

namespace Montage.Files.Disk

variable {disk kept : Disk} {target here location : Location} {entry : Entry} {path : String}

theorem entryAt?_place_self (inside : target ≠ []) :
    (disk.place target entry).entryAt? target = some entry := by
  simp [entryAt?, place, inside]

theorem entryAt?_place_of_ne (apart : location ≠ target) :
    (disk.place target entry).entryAt? location = disk.entryAt? location := by
  have sameEntry : (fun stored : Location × Entry =>
      decide ((stored.1 != target) = true ∧ (stored.1 == location) = true)) =
        fun stored => stored.1 == location := by
    funext stored
    by_cases found : stored.1 = location
    · simp [found, apart]
    · simp [found]
  unfold entryAt? place
  rw [List.find?_cons, beq_false_of_ne apart.symm, List.find?_filter, sameEntry]

/-- A path goes through directories only, so not through what is placed where none stands. -/
theorem walk_place (noDirectory : disk.entryAt? target ≠ some .directory) {pieces : List String}
    (leads : disk.walk here pieces = .ok location) :
    (disk.place target entry).walk here pieces = .ok location := by
  induction pieces generalizing here with
  | nil => exact leads
  | cons piece rest inductionHypothesis =>
      rw [walk] at leads ⊢
      cases entered : disk.enter here piece with
      | error cause =>
          rw [entered] at leads
          cases leads
      | ok next =>
          rw [entered] at leads
          have isDirectory : disk.entryAt? here = some .directory := by
            unfold enter at entered
            split at entered
            · cases entered
            · cases entered
            · next stands => exact stands
          have apart : here ≠ target := by
            rintro rfl
            exact noDirectory isDirectory
          have sameStep : (disk.place target entry).enter here piece = .ok next := by
            rw [← entered, enter, enter, entryAt?_place_of_ne apart]
          rw [sameStep]
          exact inductionHypothesis leads

theorem locate_place (noDirectory : disk.entryAt? target ≠ some .directory)
    (leads : disk.locate path = .ok location) :
    (disk.place target entry).locate path = .ok location := by
  unfold locate at leads ⊢
  split at leads
  · cases leads
  split at leads
  · cases leads
  split at leads
  · cases leads
  next nonempty valid short =>
    rw [if_neg nonempty, if_neg valid, if_neg short]
    exact walk_place noDirectory leads

/-- Writing places a file where the path leads, and no directory stands there. -/
theorem writeBytes_eq_ok {content : ByteArray} {executable : Bool}
    (writes : disk.writeBytes path content executable = .ok kept) :
    ∃ target flag, disk.locate path = .ok target ∧ namesDirectory path = false ∧
      disk.entryAt? target ≠ some .directory ∧ kept = disk.place target (.file content flag) := by
  unfold writeBytes at writes
  split at writes
  · cases writes
  · next target leads =>
      split at writes
      · cases writes
      · next noSlash =>
          have isFile := (Bool.not_eq_true _).mp noSlash
          split at writes
          · cases writes
          · next stands =>
              refine ⟨target, _, leads, isFile, ?_, (Except.ok.inj writes).symm⟩
              rw [stands]
              rintro ⟨⟩
          · next nothing =>
              refine ⟨target, _, leads, isFile, ?_, (Except.ok.inj writes).symm⟩
              rw [nothing]
              rintro ⟨⟩

theorem ne_nil_of_no_directory (noDirectory : disk.entryAt? target ≠ some .directory) :
    target ≠ [] := by
  rintro rfl
  exact noDirectory rfl

theorem fromUTF8?_toUTF8 (text : String) : String.fromUTF8? text.toUTF8 = some text := by
  unfold String.fromUTF8?
  split
  · rfl
  · next invalid => exact absurd text.isValidUTF8 invalid

/-- Text that has been written is read back. -/
theorem readText_of_writeBytes {text : String} {executable : Bool}
    (writes : disk.writeBytes path text.toUTF8 executable = .ok kept) :
    kept.readText path = .ok text := by
  obtain ⟨target, flag, leads, isFile, noDirectory, rfl⟩ := writeBytes_eq_ok writes
  have stands : (disk.place target (.file text.toUTF8 flag)).entryAt? target =
      some (.file text.toUTF8 flag) :=
    entryAt?_place_self (ne_nil_of_no_directory noDirectory)
  have found : (disk.place target (.file text.toUTF8 flag)).find path =
      .ok (target, .file text.toUTF8 flag) := by
    unfold find
    rw [locate_place noDirectory leads]
    simp only [stands, isFile, Bool.false_eq_true, ↓reduceIte]
  unfold readText
  rw [found]
  simp only [fromUTF8?_toUTF8]

end Montage.Files.Disk
