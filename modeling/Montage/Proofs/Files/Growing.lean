import Mathlib.Data.List.Induction
import Montage.Proofs.Files.Tree

/-!
Contract: what making directories changes about reading a file.

Nothing that stands anywhere is lost when a disk grows, so a text that can be
read stays. A path that led nowhere may come to lead somewhere, and it leads to
a file that was there before only if it went up through a directory that was
not. Paths of which this is certain are settled.

Owns: reading on a grown disk, texts that appear, and settled paths.
Does not own: which disks an operation leaves, in `Proofs.Files.Tree`.
-/

namespace Montage.Files.Disk

variable {disk later : Disk} {here location : Location} {steps : List String}
  {path text : String}

/-! ## What stays -/

theorem enter_of_directory (isDirectory : disk.entryAt? here = some .directory)
    (alsoDirectory : later.entryAt? here = some .directory) (piece : String) :
    later.enter here piece = disk.enter here piece := by
  rw [enter, enter, isDirectory, alsoDirectory]

theorem walk_cons_eq_ok {piece : String} (leads : disk.walk here (piece :: steps) = .ok location) :
    ∃ next, disk.enter here piece = .ok next ∧ disk.walk next steps = .ok location := by
  rw [walk] at leads
  split at leads
  · next next entered => exact ⟨next, entered, leads⟩
  · cases leads

theorem Grows.walk (grown : disk.Grows later) (leads : disk.walk here steps = .ok location) :
    later.walk here steps = .ok location := by
  induction steps generalizing here with
  | nil => exact leads
  | cons piece rest inductionHypothesis =>
      obtain ⟨next, entered, onward⟩ := walk_cons_eq_ok leads
      have isDirectory := (enter_eq_ok entered).1
      have sameStep := enter_of_directory isDirectory (grown.kept here _ isDirectory) piece
      rw [Disk.walk, sameStep, entered]
      exact inductionHypothesis onward

theorem Grows.locate (grown : disk.Grows later) (leads : disk.locate path = .ok location) :
    later.locate path = .ok location := by
  rw [locate_eq_ok_iff] at leads ⊢
  obtain ⟨named, valid, short, walks⟩ := leads
  rw [grown.home]
  exact ⟨named, valid, short, grown.walk walks⟩

/-- A text that can be read stays. -/
theorem Grows.readText (grown : disk.Grows later) (reads : disk.readText path = .ok text) :
    later.readText path = .ok text := by
  rw [readText_eq_ok_iff] at reads ⊢
  obtain ⟨location, content, executable, leads, stands, rest⟩ := reads
  exact ⟨location, content, executable, grown.locate leads, grown.kept _ _ stands, rest⟩

/-- A file of a grown disk was there before. -/
theorem Grows.file_eq (grown : disk.Grows later) {content : ByteArray} {executable : Bool}
    (stands : later.entryAt? location = some (.file content executable)) :
    disk.entryAt? location = some (.file content executable) := by
  cases before : disk.entryAt? location with
  | none => cases grown.fresh location _ before stands
  | some entry =>
      rw [← stands]
      exact (grown.kept location entry before).symm

/-! ## Settled paths -/

/-- All that can be read under a path on a later disk could be read there before. -/
def NothingAppears (disk later : Disk) (path : String) : Prop :=
  ∀ text, later.readText path = .ok text → disk.readText path = .ok text

theorem NothingAppears.readText_iff (nothing : disk.NothingAppears later path)
    (grown : disk.Grows later) : later.readText path = .ok text ↔ disk.readText path = .ok text :=
  ⟨nothing text, grown.readText⟩

/-- Making directories brings no text under a path that is not there already. -/
def Settled (disk : Disk) (path : String) : Prop :=
  ∀ later, disk.Grows later → disk.NothingAppears later path

namespace Settled

theorem grows (settled : disk.Settled path) (grown : disk.Grows later) : later.Settled path :=
  fun evenLater more text reads =>
    grown.readText (settled evenLater (grown.trans more) text reads)

theorem of_readText (reads : disk.readText path = .ok text) : disk.Settled path := by
  intro later grown other alsoReads
  rw [grown.readText reads] at alsoReads
  cases alsoReads
  exact reads

/-- A path that leads somewhere leads there for good. -/
theorem of_locate (leads : disk.locate path = .ok location) : disk.Settled path := by
  intro later grown text reads
  obtain ⟨there, content, executable, leadsThere, stands, rest⟩ := readText_eq_ok_iff.mp reads
  cases (grown.locate leads).symm.trans leadsThere
  exact readText_eq_ok_iff.mpr ⟨_, content, executable, leads, grown.file_eq stands, rest⟩

end Settled

/-! ## Paths that do not go up -/

theorem walk_append (noUp : ".." ∉ steps) (leads : disk.walk here steps = .ok location) :
    ∃ more, location = here ++ more := by
  induction steps generalizing here with
  | nil =>
      cases leads
      exact ⟨[], (List.append_nil _).symm⟩
  | cons piece rest inductionHypothesis =>
      rw [List.mem_cons, not_or] at noUp
      obtain ⟨next, entered, onward⟩ := walk_cons_eq_ok leads
      obtain ⟨more, rfl⟩ := inductionHypothesis noUp.2 onward
      obtain ⟨-, ⟨-, rfl⟩ | ⟨isUp, -⟩ | ⟨-, -, rfl⟩⟩ := enter_eq_ok entered
      · exact ⟨more, rfl⟩
      · exact absurd isUp.symm noUp.1
      · exact ⟨piece :: more, by simp⟩

/-- All that is above something in a tree are directories. -/
theorem IsTree.directory_above (tree : disk.IsTree) {more : Location} (below : more ≠ [])
    (stands : disk.entryAt? (here ++ more) ≠ none) : disk.entryAt? here = some .directory := by
  induction more using List.reverseRecOn with
  | nil => exact absurd rfl below
  | append_singleton front name inductionHypothesis =>
      rw [← List.append_assoc] at stands
      have isDirectory := (tree.of_entryAt? stands).1
      cases front with
      | nil => simpa using isDirectory
      | cons first rest =>
          apply inductionHypothesis (List.cons_ne_nil first rest)
          rw [isDirectory]
          exact Option.some_ne_none _

/-- What leads to a file that was there before led to it before. -/
theorem IsTree.walk_of_grows (tree : disk.IsTree) (grown : disk.Grows later)
    {content : ByteArray} {executable : Bool} (noUp : ".." ∉ steps)
    (leads : later.walk here steps = .ok location)
    (stands : disk.entryAt? location = some (.file content executable)) :
    disk.walk here steps = .ok location := by
  induction steps generalizing here with
  | nil => exact leads
  | cons piece rest inductionHypothesis =>
      obtain ⟨more, rfl⟩ := walk_append noUp leads
      obtain ⟨next, entered, onward⟩ := walk_cons_eq_ok leads
      have passes := (enter_eq_ok entered).1
      have below : more ≠ [] := by
        rintro rfl
        rw [List.append_nil] at stands
        rw [grown.kept _ _ stands] at passes
        cases passes
      have isDirectory := tree.directory_above below (by
        rw [stands]
        exact Option.some_ne_none _)
      rw [walk, ← enter_of_directory isDirectory passes piece, entered]
      exact inductionHypothesis (fun up => noUp (List.mem_cons_of_mem piece up)) onward

/-- In a tree every path that does not go up is settled. -/
theorem IsTree.settled (tree : disk.IsTree) (noUp : ".." ∉ pieces path) : disk.Settled path := by
  intro later grown text reads
  obtain ⟨location, content, executable, leads, stands, rest⟩ := readText_eq_ok_iff.mp reads
  have before := grown.file_eq stands
  refine readText_eq_ok_iff.mpr ⟨location, content, executable, ?_, before, rest⟩
  obtain ⟨named, valid, short, walks⟩ := locate_eq_ok_iff.mp leads
  rw [grown.home] at walks
  exact locate_eq_ok_iff.mpr ⟨named, valid, short, tree.walk_of_grows grown noUp walks before⟩

/-- A path that leads somewhere already, or that does not go up in a tree. -/
inductive IsCertain (disk : Disk) (path : String) : Prop where
  | leads {location : Location} (leads : disk.locate path = .ok location)
  | down (tree : disk.IsTree) (noUp : ".." ∉ pieces path)

theorem IsCertain.settled (certain : disk.IsCertain path) : disk.Settled path := by
  cases certain with
  | leads leads => exact .of_locate leads
  | down tree noUp => exact tree.settled noUp

end Montage.Files.Disk
