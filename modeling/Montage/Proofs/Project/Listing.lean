import Mathlib.Data.List.Sort
import Mathlib.Data.String.Basic
import Montage.Proofs.Files.Tree
import Montage.Proofs.Project.Opening

/-!
Contract: what a directory lists.

Every name with the right extension is tried on its own, and reading changes
nothing, so the listing is one summary for each document that is read. Names are
apart, which makes the order of file names strict and the listing the same for
every order in which the names are delivered.

Owns: the run of a listing, and what belongs to it.
Does not own: what saving adds to a listing, in `Proofs.Project.Saving`.
-/

namespace Montage.Project

open Montage.Files

/-! ## One file -/

/-- The summary of one file of a directory of a disk, if it is a readable project. -/
def summaryOn? (now : Instant) (disk : Disk) (dir fileName : String) : Option Summary :=
  if Path.extension? fileName = some extension then
    (readOn now disk (Path.join dir fileName)).toOption.map fun project => project.summary fileName
  else none

section Listing

variable {now : Instant} {disk : Disk} {dir fileName : String} {summary : Summary}

theorem summaryOn?_eq_some_iff : summaryOn? now disk dir fileName = some summary ↔
    Path.extension? fileName = some extension ∧
      ∃ project, readOn now disk (Path.join dir fileName) = .ok project ∧
        summary = project.summary fileName := by
  unfold summaryOn?
  by_cases isDocument : Path.extension? fileName = some extension
  · cases readOn now disk (Path.join dir fileName) with
    | ok project => simp [isDocument, Except.toOption, eq_comm]
    | error cause => simp [isDocument, Except.toOption]
  · simp [isDocument]

theorem fileName_of_summaryOn? (found : summaryOn? now disk dir fileName = some summary) :
    summary.fileName = fileName := by
  obtain ⟨-, project, -, rfl⟩ := summaryOn?_eq_some_iff.mp found
  rfl

theorem run_summaryOf? (now : Instant) (disk : Disk) (dir fileName : String) :
    (summaryOf? (m := StateM Disk) now dir fileName).run.run disk =
      (.ok (summaryOn? now disk dir fileName), disk) := by
  unfold summaryOf? summaryOn?
  split
  · rw [ExceptT.run_mk, StateT.run_bind, run_read_eq]
    cases readOn now disk (Path.join dir fileName) <;> rfl
  · rfl

/-! ## The whole directory -/

/-- What stands in a directory, as far as it can be read, in order of the file names. -/
def listed (now : Instant) (disk : Disk) (dir : String) (location : Location) : List Summary :=
  sorted ((disk.namesBelow location).filterMap (summaryOn? now disk dir))

variable {location : Location}

theorem namesIn_eq (leads : disk.locate dir = .ok location)
    (stands : disk.entryAt? location = some .directory) :
    disk.namesIn dir = .ok (disk.namesBelow location) := by
  unfold Disk.namesIn Disk.find
  rw [leads]
  simp only [stands]

theorem run_list (now : Instant) (leads : disk.locate dir = .ok location)
    (stands : disk.entryAt? location = some .directory) :
    (list (m := StateM Disk) now dir).run.run disk = (.ok (listed now disk dir location), disk) := by
  have present : disk.isDirectory dir = true := Disk.isDirectory_iff.mpr ⟨location, leads, stands⟩
  have asked : (liftM (FileSystem.isDirectory dir : StateM Disk Bool) :
      ExceptT Error (StateM Disk) Bool).run.run disk = (.ok true, disk) :=
    congrArg (fun answer => (Except.ok answer, disk)) present
  have named : (FileSystem.namesIn dir : StateM Disk (Except OsError (List String))).run disk =
      (.ok (disk.namesBelow location), disk) :=
    congrArg (·, disk) (namesIn_eq leads stands)
  have found := run_mapM (run_summaryOf? now disk dir) (disk.namesBelow location)
  unfold list
  rw [run_bind asked]
  simp only [↓reduceIte]
  rw [run_bind (run_orFail named), run_bind found, List.filterMap_map]
  rfl

/-- Where there is no directory, nothing is listed. -/
theorem run_list_of_missing (now : Instant) (missing : disk.isDirectory dir = false) :
    (list (m := StateM Disk) now dir).run.run disk = (.ok [], disk) := by
  have asked : (liftM (FileSystem.isDirectory dir : StateM Disk Bool) :
      ExceptT Error (StateM Disk) Bool).run.run disk = (.ok false, disk) :=
    congrArg (fun answer => (Except.ok answer, disk)) missing
  unfold list
  rw [run_bind asked]
  rfl

theorem mem_listed_iff : summary ∈ listed now disk dir location ↔
    ∃ name ∈ disk.namesBelow location, summaryOn? now disk dir name = some summary := by
  rw [listed, sorted, (List.mergeSort_perm _ _).mem_iff, List.mem_filterMap]

theorem listed_ordered (tree : disk.IsTree) (now : Instant) (dir : String) (location : Location) :
    (listed now disk dir location).Pairwise fun a b => a.fileName < b.fileName := by
  have ordered : (listed now disk dir location).Pairwise fun a b => a.fileName ≤ b.fileName := by
    have merged : (listed now disk dir location).Pairwise fun a b =>
        decide (a.fileName ≤ b.fileName) = true := by
      refine List.pairwise_mergeSort (fun a b c first second => ?_) (fun a b => ?_) _
      · simpa using le_trans (of_decide_eq_true first) (of_decide_eq_true second)
      · simpa using le_total a.fileName b.fileName
    exact merged.imp of_decide_eq_true
  -- Different names give summaries of different files.
  have apart : (listed now disk dir location).Pairwise fun a b => a.fileName ≠ b.fileName := by
    have unsorted : ((disk.namesBelow location).filterMap (summaryOn? now disk dir)).Pairwise
        fun a b => a.fileName ≠ b.fileName := by
      rw [List.pairwise_filterMap]
      refine (tree.nodup_namesBelow location).imp fun other a first b second => ?_
      rw [fileName_of_summaryOn? first, fileName_of_summaryOn? second]
      exact other
    exact ((List.mergeSort_perm _ _).pairwise_iff fun other => Ne.symm other).mpr unsorted
  exact (List.pairwise_and_iff.mpr ⟨ordered, apart⟩).imp fun both =>
    lt_of_le_of_ne both.1 both.2

theorem summaryOn?_congr {other : Disk} (alike : disk.Alike other) (now : Instant)
    (dir fileName : String) :
    summaryOn? now other dir fileName = summaryOn? now disk dir fileName := by
  simp only [summaryOn?, readOn, alike.readText]

/-- The listing does not depend on the order in which the names are delivered. -/
theorem listed_of_perm {other : Disk} (tree : disk.IsTree) (home : other.home = disk.home)
    (delivered : other.entries.Perm disk.entries) (now : Instant) (dir : String)
    (location : Location) : listed now other dir location = listed now disk dir location := by
  have alike := Disk.alike_of_perm tree.distinct home delivered
  have sameSummaries : summaryOn? now other dir = summaryOn? now disk dir :=
    funext (summaryOn?_congr alike now dir)
  have names : (other.namesBelow location).Perm (disk.namesBelow location) :=
    delivered.filterMap _
  have together : (listed now other dir location).Perm (listed now disk dir location) := by
    refine (List.mergeSort_perm _ _).trans (List.Perm.trans ?_ (List.mergeSort_perm _ _).symm)
    rw [sameSummaries]
    exact names.filterMap _
  refine together.eq_of_pairwise (fun a b _ _ before after => ?_)
    (listed_ordered (tree.of_perm home delivered) now dir location)
    (listed_ordered tree now dir location)
  exact absurd before (lt_asymm after)

end Listing

end Montage.Project
