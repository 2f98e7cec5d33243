import Montage.Project.Store
import Montage.Proofs.Media.IdMap

/-!
Contract: what a project keeps of a timeline and its catalog.

A project keeps the files that clips use, each once and in the order of the
catalog, and opening it parts them into those that are still there and the rest.

Owns: trimmed names, the number of tracks, the files in use, and opening.
Does not own: the document, in `Proofs.Project.Records`.
-/

namespace Montage

open Montage.Media
open Montage.Text

/-! ## Names -/

namespace Text

theorem trimEnd_trimEnd (cs : List Char) : trimEnd (trimEnd cs) = trimEnd cs := by
  induction cs with
  | nil => rfl
  | cons c rest inductionHypothesis =>
      cases trimmed : trimEnd rest with
      | nil =>
          by_cases blank : isBlank c = true
          · simp [trimEnd, trimmed, blank]
          · simp [trimEnd, trimmed, blank]
      | cons d kept =>
          have shape : trimEnd (c :: rest) = c :: d :: kept := by
            rw [trimEnd, trimmed]
          rw [trimmed] at inductionHypothesis
          rw [shape, trimEnd, inductionHypothesis]

theorem trimEnd_of_no_blank {c : Char} (noBlank : isBlank c = false) (rest : List Char) :
    trimEnd (c :: rest) = c :: trimEnd rest := by
  cases trimmed : trimEnd rest <;> simp [trimEnd, trimmed, noBlank]

theorem trimStart_trimEnd_trimStart (cs : List Char) :
    trimStart (trimEnd (trimStart cs)) = trimEnd (trimStart cs) := by
  have noBlankFirst := List.head?_dropWhile_not isBlank cs
  rw [← trimStart] at noBlankFirst
  cases begins : trimStart cs with
  | nil => rfl
  | cons c rest =>
      rw [begins] at noBlankFirst
      have noBlank : isBlank c = false := noBlankFirst
      rw [trimEnd_of_no_blank noBlank, trimStart, List.dropWhile_cons, noBlank]
      rfl

/-- Trimmed text stays as it is. -/
theorem trim_trim (cs : List Char) : trim (trim cs) = trim cs := by
  rw [trim, trim, trimStart_trimEnd_trimStart, trimEnd_trimEnd]

end Text

namespace Project

theorem trimmedName_trimmedName (name : String) :
    trimmedName (trimmedName name) = trimmedName name := by
  rw [trimmedName, trimmedName, String.toList_ofList, trim_trim]

/-! ## Tracks -/

theorem foldl_max_succ (tracks : List Nat) (most : Nat) :
    (tracks.map (· + 1)).foldl max (most + 1) = tracks.foldl max most + 1 := by
  induction tracks generalizing most with
  | nil => rfl
  | cons track tracks inductionHypothesis =>
      rw [List.map_cons, List.foldl_cons, List.foldl_cons, Nat.add_max_add_right,
        inductionHypothesis]

/-- There is one track more than the highest that a clip is on, and one without clips. -/
theorem trackCount_eq {clips : List (Clip Float)}
    (tracks : ∀ clip ∈ clips, clip.track < wordLimit) :
    trackCount clips = ((clips.map Clip.track).max?).elim 1 (· + 1) := by
  have words : (clips.map fun clip => wordOf (clip.track + 1)) =
      (clips.map Clip.track).map (· + 1) := by
    rw [List.map_map]
    exact List.map_congr_left fun clip member => wordOf_of_le (tracks clip member)
  rw [trackCount, words]
  cases clips with
  | nil => rfl
  | cons clip clips =>
      rw [List.map_cons, List.map_cons, List.max?_cons', List.max?_cons', foldl_max_succ]
      rfl

theorem trackCount_le {clips : List (Clip Float)}
    (tracks : ∀ clip ∈ clips, clip.track < wordLimit) : trackCount clips ≤ wordLimit := by
  rw [trackCount_eq tracks]
  cases highest : (clips.map Clip.track).max? with
  | none => exact (by decide : 1 ≤ wordLimit)
  | some track =>
      obtain ⟨clip, member, rfl⟩ := List.mem_map.mp (List.max?_mem highest)
      exact tracks clip member

/-! ## Files -/

/-- True when a clip uses the file with an id. -/
def isUsed (clips : List (Clip Float)) (id : FileId) : Bool :=
  clips.any fun clip => clip.fileId == id

variable {catalog : Catalog Float}

theorem isUsed_of_mem {clips : List (Clip Float)} {clip : Clip Float} (member : clip ∈ clips) :
    isUsed clips clip.fileId = true :=
  List.any_eq_true.mpr ⟨clip, member, beq_self_eq_true _⟩

/-- The files in use are those of the catalog that some clip names. -/
theorem usedFiles_eq (indexed : catalog.IsIndexed) (clips : List (Clip Float)) :
    usedFiles catalog clips = List.filter (fun entry => isUsed clips entry.1) catalog := by
  have listed : ∀ entry, entry ∈ ((clips.filterMap fun clip =>
      IdMap.get? clip.fileId catalog).map fun asset => (asset.id, asset)) ↔
        entry ∈ List.filter (fun entry => isUsed clips entry.1) catalog := by
    intro entry
    rw [List.mem_map, List.mem_filter]
    constructor
    · rintro ⟨asset, member, rfl⟩
      obtain ⟨clip, inClips, found⟩ := List.mem_filterMap.mp member
      have stored := IdMap.mem_of_get? found
      rw [indexed.own _ stored]
      exact ⟨stored, isUsed_of_mem inClips⟩
    · rintro ⟨stored, used⟩
      obtain ⟨clip, inClips, same⟩ := List.any_eq_true.mp used
      refine ⟨entry.2, List.mem_filterMap.mpr ⟨clip, inClips, ?_⟩, ?_⟩
      · rw [eq_of_beq same, indexed.sorted.get?_of_mem stored]
      · rw [indexed.own entry stored]
  have sorted := indexed.sorted.filter fun entry => isUsed clips entry.1
  rw [usedFiles]
  refine IdMap.Sorted.eq_of_mem_iff (IdMap.sorted_ofList _) sorted ?_
  intro entry
  rw [IdMap.mem_ofList _ entry, listed]
  intro a first b second
  exact sorted.eq_of_id a ((listed a).mp first) b ((listed b).mp second)

/-- Opening asks only for the paths of the files. -/
theorem openWith_congr {project : Project} {first second : String → Bool}
    (agree : ∀ file ∈ Catalog.assets project.files, first file.path = second file.path) :
    project.openWith first = project.openWith second := by
  have kept : (Catalog.assets project.files).filter (fun file => first file.path) =
      (Catalog.assets project.files).filter (fun file => second file.path) :=
    List.filter_congr agree
  have gone : (Catalog.assets project.files).filter (fun file => !first file.path) =
      (Catalog.assets project.files).filter (fun file => !second file.path) :=
    List.filter_congr fun file member => congrArg not (agree file member)
  rw [openWith, openWith, kept, gone]

/-- Opening a project leaves the files that are still there in its catalog. -/
theorem openWith_catalog {project : Project} (indexed : Catalog.IsIndexed project.files)
    (isPresent : String → Bool) : (project.openWith isPresent).catalog =
      List.filter (fun entry => isPresent entry.2.path) project.files := by
  have kept : (Catalog.assets project.files).filter (fun file => isPresent file.path) =
      Catalog.assets (List.filter (fun entry => isPresent entry.2.path) project.files) :=
    List.filter_map
  rw [openWith, kept]
  exact Catalog.ofAssets_assets (indexed.filter _)

/-- The files that are gone are named in the order of the catalog. -/
theorem openWith_missing (project : Project) (isPresent : String → Bool) :
    (project.openWith isPresent).missing =
      (List.filter (fun entry => !isPresent entry.2.path) project.files).map
        fun entry => entry.2.name := by
  show ((Catalog.assets project.files).filter fun file => !isPresent file.path).map Asset.name = _
  rw [Catalog.assets, List.filter_map, List.map_map]
  rfl

end Project

end Montage
