import Montage.Proofs.Compile.Frame
import Montage.Proofs.Files.Running
import Montage.Proofs.Files.Written
import Montage.Proofs.Project.Capture
import Montage.Proofs.Project.Records

/-!
Contract: saving and reopening a project changes nothing about what it compiles to.

The document of a project is read back as the project, whatever the files it
names have become. Opening then parts the files in use by whether they are still
there, and compiling asks for no others.

Owns: what a saved project is opened as, on any disk that keeps the document.
Does not own: what reading a number literal rounds to; that the numbers of the
document are read back is a hypothesis about each of them.
-/

namespace Montage

open Montage.Files
open Montage.Media

namespace Project

/-- A timeline and a catalog as the program holds them: whole numbers have 32 bits, one of them
to spare for the number of tracks, and all other numbers are finite. -/
structure Storable (timeline : Timeline Float) (catalog : Catalog Float) : Prop where
  indexed : catalog.IsIndexed
  finite : ∀ x ∈ timeline.numbers ++ catalog.numbers, x.isFinite = true
  tracks : ∀ clip ∈ timeline.clips, clip.track < wordLimit
  sizes : ∀ asset ∈ catalog.assets, asset.width ≤ wordLimit ∧ asset.height ≤ wordLimit

section Captured

variable {name : String} {timeline : Timeline Float} {catalog : Catalog Float} {now : Instant}

theorem capture_files_subset (indexed : catalog.IsIndexed) :
    ∀ entry ∈ (capture now name timeline catalog).files, entry ∈ catalog := by
  intro entry member
  change entry ∈ usedFiles catalog timeline.clips at member
  rw [usedFiles_eq indexed] at member
  exact List.mem_of_mem_filter member

theorem capture_fits (storable : Storable timeline catalog) (valid : now.isValid = true) :
    (capture now name timeline catalog).Fits where
  version := (by decide : currentVersion ≤ wordLimit)
  savedAt := valid
  sorted := IdMap.sorted_ofList _
  files := fun entry member => storable.sizes entry.2
    (List.mem_map_of_mem (capture_files_subset storable.indexed entry member))
  timeline := fun clip member => Nat.le_of_lt (storable.tracks clip member)
  tracks := trackCount_le storable.tracks

theorem capture_isStored (storable : Storable timeline catalog) (valid : now.isValid = true)
    (kept : ∀ x ∈ (capture now name timeline catalog).numbers, Json.IsKept x) :
    (capture now name timeline catalog).IsStored :=
  isStored_of_fits (capture_fits storable valid) kept

theorem capture_finite (storable : Storable timeline catalog) :
    ∀ x ∈ (capture now name timeline catalog).numbers, x.isFinite = true := by
  intro x member
  refine storable.finite x ?_
  rcases List.mem_append.mp member with inTimeline | inFiles
  · exact List.mem_append_left _ inTimeline
  · obtain ⟨asset, inAssets, rfl⟩ := List.mem_map.mp inFiles
    obtain ⟨entry, inEntries, rfl⟩ := List.mem_map.mp inAssets
    have inCatalog := capture_files_subset storable.indexed entry inEntries
    exact List.mem_append_right _ (List.mem_map_of_mem (List.mem_map_of_mem inCatalog))

end Captured

/-! ## The document -/

/-- A project of the current version is read with what its numbers are read as. -/
theorem ofDocument_document_map {project : Project} {f : Float → Float} (fits : project.Fits)
    (reads : ∀ x ∈ project.numbers, Json.ReadsAs x (f x))
    (current : project.version = currentVersion) (now : Instant) :
    ofDocument now project.document = .ok (project.mapNumbers f) := by
  rw [ofDocument, document, Json.read?_indented project.isWritten_toJson, Option.bind_some,
    ofJson?_toJson_map fits reads now]
  exact if_pos current

/-- A project of the current version is read back from its document. -/
theorem ofDocument_document {project : Project} (stored : project.IsStored)
    (current : project.version = currentVersion) (now : Instant) :
    ofDocument now project.document = .ok project := by
  rw [ofDocument_document_map (f := id) stored.fits stored.kept current now, mapNumbers_id]

/-! ## On disk -/

section OnDisk

variable {disk ready kept later : Disk} {dir path : String} {project : Project}

theorem run_writeText {text : String}
    (writes : disk.writeBytes path text.toUTF8 false = .ok kept) :
    (FileSystem.writeText path text : StateM Disk (Except OsError Unit)).run disk =
      (.ok (), kept) := by
  have settled : disk.settle (disk.writeBytes path text.toUTF8 false) = (.ok (), kept) := by
    rw [writes]
    rfl
  exact settled

theorem run_save (usable : isFileName (trimmedName project.name) = true)
    (made : disk.ensureDirectory dir = (.ok (), ready))
    (writes : ready.writeBytes (documentPath dir (trimmedName project.name))
      project.document.toUTF8 false = .ok kept) :
    (save (m := StateM Disk) dir project).run.run disk =
      (.ok (documentPath dir (trimmedName project.name)), kept) := by
  have ensured : (FileSystem.ensureDirectory dir : StateM Disk (Except OsError Unit)).run disk =
      (.ok (), ready) := made
  unfold save
  simp only [usable, ↓reduceIte]
  rw [run_bind (run_orFail ensured), run_bind (run_orFail (run_writeText writes))]
  rfl

theorem run_read {text : String} (reads : later.readText path = .ok text) (now : Instant) :
    (Project.read (m := StateM Disk) now path).run.run later = (ofDocument now text, later) := by
  have found : (FileSystem.readText path : StateM Disk (Except OsError String)).run later =
      (.ok text, later) :=
    congrArg (·, later) reads
  unfold Project.read
  rw [run_bind (run_orFail found)]
  cases ofDocument now text <;> rfl

/-- Asking for paths in turn leaves the disk as it is. -/
theorem run_filterM_isPresent (paths : List String) :
    (paths.filterM (fun file => (FileSystem.isPresent file : StateM Disk Bool)) :
      ExceptT Error (StateM Disk) (List String)).run.run later =
        (.ok (paths.filter later.isPresent), later) := by
  have gathered : ∀ taken : List String,
      (paths.filterAuxM (fun file => (FileSystem.isPresent file : StateM Disk Bool)) taken :
        ExceptT Error (StateM Disk) (List String)).run.run later =
          (.ok ((paths.filter later.isPresent).reverse ++ taken), later) := by
    induction paths with
    | nil => exact fun taken => rfl
    | cons file paths inductionHypothesis =>
        intro taken
        have asked : (liftM (FileSystem.isPresent file : StateM Disk Bool) :
            ExceptT Error (StateM Disk) Bool).run.run later =
              (.ok (later.isPresent file), later) := rfl
        rw [List.filterAuxM, run_bind asked, inductionHypothesis, List.filter_cons]
        cases later.isPresent file <;> simp
  rw [List.filterM, run_bind (gathered []), List.append_nil]
  exact congrArg (fun kept => (Except.ok kept, later)) (List.reverse_reverse _)

theorem run_load {text : String} (reads : later.readText path = .ok text) {now : Instant}
    (isProject : ofDocument now text = .ok project) :
    (load (m := StateM Disk) now path).run.run later =
      (.ok (project.openWith later.isPresent), later) := by
  have opened := run_read reads now
  rw [isProject] at opened
  have asked := @run_filterM_isPresent later ((Catalog.assets project.files).map Asset.path)
  have agree : ∀ file ∈ Catalog.assets project.files,
      (((Catalog.assets project.files).map Asset.path).filter later.isPresent).contains file.path =
        later.isPresent file.path := by
    intro file member
    have listed := List.mem_map_of_mem (f := Asset.path) member
    simp only [List.contains_eq_mem, List.mem_filter, listed, true_and, Bool.decide_eq_true]
  unfold load
  rw [run_bind opened, run_bind asked, openWith_congr agree]
  rfl

end OnDisk

/-! ## Reopening -/

/-- What a saved timeline is opened as when `isPresent` tells which files there still are. -/
structure Reopened (isPresent : String → Bool) (name : String) (timeline : Timeline Float)
    (catalog : Catalog Float) (opened : Opened) : Prop where
  trimmed : opened.name = trimmedName name
  unchanged : opened.timeline = timeline
  tracks : opened.tracks = ((timeline.clips.map Clip.track).max?).elim 1 (· + 1)
  present : opened.catalog = List.filter (fun entry =>
    isUsed timeline.clips entry.1 && isPresent entry.2.path) catalog
  missing : opened.missing = (List.filter (fun entry =>
    isUsed timeline.clips entry.1 && !isPresent entry.2.path) catalog).map fun entry => entry.2.name
  compiles : compile opened.timeline opened.catalog =
    compile timeline (List.filter (fun entry => isPresent entry.2.path) catalog)

theorem capture_reopened {timeline : Timeline Float} {catalog : Catalog Float}
    (storable : Storable timeline catalog) (now : Instant) (name : String)
    (isPresent : String → Bool) :
    Reopened isPresent name timeline catalog
      ((capture now name timeline catalog).openWith isPresent) := by
  have files : (capture now name timeline catalog).files =
      List.filter (fun entry => isUsed timeline.clips entry.1) catalog :=
    usedFiles_eq storable.indexed timeline.clips
  have indexedFiles : Catalog.IsIndexed (capture now name timeline catalog).files := by
    rw [files]
    exact storable.indexed.filter _
  have present : ((capture now name timeline catalog).openWith isPresent).catalog =
      List.filter (fun entry => isUsed timeline.clips entry.1 && isPresent entry.2.path) catalog := by
    rw [openWith_catalog indexedFiles, files, List.filter_filter]
    simp only [Bool.and_comm]
  refine ⟨rfl, rfl, trackCount_eq storable.tracks, present, ?_, ?_⟩
  · rw [openWith_missing, files, List.filter_filter]
    simp only [Bool.and_comm]
  · rw [present]
    apply compile_congr
    intro clip member
    exact IdMap.get?_filter_of_id (isUsed_of_mem member)

/-- A saved timeline is opened again as long as its document is kept, whatever becomes of the
files: the timeline is the same, the files in use are the ones that are still there, and it
compiles as it would without the files that are gone. -/
theorem saved_project_reopens {name dir : String} {timeline : Timeline Float}
    {catalog : Catalog Float} {now : Instant} {disk ready kept : Disk}
    (usable : isFileName (trimmedName name) = true) (storable : Storable timeline catalog)
    (valid : now.isValid = true)
    (readBack : ∀ x ∈ (capture now name timeline catalog).numbers, x.isFinite = true →
      Json.IsKept x)
    (made : disk.ensureDirectory dir = (.ok (), ready))
    (writes : ready.writeBytes (documentPath dir (trimmedName name))
      (capture now name timeline catalog).document.toUTF8 false = .ok kept) :
    (save (m := StateM Disk) dir (capture now name timeline catalog)).run.run disk =
        (.ok (documentPath dir (trimmedName name)), kept) ∧
      (∀ (later : Disk) (again : Instant),
        later.readText (documentPath dir (trimmedName name)) =
            kept.readText (documentPath dir (trimmedName name)) →
          (load (m := StateM Disk) again (documentPath dir (trimmedName name))).run.run later =
            (.ok ((capture now name timeline catalog).openWith later.isPresent), later)) ∧
      ∀ isPresent, Reopened isPresent name timeline catalog
        ((capture now name timeline catalog).openWith isPresent) := by
  have stored : (capture now name timeline catalog).IsStored := by
    refine capture_isStored storable valid fun x member => ?_
    exact readBack x member (capture_finite storable x member)
  have sameName : trimmedName (capture now name timeline catalog).name = trimmedName name :=
    trimmedName_trimmedName name
  refine ⟨?_, ?_, capture_reopened storable now name⟩
  · rw [← sameName] at usable writes ⊢
    exact run_save usable made writes
  · intro later again unchanged
    rw [Disk.readText_of_writeBytes writes] at unchanged
    exact run_load unchanged (ofDocument_document stored rfl again)

/-! A timeline of two files, one of which is gone when it is saved; a third is not in use. -/

def voiceOver : Timeline Float where
  clips := [⟨⟨"0voice"⟩, 0.0, none, none, 1.0, 100.0, 0⟩,
    ⟨⟨"1music"⟩, 10.0, some 0.5, none, 2.0, 80.0, 2⟩]
  duration := none
  format := .mp3

def recordings : Catalog Float :=
  Catalog.ofAssets [⟨⟨"0voice"⟩, "voice.wav", "voice.wav", 10.0, false, true, 0, 0⟩,
    ⟨⟨"1music"⟩, "music.wav", "music.wav", 12.5, false, true, 0, 0⟩,
    ⟨⟨"2unused"⟩, "unused.wav", "unused.wav", 3.0, false, true, 0, 0⟩]

def workshop : Disk where
  home := []
  entries := [(["voice.wav"], .file ⟨#[]⟩ false)]

theorem voiceOver_reopens : ∃ kept : Disk,
    (save (m := StateM Disk) "projects" (capture .epoch " Demo cut" voiceOver recordings)).run.run
        workshop = (.ok "projects/Demo cut.spliceproj", kept) ∧
      (load (m := StateM Disk) .epoch "projects/Demo cut.spliceproj").run.run kept =
        (.ok ((capture .epoch " Demo cut" voiceOver recordings).openWith kept.isPresent), kept) ∧
      Reopened kept.isPresent " Demo cut" voiceOver recordings
        ((capture .epoch " Demo cut" voiceOver recordings).openWith kept.isPresent) := by
  have storable : Storable voiceOver recordings :=
    ⟨Catalog.isIndexed_ofAssets _, by decide +kernel, by decide, by decide +kernel⟩
  have path : documentPath "projects" (trimmedName " Demo cut") = "projects/Demo cut.spliceproj" := by
    decide +kernel
  have made : workshop.ensureDirectory "projects" =
      (.ok (), workshop.place ["projects"] .directory) := rfl
  have places (content : ByteArray) :
      (workshop.place ["projects"] .directory).writeBytes "projects/Demo cut.spliceproj" content false =
        .ok ((workshop.place ["projects"] .directory).place ["projects", "Demo cut.spliceproj"]
          (.file content false)) := rfl
  have readBack : ∀ x ∈ (capture .epoch " Demo cut" voiceOver recordings).numbers,
      x.isFinite = true → Json.IsKept x := by
    decide +kernel
  have writes := places (capture .epoch " Demo cut" voiceOver recordings).document.toUTF8
  rw [← path] at writes
  have reopens := saved_project_reopens (by decide) storable (by decide) readBack made writes
  rw [path] at reopens
  exact ⟨_, reopens.1, reopens.2.1 _ .epoch rfl, reopens.2.2 _⟩

end Project

end Montage
