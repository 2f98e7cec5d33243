import Montage.Proofs.Project.ReadRecords
import Montage.Proofs.Project.Reopening

/-!
Contract: which files of a document are accounted for when it is opened.

A document keeps its files under keys, and each file carries an id of its own.
Opening keeps a file under its id, so a file that is there is found under its
key exactly when both agree, and two files with one id become one. Files that
are gone are always named.

Owns: reading a project from a disk, and `accounted_iff_own_ids`.
Does not own: documents written by the program, in `Proofs.Project.Reopening`,
whose keys always are the ids.
-/

namespace Montage

open Montage.Files
open Montage.Media

namespace Project

/-! ## Reading from a disk -/

/-- The project under a path of a disk, or why there is none. -/
def readOn (now : Instant) (disk : Disk) (path : String) : Except Error Project :=
  match disk.readText path with
  | .ok text => ofDocument now text
  | .error cause => .error (.files cause)

/-- Reading leaves the disk as it is. -/
theorem run_read_eq (now : Instant) (disk : Disk) (path : String) :
    (Project.read (m := StateM Disk) now path).run.run disk = (readOn now disk path, disk) := by
  unfold readOn
  cases reads : disk.readText path with
  | ok text => exact run_read reads now
  | error cause =>
      have failed : (FileSystem.readText path : StateM Disk (Except OsError String)).run disk =
          (.error cause, disk) :=
        congrArg (·, disk) reads
      unfold Project.read orFail
      rw [ExceptT.run_bind, StateT.run_bind, ExceptT.run_mk, StateT.run_bind, failed]
      rfl

theorem readOn_eq_ok_iff {now : Instant} {disk : Disk} {path : String} {project : Project} :
    readOn now disk path = .ok project ↔
      ∃ text, disk.readText path = .ok text ∧ ofDocument now text = .ok project := by
  unfold readOn
  cases reads : disk.readText path <;> simp

theorem ofSlots?_sorted (now : Instant) (timeline : Timeline Float) :
    Json.ReadsOnly (ofSlots? now timeline) fun project => IdMap.Sorted project.files := by
  intro slots project accepted
  unfold ofSlots? at accepted
  split at accepted
  · simp only [Option.bind_eq_bind, Option.bind_eq_some_iff, Option.pure_def,
      Option.some.injEq] at accepted
    obtain ⟨version, -, name, -, savedAt, -, files, listed, tracks, -, rfl⟩ := accepted
    exact (filesOfJson?_readsOnly.withDefault listed ⟨List.Pairwise.nil, by simp⟩).1
  · cases accepted

theorem ofJson?_sorted (now : Instant) :
    Json.ReadsOnly (ofJson? now) fun project => IdMap.Sorted project.files := by
  intro v project accepted
  cases v with
  | object members =>
      simp only [ofJson?, Option.bind_eq_bind, Option.bind_eq_some_iff,
        Option.ite_none_right_eq_some] at accepted
      obtain ⟨slots, -, timelineSlots, -, timeline, -, -, projectRead⟩ := accepted
      exact ofSlots?_sorted now timeline slots project projectRead
  | _ => cases accepted

/-- No two files of a document that was read stand under one key. -/
theorem sorted_of_ofDocument {now : Instant} {text : String} {project : Project}
    (accepted : ofDocument now text = .ok project) : IdMap.Sorted project.files := by
  unfold ofDocument at accepted
  split at accepted
  · cases accepted
  · next found read =>
      have same : found = project := by
        split at accepted
        · exact Except.ok.inj accepted
        · cases accepted
      subst same
      obtain ⟨v, -, isProject⟩ := Option.bind_eq_some_iff.mp read
      exact ofJson?_sorted now v _ isProject

/-! ## Accounting for the files -/

/-- Every file of a document is either found under its key or named as gone. -/
structure Accounted (isPresent : String → Bool) (files : IdMap (Asset Float)) (opened : Opened) :
    Prop where
  restored : ∀ entry ∈ files, isPresent entry.2.path = true →
    IdMap.get? entry.1 opened.catalog = some entry.2
  reported : ∀ entry ∈ files, isPresent entry.2.path = false → entry.2.name ∈ opened.missing
  counted : opened.catalog.length + opened.missing.length = files.length

variable {project : Project} {isPresent : String → Bool}

/-- Whatever the keys, the files that are gone are named. -/
theorem name_mem_openWith_missing :
    ∀ entry ∈ project.files, isPresent entry.2.path = false →
      entry.2.name ∈ (project.openWith isPresent).missing := by
  intro entry member gone
  rw [openWith_missing]
  have left : entry ∈ List.filter (fun entry => !isPresent entry.2.path) project.files :=
    List.mem_filter.mpr ⟨member, by rw [gone]; rfl⟩
  exact List.mem_map_of_mem left

/-- The catalog keeps every file under its own id. -/
theorem openWith_catalog_own {id : FileId} {asset : Asset Float}
    (found : IdMap.get? id (project.openWith isPresent).catalog = some asset) : asset.id = id :=
  (Catalog.isIndexed_ofAssets _).own (id, asset) (IdMap.mem_of_get? found)

/-- Files that are there and stand under their own ids are all kept. -/
theorem openWith_catalog_of_own (sorted : IdMap.Sorted project.files)
    (own : ∀ entry ∈ project.files, isPresent entry.2.path = true → entry.2.id = entry.1) :
    (project.openWith isPresent).catalog =
      List.filter (fun entry => isPresent entry.2.path) project.files := by
  have indexed : Catalog.IsIndexed
      (List.filter (fun entry => isPresent entry.2.path) project.files) :=
    { sorted := sorted.filter _
      own := fun entry member =>
        own entry (List.mem_of_mem_filter member) (List.mem_filter.mp member).2 }
  have kept : (Catalog.assets project.files).filter (fun file => isPresent file.path) =
      Catalog.assets (List.filter (fun entry => isPresent entry.2.path) project.files) :=
    List.filter_map
  rw [openWith, kept]
  exact Catalog.ofAssets_assets indexed

theorem accounted_of_own (sorted : IdMap.Sorted project.files)
    (own : ∀ entry ∈ project.files, isPresent entry.2.path = true → entry.2.id = entry.1) :
    Accounted isPresent project.files (project.openWith isPresent) := by
  have catalog := openWith_catalog_of_own sorted own
  refine ⟨?_, name_mem_openWith_missing, ?_⟩
  · intro entry member present
    rw [catalog]
    exact (sorted.filter _).get?_of_mem (List.mem_filter.mpr ⟨member, present⟩)
  · rw [catalog, openWith_missing, List.length_map]
    exact (List.length_eq_length_filter_add
      fun entry : FileId × Asset Float => isPresent entry.2.path).symm

/-- A document that is read is opened, and all of its files are accounted for exactly when those
that are there stand under their own ids. -/
theorem accounted_iff_own_ids {now : Instant} {disk : Disk} {path : String}
    (accepted : (Project.read (m := StateM Disk) now path).run.run disk = (.ok project, disk)) :
    (load (m := StateM Disk) now path).run.run disk =
        (.ok (project.openWith disk.isPresent), disk) ∧
      ∀ isPresent, Accounted isPresent project.files (project.openWith isPresent) ↔
        ∀ entry ∈ project.files, isPresent entry.2.path = true → entry.2.id = entry.1 := by
  rw [run_read_eq] at accepted
  obtain ⟨text, reads, isProject⟩ := readOn_eq_ok_iff.mp (Prod.mk.inj accepted).1
  refine ⟨run_load reads isProject, fun isPresent => ⟨?_, ?_⟩⟩
  · intro accounted entry member present
    exact openWith_catalog_own (accounted.restored entry member present)
  · exact accounted_of_own (sorted_of_ofDocument isProject)

/-! Documents about two recordings, in a directory that holds one or both of them. -/

/-- A document without clips that was written elsewhere. -/
def handMade (files : IdMap (Asset Float)) : Project where
  version := 1
  name := "Hand made"
  savedAt := .epoch
  files := files
  timeline := ⟨[], none, .mp4⟩
  tracks := 1

def recording (id name : String) : Asset Float :=
  ⟨⟨id⟩, name, name, 10.0, false, true, 0, 0⟩

/-- A directory with some recordings and a document. -/
def folder (names : List String) (project : Project) : Disk where
  home := []
  entries := (["cut.spliceproj"], .file project.document.toUTF8 false) ::
    names.map fun name => ([name], .file ⟨#[]⟩ false)

theorem readText_folder (names : List String) (project : Project) :
    (folder names project).readText "cut.spliceproj" = .ok project.document := by
  have found : (folder names project).find "cut.spliceproj" =
      .ok (["cut.spliceproj"], .file project.document.toUTF8 false) := rfl
  rw [Disk.readText, found]
  simp only [Disk.fromUTF8?_toUTF8]

def separate : Project :=
  handMade [(⟨"a"⟩, recording "a" "a.wav"), (⟨"b"⟩, recording "b" "b.wav")]

/-- Both files carry one id, and the document keeps neither under it. -/
def relabelled : Project :=
  handMade [(⟨"a"⟩, recording "x" "a.wav"), (⟨"b"⟩, recording "x" "b.wav")]

theorem handMade_isStored {files : IdMap (Asset Float)} (sorted : IdMap.Sorted files)
    (stored : ∀ entry ∈ files, entry.2.IsStored) : (handMade files).IsStored where
  version := (by decide : 1 ≤ wordLimit)
  savedAt := (by decide : Instant.isValid .epoch = true)
  sorted := sorted
  files := stored
  timeline := Timeline.isStored_of_fits (fun _ => nofun) nofun
  tracks := (by decide : 1 ≤ wordLimit)

theorem recording_isStored (id name : String) : (recording id name).IsStored where
  duration := (by decide +kernel : Json.IsKept 10.0)
  width := Nat.zero_le _
  height := Nat.zero_le _

theorem ofDocument_two {first second : String} :
    ofDocument .epoch (handMade [(⟨"a"⟩, recording first "a.wav"),
      (⟨"b"⟩, recording second "b.wav")]).document =
      .ok (handMade [(⟨"a"⟩, recording first "a.wav"), (⟨"b"⟩, recording second "b.wav")]) := by
  have sorted : IdMap.Sorted [((⟨"a"⟩ : FileId), recording first "a.wav"),
      (⟨"b"⟩, recording second "b.wav")] := by
    have before : "a" < "b" := by decide +kernel
    simpa [IdMap.Sorted] using before
  exact ofDocument_document (handMade_isStored sorted (by simp [recording_isStored])) rfl .epoch

theorem separate_accounted :
    (Project.read (m := StateM Disk) .epoch "cut.spliceproj").run.run (folder ["a.wav"] separate) =
        (.ok separate, folder ["a.wav"] separate) ∧
      (load (m := StateM Disk) .epoch "cut.spliceproj").run.run (folder ["a.wav"] separate) =
        (.ok (separate.openWith (folder ["a.wav"] separate).isPresent),
          folder ["a.wav"] separate) ∧
      Accounted (folder ["a.wav"] separate).isPresent separate.files
        (separate.openWith (folder ["a.wav"] separate).isPresent) := by
  have accepted : (Project.read (m := StateM Disk) .epoch "cut.spliceproj").run.run
      (folder ["a.wav"] separate) = (.ok separate, folder ["a.wav"] separate) := by
    rw [run_read (readText_folder ["a.wav"] separate), separate, ofDocument_two]
  obtain ⟨opens, accounted⟩ := accounted_iff_own_ids accepted
  refine ⟨accepted, opens, (accounted _).mpr ?_⟩
  simp [separate, handMade, recording]

/-- Of two files with one id the first is neither found nor named. -/
theorem shared_id_loses_file :
    (load (m := StateM Disk) .epoch "cut.spliceproj").run.run
        (folder ["a.wav", "b.wav"] relabelled) =
        (.ok (relabelled.openWith fun _ => true), folder ["a.wav", "b.wav"] relabelled) ∧
      (relabelled.openWith fun _ => true).catalog = [(⟨"x"⟩, recording "x" "b.wav")] ∧
      (relabelled.openWith fun _ => true).missing = [] ∧
      ¬ Accounted (fun _ => true) relabelled.files (relabelled.openWith fun _ => true) := by
  refine ⟨?_, rfl, rfl, fun accounted => absurd accounted.counted (by decide)⟩
  have present : ∀ file ∈ Catalog.assets relabelled.files,
      (folder ["a.wav", "b.wav"] relabelled).isPresent file.path = true := by
    intro file member
    simp [relabelled, handMade, Catalog.assets] at member
    rcases member with rfl | rfl <;> rfl
  have isProject : ofDocument .epoch relabelled.document = .ok relabelled := ofDocument_two
  have opened : relabelled.openWith (folder ["a.wav", "b.wav"] relabelled).isPresent =
      relabelled.openWith fun _ => true := openWith_congr present
  rw [run_load (readText_folder ["a.wav", "b.wav"] relabelled) isProject, opened]

end Project

end Montage
