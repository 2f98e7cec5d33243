import Montage.Proofs.Json.FloatLiteral
import Montage.Proofs.Project.Listing

/-!
Contract: the listing of a directory shows what was saved into it.

A save puts one document into the directory under the trimmed name and leaves
everything else as it is, so after any number of saves the last one under each
name is what is read there. Reading rounds no finite number away, so each
document lists as the project it was written from.

Owns: what a save writes, what several saves leave, and `listing_reflects_saves`.
-/

namespace Montage

open Montage.Files
open Montage.Media

namespace Project

/-! ## File names -/

theorem isFileName_iff {name : String} : isFileName name = true ↔
    name ≠ "" ∧ '/' ∉ name.toList ∧ '\\' ∉ name.toList := by
  simp [isFileName, and_assoc]

/-- The file name of a project with a trimmed name. -/
def documentName (name : String) : String := name ++ "." ++ extension

theorem documentPath_eq (dir name : String) :
    documentPath dir name = Path.join dir (documentName name) := rfl

theorem documentName_injective : Function.Injective documentName := by
  intro first second same
  have letters := congrArg String.toList same
  simp only [documentName, String.toList_append] at letters
  exact String.toList_inj.mp (List.append_cancel_right (List.append_cancel_right letters))

section Names

variable {name : String}

theorem isName_documentName (usable : isFileName name = true) : IsName (documentName name) := by
  obtain ⟨-, noSlash, -⟩ := isFileName_iff.mp usable
  have long : 2 < (documentName name).toList.length := by
    simp [documentName, extension]
  refine ⟨?_, ?_, ?_, ?_⟩
  · exact List.ne_nil_of_length_pos (by omega)
  · simp only [documentName, String.toList_append, List.mem_append, not_or]
    exact ⟨⟨noSlash, by decide⟩, by decide⟩
  · intro same
    simp [same] at long
  · intro same
    simp [same] at long

/-- Whatever dots and blanks a name has, its document is one that listing tries. -/
theorem extension?_documentName (usable : isFileName name = true) :
    Path.extension? (documentName name) = some extension :=
  (Path.extension?_eq_some_iff (isName_documentName usable)).mpr
    ⟨by decide, name, (isFileName_iff.mp usable).1, rfl⟩

end Names

/-! ## One save -/

section OneSave

variable {disk ready later : Disk} {dir path name : String} {location : Location}
  {project : Project}

theorem writeBytes_of_run {text : String}
    (writes : (FileSystem.writeText path text : StateM Disk (Except OsError Unit)).run disk =
      (.ok (), later)) : disk.writeBytes path text.toUTF8 false = .ok later := by
  change disk.settle (disk.writeBytes path text.toUTF8 false) = (.ok (), later) at writes
  cases written : disk.writeBytes path text.toUTF8 false with
  | ok kept =>
      rw [written] at writes
      cases writes
      rfl
  | error cause =>
      rw [written] at writes
      cases writes

/-- A project without a usable name is refused before anything is asked of the files. -/
theorem save_of_unusable {m : Type → Type} [Monad m] [FileSystem m]
    (unusable : isFileName (trimmedName project.name) = false) :
    save (m := m) dir project =
      throw (.path ("'" ++ project.name ++ "' is not usable as a project file name")) := by
  unfold save
  simp only [unusable, Bool.false_eq_true, ↓reduceIte]

theorem save_eq_ok (saves : (save (m := StateM Disk) dir project).run.run disk = (.ok path, later)) :
    isFileName (trimmedName project.name) = true ∧
      path = documentPath dir (trimmedName project.name) ∧
      ∃ ready, disk.ensureDirectory dir = (.ok (), ready) ∧
        ready.writeBytes path project.document.toUTF8 false = .ok later := by
  cases usable : isFileName (trimmedName project.name) with
  | false =>
      rw [save_of_unusable usable] at saves
      cases saves
  | true =>
      unfold save at saves
      simp only [usable, ↓reduceIte] at saves
      obtain ⟨_, ready, made, saves⟩ := run_bind_eq_ok saves
      obtain ⟨_, kept, writes, saves⟩ := run_bind_eq_ok saves
      have same : (Except.ok (documentPath dir (trimmedName project.name)), kept) =
          ((.ok path, later) : Except Error String × Disk) := saves
      obtain ⟨samePath, sameDisk⟩ := Prod.mk.inj same
      have path_eq : path = documentPath dir (trimmedName project.name) :=
        (Except.ok.inj samePath).symm
      subst path_eq sameDisk
      exact ⟨rfl, rfl, ready, run_orFail_eq_ok made, writeBytes_of_run (run_orFail_eq_ok writes)⟩

end OneSave

/-! ## Several saves -/

/-- The last of some projects with a name, blanks around their names aside. -/
def lastNamed? (name : String) (projects : List Project) : Option Project :=
  projects.reverse.find? fun project => trimmedName project.name == name

section Several

variable {disk between later : Disk} {dir path name : String} {location : Location}
  {project : Project} {projects earlier more : List Project}

theorem lastNamed?_append (name : String) (earlier more : List Project) :
    lastNamed? name (earlier ++ more) = (lastNamed? name more).or (lastNamed? name earlier) := by
  rw [lastNamed?, List.reverse_append, List.find?_append]
  rfl

theorem lastNamed?_eq_none_iff :
    lastNamed? name projects = none ↔ ∀ project ∈ projects, trimmedName project.name ≠ name := by
  simp [lastNamed?]

theorem of_lastNamed?_eq_some (found : lastNamed? name projects = some project) :
    project ∈ projects ∧ trimmedName project.name = name :=
  ⟨List.mem_reverse.mp (List.mem_of_find?_eq_some found), eq_of_beq (List.find?_some found :)⟩

theorem exists_lastNamed? (member : project ∈ projects) :
    ∃ last, lastNamed? (trimmedName project.name) projects = some last := by
  apply Option.ne_none_iff_exists'.mp
  intro nothing
  exact lastNamed?_eq_none_iff.mp nothing project member rfl

/-- The file names that some projects are saved under. -/
def documentNames (projects : List Project) : List String :=
  projects.map fun project => documentName (trimmedName project.name)

theorem mem_documentNames_iff : documentName name ∈ documentNames projects ↔
    ∃ project ∈ projects, trimmedName project.name = name := by
  simp [documentNames, documentName_injective.eq_iff]

/-- What saving some projects into a directory leaves of a disk. -/
structure Saved (disk later : Disk) (dir : String) (location : Location)
    (projects : List Project) : Prop where
  tree : later.IsTree
  beside : disk.Beside later location (documentNames projects)
  usable : ∀ project ∈ projects, isFileName (trimmedName project.name) = true
  last : ∀ {name project}, lastNamed? name projects = some project →
    later.readText (documentPath dir name) = .ok project.document

namespace Saved

theorem nil (tree : disk.IsTree) (dir : String) (location : Location) :
    Saved disk disk dir location [] :=
  ⟨tree, .refl disk location, nofun, nofun⟩

/-- One save is a step. -/
theorem step (tree : disk.IsTree) (named : dir ≠ "") (leads : disk.locate dir = .ok location)
    (stands : disk.entryAt? location = some .directory)
    (saves : (save (m := StateM Disk) dir project).run.run disk = (.ok path, later)) :
    Saved disk later dir location [project] := by
  obtain ⟨usable, rfl, ready, made, writes⟩ := save_eq_ok saves
  rw [Disk.ensureDirectory_of_isDirectory (Disk.isDirectory_iff.mpr ⟨location, leads, stands⟩)]
    at made
  cases made
  have reads := Disk.readText_of_writeBytes writes
  obtain ⟨target, flag, goes, -, noDirectory, rfl⟩ := Disk.writeBytes_eq_ok writes
  obtain ⟨above, same, -, rfl⟩ := Disk.locate_join named (isName_documentName usable) goes
  cases leads.symm.trans same
  refine ⟨tree.place (tree.isPlace_locate goes noDirectory) noDirectory, .of_place noDirectory,
    List.forall_mem_singleton.mpr usable, fun {name found} last => ?_⟩
  obtain ⟨member, rfl⟩ := of_lastNamed?_eq_some last
  cases List.mem_singleton.mp member
  exact reads

/-- Further saves keep what is not saved again. -/
theorem append (named : dir ≠ "") (leads : disk.locate dir = .ok location)
    (first : Saved disk between dir location earlier)
    (second : Saved between later dir location more) :
    Saved disk later dir location (earlier ++ more) where
  tree := second.tree
  beside := by
    rw [documentNames, List.map_append]
    exact first.beside.trans second.beside
  usable := fun project member => (List.mem_append.mp member).elim (first.usable project)
    (second.usable project)
  last := by
    intro name project last
    rw [lastNamed?_append, Option.or_eq_some_iff] at last
    rcases last with again | ⟨notAgain, before⟩
    · exact second.last again
    · obtain ⟨member, rfl⟩ := of_lastNamed?_eq_some before
      refine (second.beside.readText_iff ?_).mpr (first.last before)
      intro other inMore goes
      obtain ⟨above, same, -, shape⟩ :=
        Disk.locate_join named (isName_documentName (first.usable project member)) goes
      cases (first.beside.locate.mpr leads).symm.trans same
      obtain rfl : other = documentName (trimmedName project.name) := by simpa using shape
      obtain ⟨twin, inMore, sameName⟩ := mem_documentNames_iff.mp inMore
      exact lastNamed?_eq_none_iff.mp notAgain twin inMore sameName

/-- What one save keeps, a run of saves keeps. -/
theorem run (tree : disk.IsTree) (named : dir ≠ "") (leads : disk.locate dir = .ok location)
    (stands : disk.entryAt? location = some .directory) {paths : List String}
    (saves : (projects.mapM (save (m := StateM Disk) dir)).run.run disk = (.ok paths, later)) :
    Saved disk later dir location projects := by
  induction projects generalizing disk paths with
  | nil =>
      cases saves
      exact nil tree dir location
  | cons project projects inductionHypothesis =>
      obtain ⟨path, others, between, saved, rest, -⟩ := run_mapM_cons_eq_ok_iff.mp saves
      have first := step tree named leads stands saved
      have second := inductionHypothesis first.tree (first.beside.locate.mpr leads)
        (first.beside.entryAt?_dir.trans stands) rest
      exact first.append named leads second

/-- A file under any other name is read as before. -/
theorem readText_iff (saved : Saved disk later dir location projects) (named : dir ≠ "")
    (leads : disk.locate dir = .ok location) (isName : IsName name)
    (other : name ∉ documentNames projects) {text : String} :
    later.readText (Path.join dir name) = .ok text ↔
      disk.readText (Path.join dir name) = .ok text := by
  refine saved.beside.readText_iff fun written member goes => ?_
  obtain ⟨above, same, -, shape⟩ := Disk.locate_join named isName goes
  cases leads.symm.trans same
  obtain rfl : written = name := by simpa using shape
  exact other member

end Saved

end Several

/-! ## What is read back -/

/-- A project whose document is read again: its numbers are finite and its other fields are what
the program holds. -/
structure Writable (project : Project) : Prop where
  current : project.version = currentVersion
  fits : project.Fits
  finite : ∀ x ∈ project.numbers, x.isFinite = true

theorem capture_writable {timeline : Timeline Float} {catalog : Catalog Float} {savedAt : Instant}
    (name : String) (storable : Storable timeline catalog) (valid : savedAt.isValid = true) :
    (capture savedAt name timeline catalog).Writable :=
  ⟨rfl, capture_fits storable valid, capture_finite storable⟩

/-- What the literal of a number is read back as, which need not be the number. -/
def reread (x : Float) : Float := ((Json.ofFloat x).float?).getD x

theorem readsAs_reread {x : Float} (finite : x.isFinite = true) : Json.ReadsAs x (reread x) := by
  obtain ⟨y, reads⟩ := Option.isSome_iff_exists.mp (Json.float?_ofFloat_isSome finite)
  rw [Json.ReadsAs, reread, reads]
  rfl

theorem Writable.ofDocument {project : Project} (writable : project.Writable) (now : Instant) :
    ofDocument now project.document = .ok (project.mapNumbers reread) :=
  ofDocument_document_map writable.fits (fun x member => readsAs_reread (writable.finite x member))
    writable.current now

/-- No number stands in a summary. -/
theorem summary_mapNumbers (f : Float → Float) (fileName : String) (project : Project) :
    (project.mapNumbers f).summary fileName = project.summary fileName := by
  simp [summary, mapNumbers, Timeline.mapNumbers]

/-! ## Listings around saves -/

section Listings

variable {now : Instant} {disk later : Disk} {dir name : String} {location : Location}
  {project : Project} {projects : List Project} {summary : Summary}

namespace Saved

/-- The last project saved under a name is what is listed under it. -/
theorem summaryOn?_last (saved : Saved disk later dir location projects)
    (writable : ∀ project ∈ projects, project.Writable) (now : Instant)
    (last : lastNamed? name projects = some project) :
    summaryOn? now later dir (documentName name) = some (project.summary (documentName name)) := by
  obtain ⟨member, rfl⟩ := of_lastNamed?_eq_some last
  refine summaryOn?_eq_some_iff.mpr ⟨extension?_documentName (saved.usable project member),
    project.mapNumbers reread, readOn_eq_ok_iff.mpr ⟨_, saved.last last, ?_⟩,
    (summary_mapNumbers reread _ project).symm⟩
  exact (writable project member).ofDocument now

theorem summaryOn?_other (saved : Saved disk later dir location projects) (named : dir ≠ "")
    (leads : disk.locate dir = .ok location) (isName : IsName name)
    (other : name ∉ documentNames projects) :
    summaryOn? now later dir name = some summary ↔ summaryOn? now disk dir name = some summary := by
  simp only [summaryOn?_eq_some_iff, readOn_eq_ok_iff,
    saved.readText_iff named leads isName other]

theorem mem_namesBelow_other (saved : Saved disk later dir location projects)
    (other : name ∉ documentNames projects) :
    name ∈ later.namesBelow location ↔ name ∈ disk.namesBelow location := by
  rw [Disk.mem_namesBelow_iff, Disk.mem_namesBelow_iff, saved.beside.kept]
  intro written member same
  obtain rfl : name = written := by simpa using same
  exact other member

/-- After some saves the last project under each name is listed, and whatever else was. -/
theorem mem_listed_iff (saved : Saved disk later dir location projects) (tree : disk.IsTree)
    (named : dir ≠ "") (leads : disk.locate dir = .ok location)
    (writable : ∀ project ∈ projects, project.Writable) :
    summary ∈ listed now later dir location ↔
      (∃ name project, lastNamed? name projects = some project ∧
          summary = project.summary (documentName name)) ∨
        (summary ∈ listed now disk dir location ∧ summary.fileName ∉ documentNames projects) := by
  rw [Project.mem_listed_iff, Project.mem_listed_iff]
  constructor
  · rintro ⟨fileName, below, found⟩
    by_cases written : fileName ∈ documentNames projects
    · obtain ⟨project, member, rfl⟩ := List.mem_map.mp written
      obtain ⟨last, isLast⟩ := exists_lastNamed? member
      rw [saved.summaryOn?_last writable now isLast] at found
      exact Or.inl ⟨_, last, isLast, (Option.some.inj found).symm⟩
    · have isName := (saved.tree.of_entryAt? (Disk.mem_namesBelow_iff.mp below)).2
      refine Or.inr ⟨⟨fileName, (saved.mem_namesBelow_other written).mp below,
        (saved.summaryOn?_other named leads isName written).mp found⟩, ?_⟩
      rw [fileName_of_summaryOn? found]
      exact written
  · rintro (⟨name, project, last, rfl⟩ | ⟨⟨fileName, below, found⟩, other⟩)
    · obtain ⟨member, rfl⟩ := of_lastNamed?_eq_some last
      exact ⟨_, Disk.mem_namesBelow_of_readText named
        (isName_documentName (saved.usable project member)) (saved.beside.locate.mpr leads)
        (saved.last last), saved.summaryOn?_last writable now last⟩
    · rw [fileName_of_summaryOn? found] at other
      have isName := (tree.of_entryAt? (Disk.mem_namesBelow_iff.mp below)).2
      exact ⟨fileName, (saved.mem_namesBelow_other other).mpr below,
        (saved.summaryOn?_other named leads isName other).mpr found⟩

end Saved

/-- A directory that was not there before lists nothing: all that can stand in it was made with
it and is a directory. -/
theorem listed_of_fresh {ready : Disk} (tree : disk.IsTree) (readyTree : ready.IsTree)
    (grown : disk.Grows ready) (named : dir ≠ "") (leads : ready.locate dir = .ok location)
    (nothing : disk.entryAt? location = none) : listed now ready dir location = [] := by
  rw [List.eq_nil_iff_forall_not_mem]
  intro summary isListed
  obtain ⟨fileName, below, found⟩ := mem_listed_iff.mp isListed
  have stands := Disk.mem_namesBelow_iff.mp below
  have nothingBelow : disk.entryAt? (location ++ [fileName]) = none := by
    by_contra before
    have isDirectory := (tree.of_entryAt? before).1
    rw [nothing] at isDirectory
    cases isDirectory
  obtain ⟨-, project, reads, -⟩ := summaryOn?_eq_some_iff.mp found
  obtain ⟨text, reads, -⟩ := readOn_eq_ok_iff.mp reads
  obtain ⟨target, content, executable, goes, isFile, -⟩ := Disk.readText_eq_ok_iff.mp reads
  obtain ⟨above, same, -, rfl⟩ := Disk.locate_join named (readyTree.of_entryAt? stands).2 goes
  cases leads.symm.trans same
  cases grown.fresh _ _ nothingBelow isFile

/-- What is listed of a directory, in whatever order its names are delivered: one summary for each
document that is read, in order of the file names. -/
structure IsListing (now : Instant) (disk : Disk) (dir : String) (location : Location)
    (summaries : List Summary) : Prop where
  lists : ∀ other : Disk, other.home = disk.home → other.entries.Perm disk.entries →
    (list (m := StateM Disk) now dir).run.run other = (.ok summaries, other)
  ordered : summaries.Pairwise fun a b => a.fileName < b.fileName
  members : ∀ summary, summary ∈ summaries ↔ ∃ fileName ∈ disk.namesBelow location,
    Path.extension? fileName = some extension ∧
      ∃ project, readOn now disk (Path.join dir fileName) = .ok project ∧
        summary = project.summary fileName

theorem isListing_listed (tree : disk.IsTree) (now : Instant)
    (leads : disk.locate dir = .ok location) (stands : disk.entryAt? location = some .directory) :
    IsListing now disk dir location (listed now disk dir location) where
  lists := by
    intro other home delivered
    have alike := Disk.alike_of_perm tree.distinct home delivered
    rw [← listed_of_perm tree home delivered]
    exact run_list now ((alike.locate dir).trans leads) ((alike.entryAt? location).trans stands)
  ordered := listed_ordered tree now dir location
  members := fun summary => by simp only [mem_listed_iff, summaryOn?_eq_some_iff]

/-- What saving some projects into a directory does to what is listed of it. -/
structure ListsSaves (now : Instant) (disk later : Disk) (dir : String) (projects : List Project)
    (ready : Disk) (location : Location) (before after : List Summary) : Prop where
  /-- Beforehand the directory is made if it is not there. -/
  made : disk.ensureDirectory dir = (.ok (), ready)
  standing : disk.isDirectory dir = true → ready = disk
  grown : disk.Grows ready
  leads : ready.locate dir = .ok location
  started : IsListing now ready dir location before
  fresh : disk.entryAt? location = none → before = []
  /-- Nothing changes but the documents of the projects. -/
  beside : ready.Beside later location (documentNames projects)
  ended : IsListing now later dir location after
  members : ∀ summary, summary ∈ after ↔
    (∃ name project, lastNamed? name projects = some project ∧
        summary = ⟨project.name, documentName name, project.tracks,
          project.timeline.clips.length, project.files.length⟩) ∨
      (summary ∈ before ∧ summary.fileName ∉ documentNames projects)

/-- The first save makes the directory, and the rest is one run in a directory that is there. -/
theorem exists_listsSaves (tree : disk.IsTree) (now : Instant) (named : dir ≠ "")
    (nonempty : projects ≠ []) (writable : ∀ project ∈ projects, project.Writable)
    {paths : List String}
    (saves : (projects.mapM (save (m := StateM Disk) dir)).run.run disk = (.ok paths, later)) :
    ∃ ready location before after,
      ListsSaves now disk later dir projects ready location before after := by
  obtain ⟨first, rest, rfl⟩ := List.exists_cons_of_ne_nil nonempty
  obtain ⟨path, morePaths, between, saved, others, shape⟩ := run_mapM_cons_eq_ok_iff.mp saves
  obtain ⟨usable, rfl, ready, made, writes⟩ := save_eq_ok saved
  obtain ⟨location, leads, stands⟩ :=
    Disk.isDirectory_iff.mp (Disk.isDirectory_of_ensureDirectory named made)
  obtain ⟨readyTree, grown⟩ : ready.IsTree ∧ disk.Grows ready := by
    have ensured := tree.ensureFirst (Path.ancestors dir)
    rw [← Disk.ensureDirectory, made] at ensured
    exact ensured
  have again := Disk.ensureDirectory_of_isDirectory
    (Disk.isDirectory_iff.mpr ⟨location, leads, stands⟩)
  have savesReady : ((first :: rest).mapM (save (m := StateM Disk) dir)).run.run ready =
      (.ok paths, later) :=
    run_mapM_cons_eq_ok_iff.mpr
      ⟨_, morePaths, between, run_save usable again writes, others, shape⟩
  have allSaved := Saved.run readyTree named leads stands savesReady
  refine ⟨ready, location, listed now ready dir location, listed now later dir location, made, ?_,
    grown, leads, isListing_listed readyTree now leads stands,
    listed_of_fresh tree readyTree grown named leads, allSaved.beside,
    isListing_listed allSaved.tree now (allSaved.beside.locate.mpr leads)
      (allSaved.beside.entryAt?_dir.trans stands),
    fun summary => allSaved.mem_listed_iff readyTree named leads writable⟩
  intro isDirectory
  rw [Disk.ensureDirectory_of_isDirectory isDirectory] at made
  exact (Prod.mk.inj made).2.symm

/-- A save writes its document right into the directory. -/
theorem place_of_writeBytes {content : ByteArray} {kept : Disk} (usable : isFileName name = true)
    (writes : disk.writeBytes (documentPath dir name) content false = .ok kept) :
    ∃ location flag, (disk.locate dir = .ok location ∨ dir = "" ∧ location = disk.home) ∧
      disk.entryAt? location = some .directory ∧
      kept = disk.place (location ++ [documentName name]) (.file content flag) := by
  obtain ⟨target, flag, goes, -, -, rfl⟩ := Disk.writeBytes_eq_ok writes
  have isName := isName_documentName usable
  by_cases named : dir = ""
  · subst named
    have same : documentPath "" name = documentName name := by
      rw [documentPath_eq, Path.join, isName.isAbsolute_eq_false]
      exact String.empty_append
    rw [same] at goes
    obtain ⟨stands, rfl⟩ := Disk.locate_name isName goes
    exact ⟨disk.home, flag, Or.inr ⟨rfl, rfl⟩, stands, rfl⟩
  · obtain ⟨location, leads, stands, rfl⟩ := Disk.locate_join named isName goes
    exact ⟨location, flag, Or.inl leads, stands, rfl⟩

end Listings

/-! ## The listing and the saves -/

/-- A listing shows what stands in a directory, and after some saves it shows what was saved. A
name that cannot be a file name is refused, and any other is saved right in the directory. -/
theorem listing_reflects_saves (now : Instant) {disk : Disk} (tree : disk.IsTree) (dir : String) :
    (∀ location, disk.locate dir = .ok location → disk.entryAt? location = some .directory →
      ∃ summaries, IsListing now disk dir location summaries) ∧
    (disk.isDirectory dir = false →
      (list (m := StateM Disk) now dir).run.run disk = (.ok [], disk)) ∧
    (∀ savedAt name timeline catalog, savedAt.isValid = true → Storable timeline catalog →
      (capture savedAt name timeline catalog).Writable ∧
        (capture savedAt name timeline catalog).name = trimmedName name) ∧
    (∀ projects paths later, dir ≠ "" → projects ≠ [] →
      (∀ project ∈ projects, project.Writable) →
      (projects.mapM (save (m := StateM Disk) dir)).run.run disk = (.ok paths, later) →
      ∃ ready location before after,
        ListsSaves now disk later dir projects ready location before after) ∧
    (∀ project : Project, (trimmedName project.name = "" ∨ '/' ∈ (trimmedName project.name).toList ∨
        '\\' ∈ (trimmedName project.name).toList) →
      (save (m := StateM Disk) dir project).run.run disk =
        (.error (.path ("'" ++ project.name ++ "' is not usable as a project file name")), disk)) ∧
    (∀ (project : Project) ready kept, trimmedName project.name ≠ "" →
      '/' ∉ (trimmedName project.name).toList → '\\' ∉ (trimmedName project.name).toList →
      disk.ensureDirectory dir = (.ok (), ready) →
      ready.writeBytes (documentPath dir (trimmedName project.name)) project.document.toUTF8 false =
        .ok kept →
      (save (m := StateM Disk) dir project).run.run disk =
        (.ok (documentPath dir (trimmedName project.name)), kept) ∧
      ∃ location flag, (ready.locate dir = .ok location ∨ dir = "" ∧ location = ready.home) ∧
        ready.entryAt? location = some .directory ∧
        kept = ready.place (location ++ [documentName (trimmedName project.name)])
          (.file project.document.toUTF8 flag)) := by
  refine ⟨?_, run_list_of_missing now, ?_, ?_, ?_, ?_⟩
  · intro location leads stands
    exact ⟨_, isListing_listed tree now leads stands⟩
  · intro savedAt name timeline catalog valid storable
    exact ⟨capture_writable name storable valid, rfl⟩
  · intro projects paths later named nonempty writable saves
    exact exists_listsSaves tree now named nonempty writable saves
  · intro project unusable
    have refused : isFileName (trimmedName project.name) = false := by
      rw [← Bool.not_eq_true, isFileName_iff]
      rintro ⟨filled, noSlash, noBackslash⟩
      rcases unusable with empty | slash | backslash
      · exact filled empty
      · exact noSlash slash
      · exact noBackslash backslash
    rw [save_of_unusable refused]
    rfl
  · intro project ready kept filled noSlash noBackslash made writes
    have usable := isFileName_iff.mpr ⟨filled, noSlash, noBackslash⟩
    exact ⟨run_save usable made writes, place_of_writeBytes usable writes⟩

/-! Two saves under one name into a directory with an unreadable document. -/

def shelf : Disk where
  home := []
  entries := [(["projects", "broken.spliceproj"], .file ⟨#[]⟩ false), (["projects"], .directory)]

theorem shelf_isTree : shelf.IsTree where
  home := rfl
  distinct := by decide
  inside := by
    simp only [shelf, List.forall_mem_cons]
    exact ⟨⟨["projects"], "broken.spliceproj", rfl, rfl, by decide, by decide, by decide, by decide⟩,
      ⟨[], "projects", rfl, rfl, by decide, by decide, by decide, by decide⟩, nofun⟩

theorem voiceOver_storable : Storable voiceOver recordings :=
  ⟨Catalog.isIndexed_ofAssets _, by decide +kernel, by decide, by decide +kernel⟩

/-- The voice-over with all its clips cut. -/
def silence : Timeline Float := { voiceOver with clips := [] }

theorem silence_storable : Storable silence recordings :=
  ⟨Catalog.isIndexed_ofAssets _, by decide +kernel, nofun, by decide +kernel⟩

/-- A save whose path is known. -/
theorem run_save_as {disk ready kept : Disk} {dir path : String} {project : Project}
    (usable : isFileName (trimmedName project.name) = true)
    (path_eq : documentPath dir (trimmedName project.name) = path)
    (made : disk.ensureDirectory dir = (.ok (), ready))
    (writes : ready.writeBytes path project.document.toUTF8 false = .ok kept) :
    (save (m := StateM Disk) dir project).run.run disk = (.ok path, kept) := by
  subst path_eq
  exact run_save usable made writes

theorem shelf_lists_last : ∃ later summaries,
    ([capture .epoch " Demo" voiceOver recordings, capture .epoch "Demo " silence recordings].mapM
        (save (m := StateM Disk) "projects")).run.run shelf =
      (.ok ["projects/Demo.spliceproj", "projects/Demo.spliceproj"], later) ∧
    (list (m := StateM Disk) .epoch "projects").run.run later = (.ok summaries, later) ∧
    ⟨"Demo", "Demo.spliceproj", 1, 0, 0⟩ ∈ summaries := by
  have path : documentPath "projects" "Demo" = "projects/Demo.spliceproj" := by decide +kernel
  have places (content : ByteArray) : shelf.writeBytes "projects/Demo.spliceproj" content false =
      .ok (shelf.place ["projects", "Demo.spliceproj"] (.file content false)) := rfl
  have replaces (old content : ByteArray) :
      (shelf.place ["projects", "Demo.spliceproj"] (.file old false)).writeBytes
          "projects/Demo.spliceproj" content false =
        .ok ((shelf.place ["projects", "Demo.spliceproj"] (.file old false)).place
          ["projects", "Demo.spliceproj"] (.file content false)) := rfl
  obtain ⟨later, saves⟩ : ∃ later,
      ([capture .epoch " Demo" voiceOver recordings, capture .epoch "Demo " silence recordings].mapM
        (save (m := StateM Disk) "projects")).run.run shelf =
      (.ok ["projects/Demo.spliceproj", "projects/Demo.spliceproj"], later) :=
    ⟨_, run_mapM_cons_eq_ok_iff.mpr ⟨_, _, _, run_save_as (by decide) path rfl (places _),
      run_mapM_cons_eq_ok_iff.mpr ⟨_, _, _, run_save_as (by decide) path rfl (replaces _ _),
        rfl, rfl⟩, rfl⟩⟩
  have writable : ∀ project ∈ [capture .epoch " Demo" voiceOver recordings,
      capture .epoch "Demo " silence recordings], project.Writable := by
    simp only [List.forall_mem_cons]
    exact ⟨capture_writable " Demo" voiceOver_storable (by decide),
      capture_writable "Demo " silence_storable (by decide), nofun⟩
  obtain ⟨-, -, -, listsSaves, -⟩ := listing_reflects_saves .epoch shelf_isTree "projects"
  obtain ⟨ready, location, before, after, lists⟩ :=
    listsSaves _ _ later (by decide) (List.cons_ne_nil _ _) writable saves
  refine ⟨later, after, saves, lists.ended.lists later rfl (.refl _), (lists.members _).mpr ?_⟩
  exact Or.inl ⟨"Demo", capture .epoch "Demo " silence recordings, rfl, rfl⟩

/-- Saving into the empty path saves into the home directory, but no directory has the empty path. -/
theorem empty_path_lists_nothing : (capture .epoch "Demo" voiceOver recordings).Writable ∧
    ∃ kept : Disk,
      (save (m := StateM Disk) "" (capture .epoch "Demo" voiceOver recordings)).run.run workshop =
        (.ok "Demo.spliceproj", kept) ∧
      kept.entryAt? ["Demo.spliceproj"] ≠ none ∧
      (list (m := StateM Disk) .epoch "").run.run kept = (.ok [], kept) := by
  have path : documentPath "" "Demo" = "Demo.spliceproj" := by decide +kernel
  have places (content : ByteArray) : workshop.writeBytes "Demo.spliceproj" content false =
      .ok (workshop.place ["Demo.spliceproj"] (.file content false)) := rfl
  refine ⟨capture_writable "Demo" voiceOver_storable (by decide), _,
    run_save_as (by decide) path rfl (places _), ?_, run_list_of_missing .epoch rfl⟩
  rw [Disk.entryAt?_place_self (by decide)]
  exact Option.some_ne_none _

end Project

end Montage
