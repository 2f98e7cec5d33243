import Montage.Project.Document
import Montage.Proofs.Json.Fields
import Montage.Proofs.Media.IdMap
import Montage.Proofs.Project.InstantText

/-!
Contract: projects are read back from their JSON form.

Each record is a list of fields, so what is found for a field is what was
written for it. The members of the timeline stand among those of the project and
are told apart by their keys. What the literal of a number is read as is left
open: a record is read back with its numbers replaced by what they are read as,
and as it is when that changes none of them.

Owns: the fields of clips, files, timelines and projects, and their round trips.
Does not own: the text of the document, in `Proofs.Json.Reading`, and files.
-/

namespace Montage

open Montage.Media
open Montage.Json (Slot IsKept IsWritten ReadsAs ofText ofNat ofFloat memberIfSome written)

theorem wordLimit_lt : wordLimit < 2 ^ 52 := by decide

-- What the literals of numbers are read as.
variable {f : Float → Float}

/-! ## Clips -/

namespace Clip

variable {clip : Clip Float}

def fields (clip : Clip Float) : List (String × Option Json) :=
  [("fileId", some clip.fileId.toJson), ("offset", some (ofFloat clip.offset)),
    ("trimStart", clip.trimStart.map ofFloat), ("trimEnd", clip.trimEnd.map ofFloat),
    ("speed", some (ofFloat clip.speed)), ("volume", some (ofFloat clip.volume)),
    ("track", some (ofNat clip.track))]

/-- A clip whose numbers can be stored and are read back as they are. -/
structure IsStored (clip : Clip Float) : Prop where
  offset : IsKept clip.offset
  trimStart : ∀ x ∈ clip.trimStart, IsKept x
  trimEnd : ∀ x ∈ clip.trimEnd, IsKept x
  speed : IsKept clip.speed
  volume : IsKept clip.volume
  track : clip.track ≤ wordLimit

def numbers (clip : Clip Float) : List Float :=
  clip.offset :: clip.speed :: clip.volume :: (clip.trimStart.toList ++ clip.trimEnd.toList)

/-- The whole number of a clip has 32 bits. -/
def Fits (clip : Clip Float) : Prop := clip.track ≤ wordLimit

theorem forall_mem_numbers {P : Float → Prop} : (∀ x ∈ clip.numbers, P x) ↔
    P clip.offset ∧ P clip.speed ∧ P clip.volume ∧ (∀ x ∈ clip.trimStart, P x) ∧
      ∀ x ∈ clip.trimEnd, P x := by
  simp only [numbers, List.forall_mem_cons, List.forall_mem_append, Option.mem_toList,
    Option.mem_def]

theorem isStored_of_fits (fits : clip.Fits) (kept : ∀ x ∈ clip.numbers, IsKept x) :
    clip.IsStored := by
  obtain ⟨offset, speed, volume, trimStart, trimEnd⟩ := forall_mem_numbers.mp kept
  exact ⟨offset, trimStart, trimEnd, speed, volume, fits⟩

theorem IsStored.kept (stored : clip.IsStored) : ∀ x ∈ clip.numbers, IsKept x :=
  forall_mem_numbers.mpr
    ⟨stored.offset, stored.speed, stored.volume, stored.trimStart, stored.trimEnd⟩

/-- The clip with other numbers. -/
def mapNumbers (f : Float → Float) (clip : Clip Float) : Clip Float :=
  { clip with
    offset := f clip.offset
    trimStart := clip.trimStart.map f
    trimEnd := clip.trimEnd.map f
    speed := f clip.speed
    volume := f clip.volume }

theorem mapNumbers_id (clip : Clip Float) : clip.mapNumbers id = clip := by
  simp [mapNumbers]

theorem toJson_eq (clip : Clip Float) : clip.toJson = .object (written clip.fields) := by
  simp [toJson, fields, memberIfSome]

theorem isWritten_toJson (clip : Clip Float) : clip.toJson.IsWritten := by
  rw [toJson_eq]
  apply Json.isWritten_written
  simp [fields, FileId.toJson, Json.isWritten_ofText, Json.isWritten_ofFloat, Json.isWritten_ofNat]

theorem isReadable_toJson (fits : clip.Fits) (reads : ∀ x ∈ clip.numbers, ReadsAs x (f x))
    (depth : Nat) : Json.isReadable (depth + 1) clip.toJson = true := by
  obtain ⟨offset, speed, volume, trimStart, trimEnd⟩ := forall_mem_numbers.mp reads
  have fromStart : ∀ x, clip.trimStart = some x → Json.isReadable depth (ofFloat x) = true :=
    fun x given => (trimStart x given).isReadable depth
  have toEnd : ∀ x, clip.trimEnd = some x → Json.isReadable depth (ofFloat x) = true :=
    fun x given => (trimEnd x given).isReadable depth
  have track := Json.isReadable_ofNat depth (Nat.lt_of_le_of_lt fits wordLimit_lt)
  rw [toJson_eq]
  apply Json.isReadable_written
  simpa [fields, FileId.toJson, Json.isReadable_ofText, offset.isReadable, speed.isReadable,
    volume.isReadable, track] using And.intro fromStart toEnd

theorem ofJson?_toJson_map (fits : clip.Fits) (reads : ∀ x ∈ clip.numbers, ReadsAs x (f x)) :
    ofJson? clip.toJson = some (clip.mapNumbers f) := by
  obtain ⟨offset, speed, volume, trimStart, trimEnd⟩ := forall_mem_numbers.mp reads
  unfold ReadsAs at offset speed volume
  have found : clip.toJson.slots? fieldNames =
      some (clip.fields.map fun field => Slot.ofOption field.2) := by
    rw [toJson_eq]
    exact Json.slots?_written rfl (by decide)
  rw [ofJson?, found, Option.bind_some]
  simp [fields, ofSlots?, FileId.ofJson?, FileId.toJson, offset, speed, volume, mapNumbers,
    Slot.withDefault_float trimStart, Slot.withDefault_float trimEnd, Json.nat?_ofNat fits]

theorem ofJson?_toJson (stored : clip.IsStored) : ofJson? clip.toJson = some clip := by
  have reads := ofJson?_toJson_map (f := id) stored.track stored.kept
  rwa [mapNumbers_id] at reads

end Clip

/-! ## Files -/

namespace Media.Asset

variable {asset : Asset Float}

def fields (asset : Asset Float) : List (String × Option Json) :=
  [("id", some asset.id.toJson), ("path", some (ofText asset.path)),
    ("name", some (ofText asset.name)), ("duration", some (ofFloat asset.duration)),
    ("hasVideo", some (.bool asset.hasVideo)), ("hasAudio", some (.bool asset.hasAudio)),
    ("width", some (ofNat asset.width)), ("height", some (ofNat asset.height))]

/-- A file whose numbers can be stored and are read back as they are. -/
structure IsStored (asset : Asset Float) : Prop where
  duration : IsKept asset.duration
  width : asset.width ≤ wordLimit
  height : asset.height ≤ wordLimit

/-- The whole numbers of a file have 32 bits. -/
def Fits (asset : Asset Float) : Prop := asset.width ≤ wordLimit ∧ asset.height ≤ wordLimit

theorem isStored_of_fits (fits : asset.Fits) (kept : IsKept asset.duration) : asset.IsStored :=
  ⟨kept, fits.1, fits.2⟩

theorem toJson_eq (asset : Asset Float) : asset.toJson = .object (written asset.fields) := by
  simp [toJson, fields, memberIfSome]

theorem isWritten_toJson (asset : Asset Float) : asset.toJson.IsWritten := by
  rw [toJson_eq]
  apply Json.isWritten_written
  simp [fields, FileId.toJson, Json.isWritten_ofText, Json.isWritten_ofFloat, Json.isWritten_ofNat,
    Json.isWritten_bool]

/-- The file with another duration. -/
def mapNumbers (f : Float → Float) (asset : Asset Float) : Asset Float :=
  { asset with duration := f asset.duration }

theorem ofJson?_toJson_map (fits : asset.Fits) (reads : ReadsAs asset.duration (f asset.duration)) :
    ofJson? asset.toJson = some (asset.mapNumbers f) := by
  unfold ReadsAs at reads
  have found : asset.toJson.slots? fieldNames =
      some (asset.fields.map fun field => Slot.ofOption field.2) := by
    rw [toJson_eq]
    exact Json.slots?_written rfl (by decide)
  rw [ofJson?, found, Option.bind_some]
  simp [fields, ofSlots?, FileId.ofJson?, FileId.toJson, Json.bool?, reads, mapNumbers,
    Json.nat?_ofNat fits.1, Json.nat?_ofNat fits.2]

theorem ofJson?_toJson (stored : asset.IsStored) : ofJson? asset.toJson = some asset :=
  ofJson?_toJson_map (f := fun x => x) ⟨stored.width, stored.height⟩ stored.duration

end Media.Asset

/-! ## Timelines -/

namespace Timeline

variable {timeline : Timeline Float}

def fields (timeline : Timeline Float) : List (String × Option Json) :=
  [("clips", some (.array (timeline.clips.map Clip.toJson))),
    ("duration", timeline.duration.map ofFloat), ("format", some timeline.format.toJson)]

/-- A timeline whose numbers can be stored and are read back as they are. -/
structure IsStored (timeline : Timeline Float) : Prop where
  clips : ∀ clip ∈ timeline.clips, clip.IsStored
  duration : ∀ x ∈ timeline.duration, IsKept x

def numbers (timeline : Timeline Float) : List Float :=
  timeline.clips.flatMap Clip.numbers ++ timeline.duration.toList

def Fits (timeline : Timeline Float) : Prop := ∀ clip ∈ timeline.clips, clip.Fits

theorem isStored_of_fits (fits : timeline.Fits) (kept : ∀ x ∈ timeline.numbers, IsKept x) :
    timeline.IsStored where
  clips := by
    intro clip member
    refine Clip.isStored_of_fits (fits clip member) fun x inClip => kept x ?_
    exact List.mem_append_left _ (List.mem_flatMap.mpr ⟨clip, member, inClip⟩)
  duration := by
    intro x given
    exact kept x (List.mem_append_right _ (Option.mem_toList.mpr given))

theorem IsStored.fits (stored : timeline.IsStored) : timeline.Fits :=
  fun clip member => (stored.clips clip member).track

theorem IsStored.kept (stored : timeline.IsStored) : ∀ x ∈ timeline.numbers, IsKept x := by
  simp only [numbers, List.forall_mem_append, List.mem_flatMap, Option.mem_toList]
  refine ⟨?_, stored.duration⟩
  rintro x ⟨clip, member, inClip⟩
  exact (stored.clips clip member).kept x inClip

/-- The timeline with other numbers. -/
def mapNumbers (f : Float → Float) (timeline : Timeline Float) : Timeline Float :=
  { timeline with
    clips := timeline.clips.map (Clip.mapNumbers f)
    duration := timeline.duration.map f }

theorem mapNumbers_id (timeline : Timeline Float) : timeline.mapNumbers id = timeline := by
  have same : Clip.mapNumbers id = id := funext Clip.mapNumbers_id
  simp [mapNumbers, same]

theorem reads_clip (reads : ∀ x ∈ timeline.numbers, ReadsAs x (f x)) {clip : Clip Float}
    (member : clip ∈ timeline.clips) : ∀ x ∈ clip.numbers, ReadsAs x (f x) :=
  fun x inClip =>
    reads x (List.mem_append_left _ (List.mem_flatMap.mpr ⟨clip, member, inClip⟩))

theorem reads_duration (reads : ∀ x ∈ timeline.numbers, ReadsAs x (f x)) :
    ∀ x ∈ timeline.duration, ReadsAs x (f x) :=
  fun x given => reads x (List.mem_append_right _ (Option.mem_toList.mpr given))

theorem members_eq (timeline : Timeline Float) : timeline.members = written timeline.fields := by
  simp [members, fields, memberIfSome]

theorem isWritten_fields (timeline : Timeline Float) :
    ∀ field ∈ timeline.fields, ∀ v ∈ field.2, v.IsWritten := by
  have clips : (Json.array (timeline.clips.map Clip.toJson)).IsWritten := by
    apply Json.isWritten_array
    intro v member
    obtain ⟨clip, -, rfl⟩ := List.mem_map.mp member
    exact clip.isWritten_toJson
  simp [fields, OutputFormat.toJson, clips, Json.isWritten_ofFloat, Json.isWritten_ofText]

/-- The clips nest two levels deep. -/
theorem isReadable_fields (fits : timeline.Fits) (reads : ∀ x ∈ timeline.numbers, ReadsAs x (f x))
    (depth : Nat) : ∀ field ∈ timeline.fields, ∀ v ∈ field.2, Json.isReadable (depth + 2) v = true := by
  have clips : Json.isReadable (depth + 2) (.array (timeline.clips.map Clip.toJson)) = true := by
    rw [Json.isReadable]
    apply List.all_eq_true.mpr
    intro v member
    obtain ⟨clip, inClips, rfl⟩ := List.mem_map.mp member
    exact Clip.isReadable_toJson (fits clip inClips) (reads_clip reads inClips) depth
  have duration : ∀ x, timeline.duration = some x →
      Json.isReadable (depth + 2) (ofFloat x) = true :=
    fun x given => (reads_duration reads x given).isReadable (depth + 2)
  simpa [fields, OutputFormat.toJson, clips, Json.isReadable_ofText] using duration

theorem ofExtension?_extension (format : OutputFormat) :
    OutputFormat.ofExtension? format.extension = some format := by
  cases format <;> decide

theorem ofSlots?_fields (fits : timeline.Fits) (reads : ∀ x ∈ timeline.numbers, ReadsAs x (f x))
    (isEmpty : Json → Bool) :
    ofSlots? isEmpty (timeline.fields.map fun field => Slot.ofOption field.2) =
      some (timeline.mapNumbers f) := by
  have clips : Json.list? Clip.ofJson? (.array (timeline.clips.map Clip.toJson)) =
      some (timeline.clips.map (Clip.mapNumbers f)) :=
    Json.mapM_map fun clip member =>
      Clip.ofJson?_toJson_map (fits clip member) (reads_clip reads member)
  have format : OutputFormat.ofJson? isEmpty timeline.format.toJson = some timeline.format :=
    ofExtension?_extension timeline.format
  simp [fields, ofSlots?, clips, format, mapNumbers, Slot.withDefault_float (reads_duration reads)]

theorem isWritten_toJson (timeline : Timeline Float) : timeline.toJson.IsWritten := by
  rw [toJson, members_eq]
  exact Json.isWritten_written timeline.isWritten_fields

theorem slots?_toJson (timeline : Timeline Float) : timeline.toJson.slots? fieldNames =
    some (timeline.fields.map fun field => Slot.ofOption field.2) := by
  rw [toJson, members_eq]
  exact Json.slots?_written rfl (by decide)

theorem ofJson?_toJson (stored : timeline.IsStored) : ofJson? timeline.toJson = some timeline := by
  rw [ofJson?, slots?_toJson, Option.bind_some, ofSlots?_fields (f := id) stored.fits stored.kept,
    mapNumbers_id]

end Timeline

/-! ## Projects -/

def Media.Catalog.numbers (catalog : Catalog Float) : List Float :=
  catalog.assets.map Asset.duration

namespace Project

variable {project : Project}

def filesJson (project : Project) : Json :=
  .object (project.files.map fun entry => (some entry.1.text, entry.2.toJson))

def headFields (project : Project) : List (String × Option Json) :=
  [("version", some (ofNat project.version)), ("name", some (ofText project.name)),
    ("savedAt", some (ofText project.savedAt.text)), ("files", some project.filesJson)]

def tracksField (project : Project) : String × Option Json :=
  ("tracks", some (ofNat project.tracks))

def fields (project : Project) : List (String × Option Json) :=
  project.headFields ++ (project.timeline.fields ++ [project.tracksField])

/-- A project that can be stored and is read back as it is. -/
structure IsStored (project : Project) : Prop where
  version : project.version ≤ wordLimit
  savedAt : project.savedAt.isValid = true
  sorted : IdMap.Sorted project.files
  files : ∀ entry ∈ project.files, entry.2.IsStored
  timeline : project.timeline.IsStored
  tracks : project.tracks ≤ wordLimit

/-- The numbers that stand in the document of a project. -/
def numbers (project : Project) : List Float :=
  project.timeline.numbers ++ Catalog.numbers project.files

/-- A project as the program holds it: whole numbers have 32 bits, the date exists, and no two
files have one id. -/
structure Fits (project : Project) : Prop where
  version : project.version ≤ wordLimit
  savedAt : project.savedAt.isValid = true
  sorted : IdMap.Sorted project.files
  files : ∀ entry ∈ project.files, entry.2.Fits
  timeline : project.timeline.Fits
  tracks : project.tracks ≤ wordLimit

theorem isStored_of_fits (fits : project.Fits) (kept : ∀ x ∈ project.numbers, IsKept x) :
    project.IsStored where
  version := fits.version
  savedAt := fits.savedAt
  sorted := fits.sorted
  files := by
    intro entry member
    refine Asset.isStored_of_fits (fits.files entry member) (kept _ ?_)
    exact List.mem_append_right _ (List.mem_map_of_mem (List.mem_map_of_mem member))
  timeline := Timeline.isStored_of_fits fits.timeline fun x member =>
    kept x (List.mem_append_left _ member)
  tracks := fits.tracks

theorem IsStored.fits (stored : project.IsStored) : project.Fits where
  version := stored.version
  savedAt := stored.savedAt
  sorted := stored.sorted
  files := fun entry member => ⟨(stored.files entry member).width, (stored.files entry member).height⟩
  timeline := stored.timeline.fits
  tracks := stored.tracks

theorem IsStored.kept (stored : project.IsStored) : ∀ x ∈ project.numbers, IsKept x := by
  refine List.forall_mem_append.mpr ⟨stored.timeline.kept, ?_⟩
  simp only [Catalog.numbers, Catalog.assets, List.map_map, List.forall_mem_map]
  exact fun entry member => (stored.files entry member).duration

/-- The project with other numbers. -/
def mapNumbers (f : Float → Float) (project : Project) : Project :=
  { project with
    files := project.files.map fun entry => (entry.1, entry.2.mapNumbers f)
    timeline := project.timeline.mapNumbers f }

theorem mapNumbers_id (project : Project) : project.mapNumbers id = project := by
  simp [mapNumbers, Timeline.mapNumbers_id, Asset.mapNumbers]

theorem sorted_mapNumbers (sorted : IdMap.Sorted project.files) :
    IdMap.Sorted (project.mapNumbers f).files :=
  List.pairwise_map.mpr sorted

theorem reads_file (reads : ∀ x ∈ project.numbers, ReadsAs x (f x)) {entry : FileId × Asset Float}
    (member : entry ∈ project.files) : ReadsAs entry.2.duration (f entry.2.duration) :=
  reads _ (List.mem_append_right _ (List.mem_map_of_mem (List.mem_map_of_mem member)))

theorem toJson_eq (project : Project) : project.toJson = .object (written project.fields) := by
  simp [toJson, fields, headFields, tracksField, filesJson, Timeline.members_eq, Timeline.fields,
    memberIfSome]

theorem isWritten_toJson (project : Project) : project.toJson.IsWritten := by
  have files : project.filesJson.IsWritten := by
    apply Json.isWritten_object
    intro m member
    obtain ⟨entry, -, rfl⟩ := List.mem_map.mp member
    exact entry.2.isWritten_toJson
  have head : ∀ field ∈ project.headFields, ∀ v ∈ field.2, v.IsWritten := by
    simp [headFields, files, Json.isWritten_ofNat, Json.isWritten_ofText]
  have tracks : ∀ v ∈ project.tracksField.2, v.IsWritten := by
    simp [tracksField, Json.isWritten_ofNat]
  rw [toJson_eq]
  apply Json.isWritten_written
  intro field member
  rw [fields, List.mem_append, List.mem_append, List.mem_singleton] at member
  rcases member with inHead | inTimeline | rfl
  · exact head field inHead
  · exact project.timeline.isWritten_fields field inTimeline
  · exact tracks

theorem filesOfJson?_filesJson (fits : project.Fits)
    (reads : ∀ x ∈ project.numbers, ReadsAs x (f x)) :
    filesOfJson? project.filesJson = some (project.mapNumbers f).files := by
  have entries : (project.files.map fun entry => (some entry.1.text, entry.2.toJson)).mapM
      fileOfMember? = some (project.mapNumbers f).files := by
    apply Json.mapM_map
    intro entry member
    have file := Asset.ofJson?_toJson_map (fits.files entry member) (reads_file reads member)
    simp [fileOfMember?, file]
  rw [filesJson, filesOfJson?, entries, Option.map_some,
    IdMap.ofList_of_sorted (sorted_mapNumbers fits.sorted)]

/-- The names of all fields are apart. -/
theorem distinct_fields (project : Project) : (project.fields.map Prod.fst).Nodup := by
  show (["version", "name", "savedAt", "files", "clips", "duration", "format", "tracks"]).Nodup
  decide

/-- A project is read from its JSON form with what its numbers are read as. -/
theorem ofJson?_toJson_map (fits : project.Fits) (reads : ∀ x ∈ project.numbers, ReadsAs x (f x))
    (now : Instant) : ofJson? now project.toJson = some (project.mapNumbers f) := by
  have ofTimelineNumbers : ∀ x ∈ project.timeline.numbers, ReadsAs x (f x) :=
    fun x member => reads x (List.mem_append_left _ member)
  have own : Json.objectSlots? fieldNames (written project.fields) =
      some ((project.headFields ++ [project.tracksField]).map fun field =>
        Slot.ofOption field.2) := by
    have names : (project.headFields ++ [project.tracksField]).map Prod.fst = fieldNames := rfl
    rw [← names]
    apply Json.objectSlots?_written project.distinct_fields
    intro field member
    simp only [fields, List.mem_append] at member ⊢
    tauto
  have others : (written project.fields).filter (fun m =>
      !(fieldNames.any fun name => m.1 == some name)) = written project.timeline.fields := by
    rw [Json.written_filter fun key => !(fieldNames.any fun name => key == some name)]
    rfl
  have ofTimeline : Json.objectSlots? Timeline.fieldNames (written project.timeline.fields) =
      some (project.timeline.fields.map fun field => Slot.ofOption field.2) := by
    rw [← Timeline.members_eq]
    exact project.timeline.slots?_toJson
  have readable : ((written project.timeline.fields).all fun m =>
      Json.isReadable bufferedDepth m.2) = true :=
    Json.all_isReadable (Timeline.isReadable_fields fits.timeline ofTimelineNumbers 124)
  have instant : instantOfJson? (ofText project.savedAt.text) = some project.savedAt :=
    Instant.read?_text fits.savedAt
  have timeline := Timeline.ofSlots?_fields fits.timeline ofTimelineNumbers isEmptyValue
  rw [toJson_eq, ofJson?]
  simp only [own, others, ofTimeline, timeline, readable, bind, Option.bind, ↓reduceIte]
  simp [headFields, tracksField, ofSlots?, instant, filesOfJson?_filesJson fits reads,
    Json.nat?_ofNat fits.version, Json.nat?_ofNat fits.tracks, mapNumbers]

/-- A project is read back from its JSON form. -/
theorem ofJson?_toJson (stored : project.IsStored) (now : Instant) :
    ofJson? now project.toJson = some project := by
  rw [ofJson?_toJson_map (f := id) stored.fits stored.kept now, mapNumbers_id]

end Project

end Montage
