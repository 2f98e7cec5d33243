import Montage.CommandLine.Commands
import Montage.CommandLine.Session
import Montage.Proofs.Files.Running
import Montage.Proofs.Media.IdMap
import Montage.Proofs.Media.StreamSummary
import Montage.Proofs.Timeline.EndToEnd

/-!
Contract: what files that can be probed compile to when they are laid end to end.

Every file is kept where it is stored and probed there, so a file that is named
twice gives the same record twice. The probed lengths are positive, but they are
kept to the millisecond: a length of less than half of one is kept as zero, and
a clip of a file without length is refused.

Owns: the records of a session's files, and `endToEnd_compiles_iff`.
Does not own: the lengths, in `Proofs.Media.Milliseconds`, and the clips, in
`Proofs.Timeline.EndToEnd`.
-/

namespace Montage.CommandLine

open Montage.Files
open Montage.Media
open Montage.Number
open Montage.Number.Binary64

/-! ## Probing -/

/-- What was made of the streams of a file has a positive length. -/
theorem isLength_of_summarize {path : String} {duration : Option Float} {streams : List Stream}
    {media : Probed Float} (summarized : summarize path duration streams = .ok media) :
    isLength media.duration = true := by
  unfold summarize at summarized
  split at summarized
  · next length isPositive =>
      obtain rfl := Except.ok.inj summarized
      rw [(summarizes_foldl length streams).duration]
      exact (Option.filter_eq_some_iff.mp isPositive).2
  · cases summarized

theorem isProbedLength_of_isLength {length : Float} (isLength : isLength length = true)
    (short : length ≤ (1000000000.0 : Float)) : IsProbedLength length := by
  simp only [Media.isLength, Bool.and_eq_true, decide_eq_true_eq] at isLength
  exact ⟨isLength.1, isLength.2, short⟩

/-! ## The records of files -/

/-- Where a file of a disk is kept. -/
def storedOn (disk : Disk) (file : String) : Except Error String :=
  match disk.canonical? file with
  | some canonical => .ok canonical
  | none =>
    if file.isEmpty then .error (.files .emptyPath)
    else .ok (Path.absolute (Disk.pathOf disk.home) file)

variable {session : Session} {files : List String}

theorem run_storagePath (session : Session) (file : String) :
    (storagePath (m := StateM Session) file).run.run session =
      (storedOn session.disk file, session) := by
  have asked : (liftM (FileSystem.canonical? file : StateM Session (Option String)) :
      ExceptT Error (StateM Session) (Option String)).run.run session =
        (.ok (session.disk.canonical? file), session) := rfl
  unfold storagePath storedOn
  rw [run_bind asked]
  cases session.disk.canonical? file with
  | some canonical => rfl
  | none => cases file.isEmpty <;> rfl

/-- The record a file gets in a session. -/
def IsRecordOf (session : Session) (file : String) (asset : Asset Float) : Prop :=
  ∃ path media, storedOn session.disk file = .ok path ∧ session.probe path = .ok media ∧
    asset = Asset.ofProbe path media

theorem run_ingest {file : String} {asset : Asset Float} (recorded : IsRecordOf session file asset)
    (catalog : Catalog Float) :
    (Catalog.ingest (m := StateM Session) storagePath probeStored catalog file).run.run session =
      (.ok (asset, Catalog.insert asset catalog), session) := by
  obtain ⟨path, media, stored, probed, rfl⟩ := recorded
  have found := run_storagePath session file
  rw [stored] at found
  have answered : (probeStored (m := StateM Session) path).run.run session =
      (.ok media, session) :=
    congrArg (·, session) probed
  unfold Catalog.ingest
  rw [run_bind found, run_bind answered]
  rfl

/-- Files that all have a record are taken in one after the other. -/
theorem run_ingestAll (recorded : ∀ file ∈ files, ∃ asset, IsRecordOf session file asset)
    (catalog : Catalog Float) :
    ∃ assets, List.Forall₂ (IsRecordOf session) files assets ∧
      (Catalog.ingestAll (m := StateM Session) storagePath probeStored catalog files).run.run
          session =
        (.ok (assets, assets.foldl (fun kept asset => Catalog.insert asset kept) catalog),
          session) := by
  induction files generalizing catalog with
  | nil => exact ⟨[], .nil, rfl⟩
  | cons file rest inductionHypothesis =>
      rw [List.forall_mem_cons] at recorded
      obtain ⟨asset, first⟩ := recorded.1
      obtain ⟨assets, others, ingested⟩ :=
        inductionHypothesis recorded.2 (Catalog.insert asset catalog)
      refine ⟨asset :: assets, .cons first others, ?_⟩
      rw [Catalog.ingestAll, run_bind (run_ingest first catalog), run_bind ingested]
      rfl

theorem exists_file {assets : List (Asset Float)}
    (recorded : List.Forall₂ (IsRecordOf session) files assets) :
    ∀ asset ∈ assets, ∃ file ∈ files, IsRecordOf session file asset := by
  induction recorded with
  | nil => exact fun asset member => absurd member List.not_mem_nil
  | @cons file asset files assets first others inductionHypothesis =>
      rw [List.forall_mem_cons]
      refine ⟨⟨file, List.mem_cons_self, first⟩, fun other member => ?_⟩
      obtain ⟨its, inFiles, isRecord⟩ := inductionHypothesis other member
      exact ⟨its, List.mem_cons_of_mem file inFiles, isRecord⟩

theorem exists_record {assets : List (Asset Float)}
    (recorded : List.Forall₂ (IsRecordOf session) files assets) :
    ∀ file ∈ files, ∃ asset ∈ assets, IsRecordOf session file asset := by
  induction recorded with
  | nil => exact fun file member => absurd member List.not_mem_nil
  | @cons file asset files assets first others inductionHypothesis =>
      rw [List.forall_mem_cons]
      refine ⟨⟨asset, List.mem_cons_self, first⟩, fun other member => ?_⟩
      obtain ⟨its, inAssets, isRecord⟩ := inductionHypothesis other member
      exact ⟨its, List.mem_cons_of_mem asset inAssets, isRecord⟩

/-- In a catalog of records, of which no two differ under one id, each is found under its id. -/
theorem get?_ofAssets {assets : List (Asset Float)}
    (agree : ∀ a ∈ assets, ∀ b ∈ assets, a.id = b.id → a = b) :
    ∀ asset ∈ assets, IdMap.get? asset.id (Catalog.ofAssets assets) = some asset := by
  intro asset member
  have pairs : Catalog.ofAssets assets = IdMap.ofList (assets.map fun asset => (asset.id, asset)) := by
    rw [Catalog.ofAssets, IdMap.ofList, List.foldl_map]
    rfl
  have stored : (asset.id, asset) ∈ Catalog.ofAssets assets := by
    rw [pairs]
    refine (IdMap.mem_ofList ?_ _).mpr (List.mem_map_of_mem member)
    intro first inFirst second inSecond same
    obtain ⟨a, inAssets, rfl⟩ := List.mem_map.mp inFirst
    obtain ⟨b, alsoInAssets, rfl⟩ := List.mem_map.mp inSecond
    rw [agree a inAssets b alsoInAssets same]
  exact (Catalog.isIndexed_ofAssets assets).sorted.get?_of_mem stored

/-! ## Laid end to end -/

/-- Files that can all be probed: each is stored somewhere, and what was made of its streams is a
length up to a milliard seconds. No two places have one id. -/
structure Probeable (session : Session) (files : List String) : Prop where
  nonempty : files ≠ []
  probed : ∀ file ∈ files, ∃ path media, storedOn session.disk file = .ok path ∧
    session.probe path = .ok media ∧
    (∃ duration streams, summarize path duration streams = .ok media) ∧
    media.duration ≤ (1000000000.0 : Float)
  ids : ∀ first ∈ files, ∀ second ∈ files, ∀ path other,
    storedOn session.disk first = .ok path → storedOn session.disk second = .ok other →
      FileId.ofPath path = FileId.ofPath other → path = other

theorem Probeable.recorded (probeable : Probeable session files) :
    ∀ file ∈ files, ∃ asset, IsRecordOf session file asset := by
  intro file member
  obtain ⟨path, media, stored, probed, -⟩ := probeable.probed file member
  exact ⟨_, path, media, stored, probed, rfl⟩

/-- One place is probed once and for all, so records under one id are the same. -/
theorem Probeable.agree (probeable : Probeable session files) {assets : List (Asset Float)}
    (recorded : List.Forall₂ (IsRecordOf session) files assets) :
    ∀ a ∈ assets, ∀ b ∈ assets, a.id = b.id → a = b := by
  intro a inAssets b alsoInAssets sameId
  obtain ⟨first, inFiles, path, media, stored, probed, rfl⟩ := exists_file recorded a inAssets
  obtain ⟨second, alsoInFiles, other, otherMedia, otherStored, otherProbed, rfl⟩ :=
    exists_file recorded b alsoInAssets
  have samePath : path = other :=
    probeable.ids first inFiles second alsoInFiles path other stored otherStored sameId
  subst samePath
  rw [probed] at otherProbed
  rw [Except.ok.inj otherProbed]

/-- The record of a probed file has its length to the millisecond. -/
theorem Probeable.isShort (probeable : Probeable session files) {file : String}
    {asset : Asset Float} (member : file ∈ files) (recorded : IsRecordOf session file asset) :
    IsShort asset.duration ∧ (0 < (ofFloat asset.duration).value ↔
      ∀ path media, storedOn session.disk file = .ok path → session.probe path = .ok media →
        (0.0005 : Float) ≤ media.duration) := by
  obtain ⟨path, media, stored, probed, rfl⟩ := recorded
  obtain ⟨samePath, sameMedia, alsoStored, alsoProbed, ⟨duration, streams, summarized⟩, short⟩ :=
    probeable.probed file member
  have only : ∀ other, storedOn session.disk file = .ok other → other = path := by
    intro other found
    rw [stored] at found
    exact (Except.ok.inj found).symm
  obtain rfl := only samePath alsoStored
  have onlyMedia : ∀ other, session.probe samePath = .ok other → other = media := by
    intro other found
    rw [probed] at found
    exact (Except.ok.inj found).symm
  obtain rfl := onlyMedia sameMedia alsoProbed
  obtain ⟨isShort, positive⟩ := toMilliseconds_isShort
    (isProbedLength_of_isLength (isLength_of_summarize summarized) short)
  refine ⟨isShort, positive.trans ⟨fun long other otherMedia found answered => ?_, fun long => ?_⟩⟩
  · obtain rfl := only other found
    rwa [onlyMedia otherMedia answered]
  · exact long samePath sameMedia stored probed

/-- Some file is probed as a picture of these sides. -/
def ProbedSize (session : Session) (files : List String) (width height : Nat) : Prop :=
  ∃ file ∈ files, ∃ path media, storedOn session.disk file = .ok path ∧
    session.probe path = .ok media ∧ media.hasVideo = true ∧ media.width = width ∧
    media.height = height

theorem showsSize_of_recorded {assets : List (Asset Float)}
    (recorded : List.Forall₂ (IsRecordOf session) files assets) :
    ShowsSize assets = ProbedSize session files := by
  funext width height
  apply propext
  constructor
  · rintro ⟨asset, inAssets, seen⟩
    obtain ⟨file, inFiles, path, media, stored, probed, rfl⟩ := exists_file recorded asset inAssets
    exact ⟨file, inFiles, path, media, stored, probed, seen⟩
  · rintro ⟨file, inFiles, path, media, stored, probed, seen⟩
    obtain ⟨_, inAssets, other, otherMedia, alsoStored, alsoProbed, rfl⟩ :=
      exists_record recorded file inFiles
    obtain rfl := Except.ok.inj (stored.symm.trans alsoStored)
    obtain rfl := Except.ok.inj (probed.symm.trans alsoProbed)
    exact ⟨_, inAssets, seen⟩

/-- Files that can be probed are taken in and laid end to end. The timeline names known files only,
and in every build it compiles, unless there is nothing to put out, exactly when every file is at
least half a millisecond long and a build that checks its sums has room for the frame. -/
theorem endToEnd_compiles_iff (probeable : Probeable session files) :
    ∃ assets catalog, assets.length = files.length ∧
      (Catalog.ingestAll (m := StateM Session) storagePath probeStored .empty files).run.run
          session = (.ok (assets, catalog), session) ∧
      ∀ build, compileIn build (backToBack assets) catalog ≠ some (.error .noClips) ∧
        (∀ index id,
          compileIn build (backToBack assets) catalog ≠ some (.error (.unknownFile index id))) ∧
        ((∃ compiled, compileIn build (backToBack assets) catalog = some (.ok compiled)) ∨
            compileIn build (backToBack assets) catalog = some (.error .noOutputStreams) ↔
          (∀ file ∈ files, ∀ path media, storedOn session.disk file = .ok path →
            session.probe path = .ok media → (0.0005 : Float) ≤ media.duration) ∧
          (build = .checked → ¬ Overflows (ProbedSize session files))) := by
  obtain ⟨assets, recorded, ingested⟩ := run_ingestAll probeable.recorded .empty
  have nonempty : assets ≠ [] := by
    rintro rfl
    exact probeable.nonempty (List.length_eq_zero_iff.mp recorded.length_eq)
  have known := get?_ofAssets (probeable.agree recorded)
  have isShort : ∀ asset ∈ assets, IsShort asset.duration := by
    intro asset member
    obtain ⟨file, inFiles, isRecord⟩ := exists_file recorded asset member
    exact (probeable.isShort inFiles isRecord).1
  have long : (∀ asset ∈ assets, 0 < (ofFloat asset.duration).value) ↔
      ∀ file ∈ files, ∀ path media, storedOn session.disk file = .ok path →
        session.probe path = .ok media → (0.0005 : Float) ≤ media.duration := by
    constructor
    · intro positive file inFiles
      obtain ⟨asset, inAssets, isRecord⟩ := exists_record recorded file inFiles
      exact (probeable.isShort inFiles isRecord).2.mp (positive asset inAssets)
    · intro long asset inAssets
      obtain ⟨file, inFiles, isRecord⟩ := exists_file recorded asset inAssets
      exact (probeable.isShort inFiles isRecord).2.mpr (long file inFiles)
  refine ⟨assets, Catalog.ofAssets assets, recorded.length_eq.symm, ingested, fun build => ?_⟩
  refine ⟨compileIn_ne (compile_backToBack_ne_noClips nonempty) build,
    fun index id => compileIn_ne (compile_backToBack_ne_unknownFile known index id) build, ?_⟩
  rw [compileIn_backToBack_iff build nonempty known isShort, long, showsSize_of_recorded recorded]

/-! A recording on a disk, probed as lasting some time. -/

/-- A directory with one recording, which the prober finds this long. -/
def listening (length : Float) : Session where
  disk := { home := [], entries := [(["take.wav"], .file ⟨#[]⟩ false)] }
  printed := ""
  now := .epoch
  stamp := "19700101_000000"
  probe path := summarize path (some length) [⟨some "audio", some "pcm_s16le", none, none⟩]
  engine _ disk := (.crashesAtStart, disk)

theorem probe_listening {length : Float} (positive : isLength length = true) (path : String) :
    (listening length).probe path = .ok ⟨length, false, true, 0, 0⟩ := by
  have kept : (some length).filter isLength = some length := by simp [positive]
  simp only [listening, summarize, kept]
  rfl

theorem probeable_listening {length : Float} (positive : isLength length = true)
    (short : length ≤ (1000000000.0 : Float)) :
    Probeable (listening length) ["take.wav", "./take.wav"] := by
  have stored : ∀ file ∈ ["take.wav", "./take.wav"],
      storedOn (listening length).disk file = .ok "/take.wav" := by
    simp only [List.forall_mem_cons, List.not_mem_nil, false_implies, implies_true, and_true]
    exact ⟨rfl, rfl⟩
  refine ⟨List.cons_ne_nil _ _, ?_, ?_⟩
  · intro file member
    exact ⟨"/take.wav", _, stored file member, probe_listening positive "/take.wav",
      ⟨some length, _, probe_listening positive "/take.wav"⟩, short⟩
  · intro first inFiles second alsoInFiles path other found otherFound _
    rw [stored first inFiles] at found
    rw [stored second alsoInFiles] at otherFound
    rw [← Except.ok.inj found, ← Except.ok.inj otherFound]

theorem take_twice_compiles :
    Probeable (listening 12.5) ["take.wav", "./take.wav"] ∧
      ∃ assets catalog, assets.length = 2 ∧
        (Catalog.ingestAll (m := StateM Session) storagePath probeStored .empty
          ["take.wav", "./take.wav"]).run.run (listening 12.5) =
            (.ok (assets, catalog), listening 12.5) ∧
        ∀ build, (∃ compiled, compileIn build (backToBack assets) catalog = some (.ok compiled)) ∨
          compileIn build (backToBack assets) catalog = some (.error .noOutputStreams) := by
  have probeable : Probeable (listening 12.5) ["take.wav", "./take.wav"] :=
    probeable_listening (by decide) (by decide)
  obtain ⟨assets, catalog, count, ingested, compiles⟩ := endToEnd_compiles_iff probeable
  refine ⟨probeable, assets, catalog, count, ingested, fun build => ?_⟩
  refine (compiles build).2.2.mpr ⟨?_, fun _ overflows => ?_⟩
  · intro file inFiles path media stored probed
    rw [probe_listening (by decide)] at probed
    rw [← Except.ok.inj probed]
    decide
  · obtain ⟨_, _, ⟨file, inFiles, path, media, stored, probed, seen, -⟩, -⟩ := overflows.someWidth
    rw [probe_listening (by decide)] at probed
    rw [← Except.ok.inj probed] at seen
    cases seen

/-- A sound of four tenths of a millisecond is positive when it is probed and zero when it is kept. -/
theorem blip_is_refused :
    Probeable (listening 0.0004) ["take.wav", "./take.wav"] ∧
      ∃ assets catalog,
        (Catalog.ingestAll (m := StateM Session) storagePath probeStored .empty
          ["take.wav", "./take.wav"]).run.run (listening 0.0004) =
            (.ok (assets, catalog), listening 0.0004) ∧
        compile (backToBack assets) catalog = .error (.invalidClip 0 (.trimOrder 0.0 0.0)) := by
  have probeable : Probeable (listening 0.0004) ["take.wav", "./take.wav"] :=
    probeable_listening (by decide) (by decide)
  obtain ⟨assets, recorded, ingested⟩ := run_ingestAll probeable.recorded .empty
  refine ⟨probeable, assets, Catalog.ofAssets assets, ingested, ?_⟩
  have known := get?_ofAssets (probeable.agree recorded)
  cases recorded with
  | @cons _ asset _ others first _ =>
      obtain ⟨path, media, -, probed, rfl⟩ := first
      rw [probe_listening (by decide)] at probed
      obtain rfl := Except.ok.inj probed
      have rounded : toMilliseconds (0.0004 : Float) = 0.0 := by decide
      exact compile_backToBack_of_empty (known _ List.mem_cons_self) rounded others

end Montage.CommandLine
