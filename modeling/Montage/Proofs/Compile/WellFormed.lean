import Montage.Compile.Basic
import Montage.Proofs.Compile.Sides
import Montage.Proofs.Timeline.Placing
import Montage.Timeline.BackToBack

/-!
Contract: every compiled graph is well formed.

`compile_wellFormed` holds for every timeline and catalog that compile: labels
link up, results are the output labels and there is one, the picture stands
before the sound, joins count their sources, and streams are taken only from
files that have them.

Owns: well formed compilations.
Does not own: the two sides, in `Proofs.Compile.Sides`.
-/

namespace Montage

open Montage.Number
open Montage.Media
open Montage.Graph
open Montage.Compile (Side Resolution)

def Media.Asset.has {α : Type} (asset : Asset α) : StreamKind → Bool
  | .audio => asset.hasAudio
  | .video => asset.hasVideo

/-- The files of a timeline, each once, in the order of first use. -/
def Timeline.fileIds {α : Type} (timeline : Timeline α) : List FileId :=
  (timeline.clips.map (·.fileId)).eraseDups

namespace Compiled

variable {α : Type}

/-- An input is the file of an asset in the catalog that has a kind of stream. -/
def Supplies (timeline : Timeline α) (catalog : IdMap (Asset α)) (compiled : Compiled α)
    (index : Nat) (kind : StreamKind) : Prop :=
  ∃ id asset, timeline.fileIds[index]? = some id ∧ IdMap.get? id catalog = some asset ∧
    compiled.inputs[index]? = some asset.path ∧ asset.has kind = true

/-- A label is what some chain of the graph yields. -/
def YieldsAs (compiled : Compiled α) (kind : StreamKind) (label : Label) : Prop :=
  ∃ chain ∈ compiled.graph.chains, chain.output = label ∧ chain.Yields kind

/-- The promises of a compiled graph. -/
structure WellFormed (timeline : Timeline α) (catalog : IdMap (Asset α)) (compiled : Compiled α) :
    Prop where
  linked : WellLinked compiled.graph.chains compiled.outputLabels
  nonempty : compiled.outputLabels ≠ []
  /-- The output labels are a picture, if there is one, and then a sound, if there is one. -/
  pictureFirst : ∃ picture sound : Option Label,
    compiled.outputLabels = picture.toList ++ sound.toList ∧
      (∀ label ∈ picture, compiled.YieldsAs .video label) ∧
      (∀ label ∈ sound, compiled.YieldsAs .audio label)
  counts : ∀ chain ∈ compiled.graph.chains, chain.CountsSources
  supplied : ∀ chain ∈ compiled.graph.chains, ∀ index kind, .input index kind ∈ chain.sources →
    index < compiled.inputs.length ∧ compiled.Supplies timeline catalog index kind

end Compiled

namespace Compile

variable {α : Type}

theorem Side.WellFormed.none {kind : StreamKind} {clips : List (PlacedClip α)} :
    Side.WellFormed kind clips (⟨[], .none⟩ : Side α) :=
  ⟨.nil, by simp⟩

theorem Side.WellFormed.output {kind : StreamKind} {clips : List (PlacedClip α)} {side : Side α}
    (wellFormed : side.WellFormed kind clips) {label : Label} (result : label ∈ side.output) :
    ∃ chain ∈ side.chains, chain.output = label ∧ chain.Yields kind := by
  have given := wellFormed.linked.given label (Option.mem_toList.mpr result)
  obtain ⟨chain, isChain, rfl⟩ := List.mem_map.mp given
  exact ⟨chain, isChain, rfl, (wellFormed.proper chain isChain).yields⟩

end Compile

section Assemble

variable {α : Type} [Seconds α]

def pictureSide (timeline : Timeline α) (clips : List (PlacedClip α)) : Side α :=
  ((videoSide? timeline.format clips
    (timelineDuration clips timeline.durationOverride?)).map Prod.fst).getD ⟨[], none⟩

theorem pictureSide_cases (timeline : Timeline α) (clips : List (PlacedClip α)) :
    pictureSide timeline clips = ⟨[], none⟩ ∨
      ∃ total size, Compile.Video.assemble? clips total =
        some (pictureSide timeline clips, size) := by
  unfold pictureSide videoSide?
  split
  · exact Or.inl rfl
  · cases assembled : Compile.Video.assemble? clips
      (timelineDuration clips timeline.durationOverride?) with
    | none => exact Or.inl rfl
    | some side => exact Or.inr ⟨_, side.2, assembled⟩

theorem pictureSide_wellFormed {timeline : Timeline α} {clips : List (PlacedClip α)}
    (distinct : (clips.map (·.index)).Nodup) :
    (pictureSide timeline clips).WellFormed .video clips := by
  rcases pictureSide_cases timeline clips with none | ⟨total, size, assembled⟩
  · rw [none]
    exact Side.WellFormed.none
  · exact Compile.Video.assemble?_wellFormed assembled distinct

theorem pictureSide_names {timeline : Timeline α} {clips : List (PlacedClip α)} {label : Label}
    (member : label ∈ outputs (pictureSide timeline clips).chains) :
    Compile.Video.Names label := by
  rcases pictureSide_cases timeline clips with none | ⟨total, size, assembled⟩
  · rw [none] at member
    cases member
  · exact Compile.Video.assemble?_names assembled member

/-- What assembling returns: the sound chains, the picture chains behind them, and both outputs. -/
theorem assemble_eq_ok {timeline : Timeline α} {clips : List (PlacedClip α)}
    {inputs : List String} {compiled : Compiled α}
    (accepted : assemble timeline clips inputs = .ok compiled) :
    compiled.inputs = inputs ∧
      compiled.graph.chains =
        (Compile.Audio.assemble clips).chains ++ (pictureSide timeline clips).chains ∧
      compiled.videoOutput = (pictureSide timeline clips).output ∧
      compiled.audioOutput = (Compile.Audio.assemble clips).output ∧
      compiled.outputLabels ≠ [] := by
  unfold assemble link at accepted
  simp only at accepted
  split at accepted
  · cases accepted
  · next someOutput =>
      cases accepted
      refine ⟨rfl, ?_, ?_, rfl, ?_⟩
      · simp only [FilterGraph.extend, FilterGraph.empty, List.nil_append, pictureSide]
        cases videoSide? timeline.format clips
          (timelineDuration clips timeline.durationOverride?) <;> rfl
      · simp only [pictureSide]
        cases videoSide? timeline.format clips
          (timelineDuration clips timeline.durationOverride?) <;> rfl
      · intro noLabels
        obtain ⟨noVideo, noAudio⟩ := List.append_eq_nil_iff.mp noLabels
        rw [Option.toList_eq_nil_iff] at noVideo noAudio
        apply someOutput
        rw [Bool.and_eq_true, Option.isNone_iff_eq_none, Option.isNone_iff_eq_none]
        exact ⟨noVideo, noAudio⟩

theorem assemble_duration {timeline : Timeline α} {clips : List (PlacedClip α)}
    {inputs : List String} {compiled : Compiled α}
    (accepted : assemble timeline clips inputs = .ok compiled) :
    compiled.duration = timelineDuration clips timeline.durationOverride? := by
  unfold assemble link at accepted
  simp only at accepted
  split at accepted
  · cases accepted
  · cases accepted
    rfl

theorem assemble_linked {timeline : Timeline α} {clips : List (PlacedClip α)}
    {inputs : List String} {compiled : Compiled α}
    (accepted : assemble timeline clips inputs = .ok compiled)
    (distinct : (clips.map (·.index)).Nodup) :
    WellLinked compiled.graph.chains compiled.outputLabels := by
  obtain ⟨_, chains, video, audio, _⟩ := assemble_eq_ok accepted
  have sound := Compile.Audio.assemble_wellFormed distinct
  have picture : (pictureSide timeline clips).WellFormed .video clips :=
    pictureSide_wellFormed distinct
  have apart : (outputs (Compile.Audio.assemble clips).chains).Disjoint
      (outputs (pictureSide timeline clips).chains) := fun _ inSound inPicture =>
    Compile.names_apart (Compile.Audio.assemble_names inSound) (pictureSide_names inPicture)
  have linked := sound.linked.append picture.linked apart
  rw [chains, Compiled.outputLabels, video, audio]
  exact linked.reorder List.perm_append_comm

theorem assemble_proper {timeline : Timeline α} {clips : List (PlacedClip α)}
    {inputs : List String} {compiled : Compiled α}
    (accepted : assemble timeline clips inputs = .ok compiled)
    (distinct : (clips.map (·.index)).Nodup) {chain : Chain α}
    (isChain : chain ∈ compiled.graph.chains) :
    chain.CountsSources ∧ chain.TakesFrom clips := by
  obtain ⟨_, chains, _, _, _⟩ := assemble_eq_ok accepted
  rw [chains] at isChain
  rcases List.mem_append.mp isChain with inSound | inPicture
  · have proper := (Compile.Audio.assemble_wellFormed distinct).proper chain inSound
    exact ⟨proper.counts, proper.takes⟩
  · have proper := (pictureSide_wellFormed distinct).proper chain inPicture
    exact ⟨proper.counts, proper.takes⟩

theorem assemble_pictureFirst {timeline : Timeline α} {clips : List (PlacedClip α)}
    {inputs : List String} {compiled : Compiled α}
    (accepted : assemble timeline clips inputs = .ok compiled)
    (distinct : (clips.map (·.index)).Nodup) :
    ∃ picture sound : Option Label,
      compiled.outputLabels = picture.toList ++ sound.toList ∧
        (∀ label ∈ picture, compiled.YieldsAs .video label) ∧
        (∀ label ∈ sound, compiled.YieldsAs .audio label) := by
  obtain ⟨_, chains, video, audio, _⟩ := assemble_eq_ok accepted
  refine ⟨compiled.videoOutput, compiled.audioOutput, rfl, ?_, ?_⟩ <;> intro label result
  · rw [video] at result
    obtain ⟨chain, isChain, named, yields⟩ := (pictureSide_wellFormed distinct).output result
    refine ⟨chain, ?_, named, yields⟩
    rw [chains]
    exact List.mem_append_right _ isChain
  · rw [audio] at result
    obtain ⟨chain, isChain, named, yields⟩ :=
      (Compile.Audio.assemble_wellFormed distinct).output result
    refine ⟨chain, ?_, named, yields⟩
    rw [chains]
    exact List.mem_append_left _ isChain

end Assemble

section Compile

variable {α : Type} [Seconds α] {timeline : Timeline α} {catalog : IdMap (Asset α)}
  {compiled : Compiled α}

theorem compile_of_placed {clips : List (PlacedClip α)} {files : List (FileId × String)}
    (placed : placeClips catalog timeline.clips = .ok (clips, files)) :
    compile timeline catalog = assemble timeline clips (files.map Prod.snd) := by
  simp [compile, placed]

theorem compile_of_unplaced {e : CompileError α}
    (unplaced : placeClips catalog timeline.clips = .error e) :
    compile timeline catalog = .error e := by
  simp [compile, unplaced]

/-- Compiling places the clips and assembles them over the paths of their files. -/
theorem compile_eq_ok (accepted : compile timeline catalog = .ok compiled) :
    ∃ clips files, placeClips catalog timeline.clips = .ok (clips, files) ∧
      assemble timeline clips (files.map Prod.snd) = .ok compiled := by
  unfold compile at accepted
  split at accepted
  · cases accepted
  · next clips files placed => exact ⟨clips, files, placed, accepted⟩

/-- A result that something can be read off is that of a timeline that compiles. -/
theorem exists_compiled {β : Type} {read : Compiled α → β} {value : β}
    (result : (compile timeline catalog).map read = .ok value) :
    ∃ compiled, compile timeline catalog = .ok compiled ∧ read compiled = value := by
  cases accepted : compile timeline catalog with
  | error cause =>
      rw [accepted] at result
      cases result
  | ok compiled =>
      rw [accepted] at result
      exact ⟨compiled, rfl, Except.ok.inj result⟩

/-- A placed clip with a kind of stream makes its input supply it. -/
theorem Resolved.supplies {clips : List (PlacedClip α)} {files : List (FileId × String)}
    (resolved : Resolved catalog files 0 timeline.clips clips)
    (ids : files.map Prod.fst = timeline.fileIds) (inputs : compiled.inputs = files.map Prod.snd)
    {clip : PlacedClip α} (member : clip ∈ clips) {kind : StreamKind} (has : clip.has kind = true) :
    clip.input < compiled.inputs.length ∧
      compiled.Supplies timeline catalog clip.input kind := by
  obtain ⟨source, _, position, asset, input, found, _, listed, rfl⟩ := resolved.exists_of_mem member
  have path : compiled.inputs[input]? = some asset.path := by
    rw [inputs, List.getElem?_map, listed]
    rfl
  have id : timeline.fileIds[input]? = some source.fileId := by
    rw [← ids, List.getElem?_map, listed]
    rfl
  obtain ⟨inRange, _⟩ := List.getElem?_eq_some_iff.mp path
  refine ⟨inRange, source.fileId, asset, id, found, path, ?_⟩
  cases kind <;> exact has

/-- Whatever compiles, compiles to a well formed graph. -/
theorem compile_wellFormed (accepted : compile timeline catalog = .ok compiled) :
    compiled.WellFormed timeline catalog := by
  obtain ⟨clips, files, placed, assembled⟩ := compile_eq_ok accepted
  obtain ⟨_, ids, resolved⟩ := placeClips_eq_ok placed
  obtain ⟨inputs, _, _, _, nonempty⟩ := assemble_eq_ok assembled
  have distinct := resolved.indices_nodup
  exact
    { linked := assemble_linked assembled distinct
      nonempty := nonempty
      pictureFirst := assemble_pictureFirst assembled distinct
      counts := fun chain isChain => (assemble_proper assembled distinct isChain).1
      supplied := by
        intro chain isChain index kind taken
        obtain ⟨clip, member, rfl, has⟩ :=
          (assemble_proper assembled distinct isChain).2 index kind taken
        exact resolved.supplies ids inputs member has }

end Compile

/-- A well formed graph is not empty, so it has a text. -/
theorem Compiled.WellFormed.exists_text {timeline : Timeline Float} {catalog : IdMap (Asset Float)}
    {compiled : Compiled Float} (wellFormed : compiled.WellFormed timeline catalog) :
    ∃ text, compiled.graph.text? = some text := by
  obtain ⟨label, isOutput⟩ := List.exists_mem_of_ne_nil _ wellFormed.nonempty
  have given := wellFormed.linked.given label isOutput
  have filled : compiled.graph.isEmpty = false := by
    rw [FilterGraph.isEmpty, List.isEmpty_eq_false_iff]
    intro none
    rw [none] at given
    cases given
  simp [FilterGraph.text?, filled]

/-- A film of five seconds with picture and sound. -/
def film : Asset Rat := ⟨⟨"film"⟩, "/media/film.mkv", "film.mkv", 5, true, true, 1280, 720⟩

/-- The film twice, with a gap in between. -/
def filmTwice : Timeline Rat where
  clips := [Clip.whole film 0, Clip.whole film 7]
  duration := none
  format := .mp4

theorem filmTwice_wellFormed :
    ∃ compiled, compile filmTwice [(film.id, film)] = .ok compiled ∧
      compiled.WellFormed filmTwice [(film.id, film)] ∧
      outputs compiled.graph.chains =
        [⟨"a0"⟩, ⟨"a1"⟩, ⟨"outa"⟩, ⟨"v0"⟩, ⟨"blk0"⟩, ⟨"v1"⟩, ⟨"outv"⟩] := by
  have result : (compile filmTwice [(film.id, film)]).map (fun compiled =>
      outputs compiled.graph.chains) =
      .ok [⟨"a0"⟩, ⟨"a1"⟩, ⟨"outa"⟩, ⟨"v0"⟩, ⟨"blk0"⟩, ⟨"v1"⟩, ⟨"outv"⟩] := by
    decide +kernel
  obtain ⟨compiled, accepted, labels⟩ := exists_compiled result
  exact ⟨compiled, accepted, compile_wellFormed accepted, labels⟩

end Montage
