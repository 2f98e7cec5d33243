import Montage.Export.Command
import Montage.Proofs.Compile.Playing

/-!
Contract: which timelines compile, and what the others are refused for.

Clips are placed in order and the first one that cannot be placed decides: its
file is unknown, or one of its numbers is out of bounds. Clips that can all be
placed compile unless nothing is left to put out, and whatever compiles can be
turned into a command.

Owns: bounds of a clip's numbers, the first clip that is refused, and the verdict
on a timeline.
Does not own: the wording of faults, in `Timeline.Placement` and `Error`, and
builds that stop, in `Proofs.Compile.Builds`.
-/

namespace Montage

open Montage.Number
open Montage.Media
open Montage.Graph
open Montage.Compile (Side Resolution joined)
open Montage.Export (Plan Command)

section Clips

variable {α : Type} [Seconds α]

/-! ## Faults -/

/-- The numbers of a clip, its defaults filled in from the file. -/
def Clip.filledNumbers (clip : Clip α) (asset : Asset α) : List α :=
  [clip.offset, clip.trimStart.getD 0.0, clip.trimEnd.getD asset.duration, clip.speed, clip.volume]

/-- Some number of a clip is out of bounds. -/
inductive Clip.IsFaulty (clip : Clip α) (asset : Asset α) : Prop where
  | notFinite {number : α} (filled : number ∈ clip.filledNumbers asset)
      (unbounded : Seconds.isFinite number = false)
  | offset (negative : clip.offset < (0.0 : α))
  | trimStart (negative : clip.trimStart.getD 0.0 < (0.0 : α))
  | trimOrder (reversed : clip.trimEnd.getD asset.duration ≤ clip.trimStart.getD 0.0)
  | beyondFile (beyond : asset.duration + trimTolerance < clip.trimEnd.getD asset.duration)
  | speed (notPositive : clip.speed ≤ (0.0 : α))
  | volume (negative : clip.volume < (0.0 : α))

theorem isCount_iff {x : α} : isCount x = true ↔ Seconds.isFinite x = true ∧ ¬ x < (0.0 : α) := by
  simp [isCount]

/-- The checks find nothing exactly when every number is within its bounds. -/
theorem Clip.fault?_eq_none_iff {clip : Clip α} {asset : Asset α} :
    clip.fault? asset = none ↔ ¬ clip.IsFaulty asset := by
  simp only [Clip.fault?, firstFault_eq_none, Bool.not_eq_true', Bool.not_eq_false, isCount_iff,
    Bool.or_eq_true, decide_eq_true_eq, not_or, and_true]
  constructor
  · rintro ⟨offset, start, finish, within, speed, volume⟩ faulty
    cases faulty with
    | @notFinite number filled unbounded =>
        have finite : ∀ x ∈ clip.filledNumbers asset, Seconds.isFinite x = true := by
          simp [filledNumbers, offset.1, start.1, finish.1, speed.1, volume.1]
        rw [finite number filled] at unbounded
        cases unbounded
    | offset negative => exact offset.2 negative
    | trimStart negative => exact start.2 negative
    | trimOrder reversed => exact finish.2 reversed
    | beyondFile beyond => exact within beyond
    | speed notPositive => exact speed.2 notPositive
    | volume negative => exact volume.2 negative
  · intro faultless
    have finite : ∀ x ∈ clip.filledNumbers asset, Seconds.isFinite x = true := by
      intro x filled
      by_contra unbounded
      exact faultless (.notFinite filled (Bool.eq_false_of_not_eq_true unbounded))
    simp only [filledNumbers, List.forall_mem_cons, List.not_mem_nil, false_implies, implies_true,
      and_true] at finite
    obtain ⟨offset, start, finish, speed, volume⟩ := finite
    exact ⟨⟨offset, fun negative => faultless (.offset negative)⟩,
      ⟨start, fun negative => faultless (.trimStart negative)⟩,
      ⟨finish, fun reversed => faultless (.trimOrder reversed)⟩,
      fun beyond => faultless (.beyondFile beyond),
      ⟨speed, fun notPositive => faultless (.speed notPositive)⟩,
      ⟨volume, fun negative => faultless (.volume negative)⟩⟩

variable {catalog : IdMap (Asset α)}

/-- The file of a clip is known and all numbers of the clip are within their bounds. -/
def Clip.IsSound (catalog : IdMap (Asset α)) (clip : Clip α) : Prop :=
  ∃ asset, IdMap.get? clip.fileId catalog = some asset ∧ ¬ clip.IsFaulty asset

/-- The clip at an index is not sound, and all clips before it are. -/
structure FirstUnsound (catalog : IdMap (Asset α)) (clips : List (Clip α)) (index : Nat)
    (clip : Clip α) : Prop where
  here : clips[index]? = some clip
  unsound : ¬ clip.IsSound catalog
  earlier : ∀ before < index, ∀ other, clips[before]? = some other → other.IsSound catalog

/-- What a clip at an index is refused for. -/
inductive Clip.RefusedFor (catalog : IdMap (Asset α)) (index : Nat) (clip : Clip α) :
    CompileError α → Prop where
  | unknownFile (unknown : IdMap.get? clip.fileId catalog = none) :
      Clip.RefusedFor catalog index clip (.unknownFile index clip.fileId)
  | invalidClip {asset : Asset α} {fault : ClipFault α}
      (known : IdMap.get? clip.fileId catalog = some asset)
      (first : clip.fault? asset = some fault) :
      Clip.RefusedFor catalog index clip (.invalidClip index fault)

theorem Clip.isSound_iff {clip : Clip α} {asset : Asset α}
    (known : IdMap.get? clip.fileId catalog = some asset) :
    clip.IsSound catalog ↔ clip.fault? asset = none := by
  rw [fault?_eq_none_iff, IsSound]
  simp [known]

theorem Clip.RefusedFor.unsound {index : Nat} {clip : Clip α} {e : CompileError α}
    (refused : clip.RefusedFor catalog index e) : ¬ clip.IsSound catalog := by
  cases refused with
  | unknownFile unknown =>
      rintro ⟨asset, known, -⟩
      rw [unknown] at known
      cases known
  | invalidClip known first =>
      rw [Clip.isSound_iff known, first]
      exact Option.some_ne_none _

theorem placeFrom_of_refused {index : Nat} {used : List (FileId × String)} {clip : Clip α}
    {rest : List (Clip α)} {e : CompileError α} (unsound : ¬ clip.IsSound catalog) :
    placeFrom catalog index used (clip :: rest) = .error e ↔ clip.RefusedFor catalog index e := by
  rw [placeFrom]
  cases known : IdMap.get? clip.fileId catalog with
  | none =>
      constructor
      · intro refused
        cases refused
        exact .unknownFile known
      · intro refused
        cases refused with
        | unknownFile => rfl
        | invalidClip other =>
            rw [known] at other
            cases other
  | some asset =>
      rw [Clip.isSound_iff known] at unsound
      obtain ⟨fault, first⟩ := Option.ne_none_iff_exists'.mp unsound
      simp only [Clip.place, first]
      constructor
      · intro refused
        cases refused
        exact .invalidClip known first
      · intro refused
        cases refused with
        | unknownFile unknown =>
            rw [known] at unknown
            cases unknown
        | invalidClip other sameFault =>
            rw [known] at other
            cases other
            rw [first] at sameFault
            cases sameFault
            rfl

theorem placeFrom_of_sound {clip : Clip α} (sound : clip.IsSound catalog) (index : Nat)
    (used : List (FileId × String)) (rest : List (Clip α)) :
    ∃ noted, ∀ e, placeFrom catalog index used (clip :: rest) = .error e ↔
      placeFrom catalog (index + 1) noted rest = .error e := by
  obtain ⟨asset, known, faultless⟩ := sound
  refine ⟨noteFile clip.fileId asset.path used, fun e => ?_⟩
  rw [placeFrom, known]
  simp only [Clip.place, Clip.fault?_eq_none_iff.mpr faultless]
  unfold noteFile inputOf
  split
  · next refused => rw [refused]
  · next accepted =>
      rw [accepted]
      simp

namespace FirstUnsound

variable {first clip : Clip α} {rest clips : List (Clip α)} {index : Nat}

theorem head (unsound : ¬ first.IsSound catalog) : FirstUnsound catalog (first :: rest) 0 first where
  here := rfl
  unsound := unsound
  earlier := fun before below => absurd below (Nat.not_lt_zero before)

theorem tail (sound : first.IsSound catalog) (found : FirstUnsound catalog rest index clip) :
    FirstUnsound catalog (first :: rest) (index + 1) clip where
  here := found.here
  unsound := found.unsound
  earlier := by
    intro before below other listed
    cases before with
    | zero =>
        cases listed
        exact sound
    | succ before => exact found.earlier before (Nat.lt_of_succ_lt_succ below) other listed

/-- The first clip that is not sound is the head or comes behind a sound head. -/
theorem cases (found : FirstUnsound catalog (first :: rest) index clip) :
    (index = 0 ∧ clip = first ∧ ¬ first.IsSound catalog) ∨
      (first.IsSound catalog ∧ ∃ next, index = next + 1 ∧ FirstUnsound catalog rest next clip) := by
  cases index with
  | zero =>
      have here : first = clip := Option.some.inj found.here
      exact Or.inl ⟨rfl, here.symm, here ▸ found.unsound⟩
  | succ next =>
      have sound := found.earlier 0 (Nat.succ_pos next) first rfl
      refine Or.inr ⟨sound, next, rfl, found.here, found.unsound, ?_⟩
      intro before below other listed
      exact found.earlier (before + 1) (Nat.succ_lt_succ below) other listed

end FirstUnsound

/-- Placing is refused for the first clip that is not sound, and only then. -/
theorem placeFrom_eq_error_iff {start : Nat} {used : List (FileId × String)} {clips : List (Clip α)}
    {e : CompileError α} :
    placeFrom catalog start used clips = .error e ↔
      ∃ index clip, FirstUnsound catalog clips index clip ∧
        clip.RefusedFor catalog (start + index) e := by
  induction clips generalizing start used with
  | nil =>
      constructor
      · intro refused
        cases refused
      · rintro ⟨index, clip, found, -⟩
        cases found.here
  | cons first rest inductionHypothesis =>
      by_cases sound : first.IsSound catalog
      · obtain ⟨noted, onward⟩ := placeFrom_of_sound sound start used rest
        rw [onward, inductionHypothesis]
        constructor
        · rintro ⟨index, clip, found, refused⟩
          refine ⟨index + 1, clip, found.tail sound, ?_⟩
          rwa [Nat.add_right_comm] at refused
        · rintro ⟨index, clip, found, refused⟩
          rcases found.cases with ⟨-, -, unsound⟩ | ⟨-, next, rfl, behind⟩
          · exact absurd sound unsound
          · refine ⟨next, clip, behind, ?_⟩
            rwa [Nat.add_right_comm]
      · rw [placeFrom_of_refused sound]
        constructor
        · intro refused
          exact ⟨0, first, .head sound, refused⟩
        · rintro ⟨index, clip, found, refused⟩
          rcases found.cases with ⟨rfl, rfl, -⟩ | ⟨isSound, -⟩
          · exact refused
          · exact absurd isSound sound

theorem placeFrom_eq_ok_iff (start : Nat) (used : List (FileId × String)) {clips : List (Clip α)} :
    (∃ result, placeFrom catalog start used clips = .ok result) ↔
      ∀ clip ∈ clips, clip.IsSound catalog := by
  induction clips generalizing start used with
  | nil => simp [placeFrom]
  | cons first rest inductionHypothesis =>
      rw [List.forall_mem_cons]
      constructor
      · rintro ⟨⟨placed, files⟩, accepted⟩
        obtain ⟨asset, others, known, faultless, placedRest, -⟩ := placeFrom_cons_eq_ok.mp accepted
        exact ⟨(Clip.isSound_iff known).mpr faultless, (inductionHypothesis _ _).mp ⟨_, placedRest⟩⟩
      · rintro ⟨⟨asset, known, faultless⟩, sound⟩
        obtain ⟨⟨others, files⟩, placedRest⟩ := (inductionHypothesis _ _).mpr sound
        exact ⟨_, placeFrom_cons_eq_ok.mpr
          ⟨asset, others, known, Clip.fault?_eq_none_iff.mpr faultless, placedRest, rfl⟩⟩

/-- Clips are placed when there are some and all of them are sound. -/
theorem placeClips_eq_ok_iff {clips : List (Clip α)} :
    (∃ result, placeClips catalog clips = .ok result) ↔
      clips ≠ [] ∧ ∀ clip ∈ clips, clip.IsSound catalog := by
  rw [← placeFrom_eq_ok_iff 0 []]
  by_cases none : clips = [] <;> simp [placeClips, none]

/-! ## Something to put out -/

/-- Some clip's file has a kind of stream. -/
def Timeline.Shows (timeline : Timeline α) (catalog : IdMap (Asset α)) (kind : StreamKind) : Prop :=
  ∃ clip ∈ timeline.clips, ∃ asset, IdMap.get? clip.fileId catalog = some asset ∧
    asset.has kind = true

/-- There is sound, or there is a picture and the format can hold it. -/
def Timeline.HasOutput (timeline : Timeline α) (catalog : IdMap (Asset α)) : Prop :=
  timeline.Shows catalog .audio ∨ (timeline.format = .mp4 ∧ timeline.Shows catalog .video)

/-- What placed clips take over from their files is told by the files. -/
theorem Resolved.exists_iff {files : List (FileId × String)} {clips : List (Clip α)}
    {placed : List (PlacedClip α)} (resolved : Resolved catalog files 0 clips placed)
    {holds : PlacedClip α → Prop} {told : Asset α → Prop}
    (same : ∀ clip asset index input, holds (Clip.placed clip asset index input) ↔ told asset) :
    (∃ clip ∈ placed, holds clip) ↔
      ∃ clip ∈ clips, ∃ asset, IdMap.get? clip.fileId catalog = some asset ∧ told asset := by
  constructor
  · rintro ⟨placedClip, member, holds⟩
    obtain ⟨clip, listed, index, asset, input, known, -, -, rfl⟩ := resolved.exists_of_mem member
    exact ⟨clip, listed, asset, known, (same clip asset index input).mp holds⟩
  · rintro ⟨clip, listed, asset, known, tells⟩
    obtain ⟨position, here⟩ := List.mem_iff_getElem?.mp listed
    obtain ⟨placedClip, member, other, input, found, -, -, rfl⟩ := resolved.exists_placed here
    obtain rfl := Option.some.inj (known.symm.trans found)
    exact ⟨_, member, (same clip asset _ input).mpr tells⟩

theorem Resolved.exists_has_iff {files : List (FileId × String)} {timeline : Timeline α}
    {placed : List (PlacedClip α)} (resolved : Resolved catalog files 0 timeline.clips placed)
    (kind : StreamKind) :
    (∃ clip ∈ placed, clip.has kind = true) ↔ timeline.Shows catalog kind := by
  apply resolved.exists_iff
  intro clip asset index input
  cases kind <;> rfl

omit [Seconds α] in
theorem joined_output_eq_none_iff {chains : List (Chain α)} {label : Label}
    {join : Nat → Graph.Filter α} : (joined chains label join).output = none ↔ chains = [] := by
  rcases Compile.joined_cases chains label join with
    ⟨rfl, shape⟩ | ⟨only, rfl, shape⟩ | ⟨several, shape⟩ <;> rw [shape]
  · simp
  · simp
  · have nonempty : chains ≠ [] := by
      rintro rfl
      cases several
    simp [nonempty]

theorem sound_eq_none_iff {clips : List (PlacedClip α)} :
    (Compile.Audio.assemble clips).output = none ↔ ¬ ∃ clip ∈ clips, clip.has .audio = true := by
  rw [Compile.Audio.assemble, joined_output_eq_none_iff, List.map_eq_nil_iff,
    List.filter_eq_nil_iff]
  simp [PlacedClip.has]

/-- There is no picture side in a sound format and without a clip that has a picture. -/
theorem pictureSide_eq_none_iff {timeline : Timeline α} {clips : List (PlacedClip α)} :
    (pictureSide timeline clips).output = none ↔
      ¬ (timeline.format = .mp4 ∧ ∃ clip ∈ clips, clip.has .video = true) := by
  constructor
  · rintro silent ⟨film, clip, member, seen⟩
    obtain ⟨size, side⟩ := pictureSide_of_film film member seen
    rw [side, joined_output_eq_none_iff] at silent
    have pictured : clip ∈ clips.filter (·.hasVideo) := List.mem_filter.mpr ⟨member, seen⟩
    have inChains := Compile.Video.clipChain_mem_laneChains size 0
      (Lane.clip_mem_segments pictured (timelineDuration clips timeline.durationOverride?))
    rw [silent] at inChains
    cases inChains
  · intro nothing
    unfold pictureSide videoSide? Compile.Video.assemble?
    cases format : timeline.format with
    | mp3 => rfl
    | mp4 =>
        have unseen : clips.filter (·.hasVideo) = [] := by
          apply List.filter_eq_nil_iff.mpr
          intro clip member seen
          exact nothing ⟨format, clip, member, seen⟩
        simp [unseen]

/-- A picture is put out exactly in a film with a clip that shows one. -/
theorem isSome_videoOutput_iff {timeline : Timeline α} {clips : List (PlacedClip α)}
    {inputs : List String} {compiled : Compiled α}
    (accepted : assemble timeline clips inputs = .ok compiled) :
    compiled.videoOutput.isSome = true ↔
      timeline.format = .mp4 ∧ ∃ clip ∈ clips, clip.hasVideo = true := by
  obtain ⟨-, -, video, -, -⟩ := assemble_eq_ok accepted
  rw [video, Option.isSome_iff_ne_none, ne_eq, pictureSide_eq_none_iff, not_not]
  rfl

/-- Assembling fails for one reason only, and only when neither side has an output. -/
theorem assemble_eq_error_iff {timeline : Timeline α} {clips : List (PlacedClip α)}
    {inputs : List String} {e : CompileError α} :
    assemble timeline clips inputs = .error e ↔
      e = .noOutputStreams ∧ (pictureSide timeline clips).output = none ∧
        (Compile.Audio.assemble clips).output = none := by
  have video : (videoSide? timeline.format clips
      (timelineDuration clips timeline.durationOverride?)).bind (fun side => side.1.output) =
        (pictureSide timeline clips).output := by
    unfold pictureSide
    cases videoSide? timeline.format clips
      (timelineDuration clips timeline.durationOverride?) <;> rfl
  unfold assemble link
  simp only [video]
  split
  · next silent =>
      simp only [Bool.and_eq_true, Option.isNone_iff_eq_none] at silent
      simp [silent, eq_comm]
  · next heard =>
      simp only [Bool.and_eq_true, Option.isNone_iff_eq_none] at heard
      simp [heard]

/-! ## Judging a timeline -/

variable {timeline : Timeline α} {e : CompileError α}

theorem compile_of_no_clips (none : timeline.clips = []) :
    compile timeline catalog = .error .noClips := by
  exact compile_of_unplaced (by simp [placeClips, none])

theorem compile_of_refused {index : Nat} {clip : Clip α}
    (found : FirstUnsound catalog timeline.clips index clip)
    (refused : clip.RefusedFor catalog index e) : compile timeline catalog = .error e := by
  have nonempty : timeline.clips.isEmpty = false := by
    rw [List.isEmpty_eq_false_iff]
    intro none
    have here := found.here
    rw [none] at here
    cases here
  have placing : placeFrom catalog 0 [] timeline.clips = .error e := by
    refine placeFrom_eq_error_iff.mpr ⟨index, clip, found, ?_⟩
    rwa [Nat.zero_add]
  exact compile_of_unplaced (by simp [placeClips, nonempty, placing])

/-- Sound clips are placed, and the sides they make tell whether there is an output. -/
theorem compile_of_sound (nonempty : timeline.clips ≠ [])
    (sound : ∀ clip ∈ timeline.clips, clip.IsSound catalog) :
    (timeline.HasOutput catalog → ∃ compiled, compile timeline catalog = .ok compiled) ∧
      (¬ timeline.HasOutput catalog → compile timeline catalog = .error .noOutputStreams) := by
  obtain ⟨⟨clips, files⟩, accepted⟩ := placeClips_eq_ok_iff.mpr ⟨nonempty, sound⟩
  have compiles : compile timeline catalog = assemble timeline clips (files.map Prod.snd) :=
    compile_of_placed accepted
  obtain ⟨-, -, resolved⟩ := placeClips_eq_ok accepted
  have silent : (pictureSide timeline clips).output = none ∧
      (Compile.Audio.assemble clips).output = none ↔ ¬ timeline.HasOutput catalog := by
    rw [pictureSide_eq_none_iff, sound_eq_none_iff, resolved.exists_has_iff,
      resolved.exists_has_iff, Timeline.HasOutput]
    tauto
  rw [compiles]
  constructor
  · intro output
    cases assembled : assemble timeline clips (files.map Prod.snd) with
    | ok compiled => exact ⟨compiled, rfl⟩
    | error e =>
        have nothing := (assemble_eq_error_iff.mp assembled).2
        exact absurd output (silent.mp nothing)
  · intro nothing
    exact assemble_eq_error_iff.mpr ⟨rfl, silent.mpr nothing⟩

theorem exists_firstUnsound {clips : List (Clip α)}
    (unsound : ¬ ∀ clip ∈ clips, clip.IsSound catalog) :
    ∃ index clip e, FirstUnsound catalog clips index clip ∧ clip.RefusedFor catalog index e := by
  rw [← placeFrom_eq_ok_iff 0 []] at unsound
  cases placed : placeFrom catalog 0 [] clips with
  | ok result => exact absurd ⟨result, placed⟩ unsound
  | error e =>
      obtain ⟨index, clip, found, refused⟩ := placeFrom_eq_error_iff.mp placed
      rw [Nat.zero_add] at refused
      exact ⟨index, clip, e, found, refused⟩

/-- What a timeline is refused for. -/
inductive Timeline.RefusedFor (catalog : IdMap (Asset α)) (timeline : Timeline α) :
    CompileError α → Prop where
  | noClips (none : timeline.clips = []) : timeline.RefusedFor catalog .noClips
  | clip {index : Nat} {clip : Clip α} {e : CompileError α}
      (found : FirstUnsound catalog timeline.clips index clip)
      (refused : clip.RefusedFor catalog index e) : timeline.RefusedFor catalog e
  | noOutputStreams (nonempty : timeline.clips ≠ [])
      (sound : ∀ clip ∈ timeline.clips, clip.IsSound catalog)
      (nothing : ¬ timeline.HasOutput catalog) : timeline.RefusedFor catalog .noOutputStreams

section Refusals

variable {index : Nat}

end Refusals

theorem compile_eq_error_iff :
    compile timeline catalog = .error e ↔ timeline.RefusedFor catalog e := by
  constructor
  · intro refused
    by_cases none : timeline.clips = []
    · rw [compile_of_no_clips none] at refused
      cases refused
      exact .noClips none
    by_cases sound : ∀ clip ∈ timeline.clips, clip.IsSound catalog
    · obtain ⟨heard, silent⟩ := compile_of_sound none sound
      by_cases output : timeline.HasOutput catalog
      · obtain ⟨compiled, accepted⟩ := heard output
        rw [accepted] at refused
        cases refused
      · rw [silent output] at refused
        cases refused
        exact .noOutputStreams none sound output
    · obtain ⟨index, clip, other, found, refusedClip⟩ := exists_firstUnsound sound
      rw [compile_of_refused found refusedClip] at refused
      cases refused
      exact .clip found refusedClip
  · intro refused
    cases refused with
    | noClips none => exact compile_of_no_clips none
    | clip found refusedClip => exact compile_of_refused found refusedClip
    | noOutputStreams nonempty sound nothing => exact (compile_of_sound nonempty sound).2 nothing

theorem compile_eq_ok_iff : (∃ compiled, compile timeline catalog = .ok compiled) ↔
    timeline.clips ≠ [] ∧ (∀ clip ∈ timeline.clips, clip.IsSound catalog) ∧
      timeline.HasOutput catalog := by
  constructor
  · rintro ⟨compiled, accepted⟩
    have notRefused : ∀ e, ¬ timeline.RefusedFor catalog e := by
      intro e refused
      rw [compile_eq_error_iff.mpr refused] at accepted
      cases accepted
    have nonempty : timeline.clips ≠ [] := fun none => notRefused _ (.noClips none)
    have sound : ∀ clip ∈ timeline.clips, clip.IsSound catalog := by
      by_contra unsound
      obtain ⟨index, clip, e, found, refused⟩ := exists_firstUnsound unsound
      exact notRefused e (.clip found refused)
    refine ⟨nonempty, sound, ?_⟩
    by_contra nothing
    exact notRefused _ (.noOutputStreams nonempty sound nothing)
  · rintro ⟨nonempty, sound, output⟩
    exact (compile_of_sound nonempty sound).1 output

end Clips

/-! ## Compiled timelines as commands -/

section Commands

variable {timeline : Timeline Float} {catalog : IdMap (Asset Float)} {compiled : Compiled Float}

/-- Whatever compiles has a command for every destination and program. -/
theorem exists_command (accepted : compile timeline catalog = .ok compiled) (destination : String)
    (program : Option String) :
    ∃ command, (Plan.mk compiled destination).command program = .ok command := by
  have wellFormed := compile_wellFormed accepted
  obtain ⟨text, rendered⟩ := wellFormed.exists_text
  have labelled : compiled.outputLabels.isEmpty = false :=
    List.isEmpty_eq_false_iff.mpr wellFormed.nonempty
  simp [Plan.command, rendered, labelled]

end Commands

end Montage
