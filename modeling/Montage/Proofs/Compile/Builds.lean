import Montage.Proofs.Compile.FrameSize
import Montage.Proofs.Compile.Verdict
import Montage.Timeline.BackToBack

/-!
Contract: what a build can make of a timeline.

The sides of the frame are rounded up to even words. Where there is no such word
a release build goes on with what is left of the sum, and a build that checks
its sums stops. Nothing else in a compilation depends on the build, so a build
stops or gives what compiling gives.

Owns: timelines on which a checked build stops, and `compile_judged`.
Does not own: the verdict itself, in `Proofs.Compile.Verdict`.
-/

namespace Montage

open Montage.Number
open Montage.Media

/-! ## Stopping -/

/-- An outcome that is a value, unless something stops it. -/
inductive Unless {β : Type} (stops : Prop) (value : β) : Option β → Prop where
  | stopped (stopped : stops) : Unless stops value none
  | went (goes : ¬ stops) : Unless stops value (some value)

namespace Unless

variable {β γ : Type} {stops : Prop} {value : β} {outcome : Option β}

theorem eq_some_iff (made : Unless stops value outcome) {other : β} :
    outcome = some other ↔ ¬ stops ∧ value = other := by
  cases made with
  | stopped stopped => simp [stopped]
  | went goes => simp [goes]

theorem map (made : Unless stops value outcome) (next : β → γ) :
    Unless stops (next value) (outcome.map next) := by
  cases made with
  | stopped stopped => exact .stopped stopped
  | went goes => exact .went goes

theorem congr {halts : Prop} (same : stops ↔ halts) (made : Unless stops value outcome) :
    Unless halts value outcome := by
  rw [propext same] at made
  exact made

end Unless

/-! ## Frames -/

/-- Pictures whose frame has no room in words: one has a width, one has a height, and a side of one
has no even word above it. -/
structure Overflows (shown : Nat → Nat → Prop) : Prop where
  someWidth : ∃ width height, shown width height ∧ 0 < width
  someHeight : ∃ width height, shown width height ∧ 0 < height
  outgrown : ∃ width height, shown width height ∧ (2 ^ 32 - 1 ≤ width ∨ 2 ^ 32 - 1 ≤ height)

namespace Compile.Video

variable {α : Type} {clips : List (PlacedClip α)} {build : Build}

/-- A clip shows a picture of these sides. -/
def ShowsSize (clips : List (PlacedClip α)) (width height : Nat) : Prop :=
  ∃ clip ∈ clips, clip.hasVideo = true ∧ clip.width = width ∧ clip.height = height

theorem exists_showsSize {holds : Nat → Nat → Prop} :
    (∃ width height, ShowsSize clips width height ∧ holds width height) ↔
      ∃ clip ∈ clips, clip.hasVideo = true ∧ holds clip.width clip.height := by
  constructor
  · rintro ⟨_, _, ⟨clip, member, seen, rfl, rfl⟩, holds⟩
    exact ⟨clip, member, seen, holds⟩
  · rintro ⟨clip, member, seen, holds⟩
    exact ⟨_, _, ⟨clip, member, seen, rfl, rfl⟩, holds⟩

theorem showsSize_filter {width height : Nat} :
    ShowsSize (clips.filter (·.hasVideo)) width height ↔ ShowsSize clips width height := by
  simp only [ShowsSize, List.mem_filter, and_assoc, and_self_left]

theorem overflows_iff : Overflows (ShowsSize clips) ↔
    ¬ (most (·.width) clips = 0 ∨ most (·.height) clips = 0) ∧
      (2 ^ 32 - 1 ≤ most (·.width) clips ∨ 2 ^ 32 - 1 ≤ most (·.height) clips) := by
  have outgrown : (∃ clip ∈ clips, clip.hasVideo = true ∧
      (2 ^ 32 - 1 ≤ clip.width ∨ 2 ^ 32 - 1 ≤ clip.height)) ↔
        (2 ^ 32 - 1 ≤ most (·.width) clips ∨ 2 ^ 32 - 1 ≤ most (·.height) clips) := by
    rw [le_most_iff (by decide), le_most_iff (by decide)]
    simp only [and_or_left, exists_or]
  rw [← measured_iff, ← outgrown]
  constructor
  · rintro ⟨someWidth, someHeight, outgrown⟩
    exact ⟨⟨exists_showsSize.mp someWidth, exists_showsSize.mp someHeight⟩,
      exists_showsSize.mp outgrown⟩
  · rintro ⟨⟨someWidth, someHeight⟩, outgrown⟩
    exact ⟨exists_showsSize.mpr someWidth, exists_showsSize.mpr someHeight,
      exists_showsSize.mpr outgrown⟩

/-- A number has an even word above it or is one itself, unless it is too large. -/
theorem rounded_le_iff {n : Nat} : n + n % 2 ≤ wordLimit ↔ ¬ 2 ^ 32 - 1 ≤ n := by
  unfold wordLimit
  omega

theorem resolutionIn?_unless (build : Build) (clips : List (PlacedClip α)) :
    Unless (build = .checked ∧ Overflows (ShowsSize clips)) (resolution clips)
      (resolutionIn? build clips) := by
  rw [overflows_iff, resolutionIn?, resolution]
  by_cases noSize : most (·.width) clips = 0 ∨ most (·.height) clips = 0
  · rw [if_pos noSize, if_pos noSize]
    exact .went fun stops => stops.2.1 noSize
  rw [if_neg noSize, if_neg noSize]
  cases build with
  | release => exact .went fun stops => absurd stops.1 (by decide)
  | checked =>
      by_cases width : 2 ^ 32 - 1 ≤ most (·.width) clips
      · rw [Build.word?_checked_of_not_le (mt rounded_le_iff.mp (not_not.mpr width))]
        exact .stopped ⟨rfl, noSize, Or.inl width⟩
      rw [Build.word?_checked_of_le (rounded_le_iff.mpr width)]
      by_cases height : 2 ^ 32 - 1 ≤ most (·.height) clips
      · rw [Build.word?_checked_of_not_le (mt rounded_le_iff.mp (not_not.mpr height))]
        exact .stopped ⟨rfl, noSize, Or.inr height⟩
      rw [Build.word?_checked_of_le (rounded_le_iff.mpr height)]
      exact .went fun stops => stops.2.2.elim width height

theorem assembleIn?_unless [Seconds α] (build : Build) (clips : List (PlacedClip α)) (total : α) :
    Unless (build = .checked ∧ Overflows (ShowsSize clips)) (assemble? clips total)
      (assembleIn? build clips total) := by
  simp only [assembleIn?, assemble?]
  by_cases unseen : (clips.filter (·.hasVideo)).isEmpty = true
  · rw [if_pos unseen, if_pos unseen]
    rw [List.isEmpty_iff, List.filter_eq_nil_iff] at unseen
    apply Unless.went
    rintro ⟨-, overflows⟩
    obtain ⟨clip, member, seen, -⟩ := exists_showsSize.mp overflows.someWidth
    exact unseen clip member seen
  · rw [if_neg unseen, if_neg unseen]
    have same : ShowsSize (clips.filter (·.hasVideo)) = ShowsSize clips :=
      funext fun width => funext fun height => propext showsSize_filter
    rw [← same]
    exact (resolutionIn?_unless build _).map fun size => some (framed _ total size)

end Compile.Video

/-! ## Timelines -/

section Timelines

variable {α : Type} [Seconds α] {timeline : Timeline α} {catalog : IdMap (Asset α)}

/-- Some clip's file has a picture of these sides. -/
def Timeline.ShowsSize (timeline : Timeline α) (catalog : IdMap (Asset α)) (width height : Nat) :
    Prop :=
  ∃ clip ∈ timeline.clips, ∃ asset, IdMap.get? clip.fileId catalog = some asset ∧
    asset.hasVideo = true ∧ asset.width = width ∧ asset.height = height

/-- A film whose clips are all sound, with a frame that has no room in words. -/
structure Timeline.Stops (timeline : Timeline α) (catalog : IdMap (Asset α)) : Prop where
  film : timeline.format = .mp4
  sound : ∀ clip ∈ timeline.clips, clip.IsSound catalog
  overflows : Overflows (timeline.ShowsSize catalog)

theorem Timeline.Stops.nonempty (stops : timeline.Stops catalog) : timeline.clips ≠ [] := by
  obtain ⟨_, _, ⟨clip, member, -⟩, -⟩ := stops.overflows.someWidth
  exact List.ne_nil_of_mem member

theorem Resolved.showsSize {files : List (FileId × String)} {placed : List (PlacedClip α)}
    (resolved : Resolved catalog files 0 timeline.clips placed) :
    Compile.Video.ShowsSize placed = timeline.ShowsSize catalog := by
  funext width height
  exact propext (resolved.exists_iff fun clip asset index input => Iff.rfl)

theorem videoSideIn?_unless (build : Build) (format : OutputFormat) (clips : List (PlacedClip α))
    (duration : α) :
    Unless (build = .checked ∧ format = .mp4 ∧ Overflows (Compile.Video.ShowsSize clips))
      (videoSide? format clips duration) (videoSideIn? build format clips duration) := by
  cases format with
  | mp3 => exact .went fun stops => absurd stops.2.1 (by decide)
  | mp4 => exact (Compile.Video.assembleIn?_unless build clips duration).congr (by simp)

/-- A build stops or compiles as any other does. -/
theorem compileIn_unless (build : Build) (timeline : Timeline α) (catalog : IdMap (Asset α)) :
    Unless (build = .checked ∧ timeline.Stops catalog) (compile timeline catalog)
      (compileIn build timeline catalog) := by
  rw [compileIn, compile]
  cases placing : placeClips catalog timeline.clips with
  | error e =>
      apply Unless.went
      rintro ⟨-, stops⟩
      obtain ⟨result, placed⟩ := placeClips_eq_ok_iff.mpr ⟨stops.nonempty, stops.sound⟩
      cases placing.symm.trans placed
  | ok result =>
      obtain ⟨clips, files⟩ := result
      have sound := (placeClips_eq_ok_iff.mp ⟨_, placing⟩).2
      obtain ⟨-, -, resolved⟩ := placeClips_eq_ok placing
      have same : timeline.format = .mp4 ∧ Overflows (Compile.Video.ShowsSize clips) ↔
          timeline.Stops catalog := by
        rw [resolved.showsSize]
        constructor
        · rintro ⟨film, overflows⟩
          exact ⟨film, sound, overflows⟩
        · intro stops
          exact ⟨stops.film, stops.overflows⟩
      have side := (videoSideIn?_unless build timeline.format clips
        (timelineDuration clips timeline.durationOverride?)).congr (and_congr_right fun _ => same)
      exact side.map (link (files.map Prod.snd) _ (Compile.Audio.assemble clips))

theorem compileIn_ne {result : Except (CompileError α) (Compiled α)}
    (other : compile timeline catalog ≠ result) (build : Build) :
    compileIn build timeline catalog ≠ some result := by
  intro same
  exact other ((compileIn_unless build timeline catalog).eq_some_iff.mp same).2

end Timelines

/-- A picture as wide as words can tell. -/
def widest : Asset Rat := ⟨⟨"film"⟩, "/film.mp4", "film.mp4", 5, true, false, 4294967295, 720⟩

example : compileIn .checked (backToBack [widest]) [(widest.id, widest)] = none := by
  decide +kernel

/-- A release build makes a frame without width of it. -/
example : (compileIn .release (backToBack [widest]) [(widest.id, widest)]).map
    (fun result => result.toOption.bind (·.resolution)) = some (some ⟨0, 720⟩) := by
  decide +kernel

end Montage
