import Mathlib.Data.Rat.Floor
import Montage.Proofs.Compile.Playing
import Montage.Proofs.Timeline.Accounting

/-!
Contract: sound and picture of one clip start together, but for dropped gaps.

Sound is placed by a delay in whole milliseconds, counted from the start of the
timeline. A picture is placed by what is concatenated in front of it, and there
dropped gaps are missing. `starts_apart_by_dropped_gaps` bounds how far apart the
two are by the dropped gaps up to the clip and a millisecond;
`dropped_gaps_add_up` shows two gaps that are too much already.

Owns: where the chains of a clip start, clips in turn, and the bound.
Does not own: what a lane drops, in `Proofs.Timeline.Accounting`.
-/

namespace Montage

open Montage.Number
open Montage.Media
open Montage.Graph
open Montage.Compile (Side Resolution numbered joined)

/-! ## Where chains start -/

namespace Graph

/-- The silence that delays put in front of a chain, in seconds. -/
def Filter.delay? : Graph.Filter Rat → Option Nat
  | .delay millis => some millis
  | _ => none

def Chain.silence (chain : Chain Rat) : Rat :=
  (chain.filters.filterMap Filter.delay?).sum / 1000

/-- When a label starts in a concatenation: as late as the chains in front of it play. -/
def startOf? (label : Label) : List (Chain Rat) → Option Rat
  | [] => none
  | chain :: rest =>
    if chain.output = label then some 0
    else (startOf? label rest).map fun start => chain.played + start

/-- How long chains play one after another. -/
def playedInTurn (chains : List (Chain Rat)) : Rat := (chains.map Chain.played).sum

theorem startOf?_append {label : Label} {before after : List (Chain Rat)} {chain : Chain Rat}
    (named : chain.output = label) (fresh : label ∉ outputs before) :
    startOf? label (before ++ chain :: after) = some (playedInTurn before) := by
  induction before with
  | nil =>
      rw [List.nil_append, startOf?, if_pos named]
      rfl
  | cons first rest inductionHypothesis =>
      rw [outputs_cons, List.mem_cons, not_or] at fresh
      rw [List.cons_append, startOf?, if_neg (Ne.symm fresh.1), inductionHypothesis fresh.2,
        Option.map_some, playedInTurn, playedInTurn, List.map_cons, List.sum_cons]

end Graph

namespace Compiled

/-- The chains that make the picture, in the order they play; a joining chain plays what it reads. -/
def pictureParts (compiled : Compiled Rat) : List (Chain Rat) :=
  match compiled.videoOutput.bind compiled.graph.chain? with
  | none => []
  | some final =>
    if final.reads = [] then [final] else final.reads.filterMap compiled.graph.chain?

/-- When the picture of a clip starts. -/
def pictureStart? (compiled : Compiled Rat) (index : Nat) : Option Rat :=
  startOf? (numbered "v" index) compiled.pictureParts

/-- When the sound of a clip starts. -/
def soundStart? (compiled : Compiled Rat) (index : Nat) : Option Rat :=
  (compiled.graph.chain? (numbered "a" index)).map Chain.silence

end Compiled

/-! ## Sound -/

namespace Compile

theorem Audio.silence_clipChain (clip : PlacedClip Rat) :
    (Audio.clipChain clip).silence = (clip.offset * 1000).floor.toNat / 1000 := by
  have thousand : (1000.0 : Rat) = 1000 := by norm_num
  have tempos : (Speed.filters clip.speed).filterMap Filter.delay? = [] := by
    rw [Speed.filters, List.filterMap_map]
    exact List.filterMap_eq_nil_iff.mpr fun _ _ => rfl
  have amplified : (Audio.gain? clip).toList.filterMap Filter.delay? = [] := by
    unfold Audio.gain?
    split <;> rfl
  have delayed : ((Audio.delay? clip).toList.filterMap Filter.delay?).sum =
      (clip.offset * 1000).floor.toNat := by
    unfold Audio.delay?
    rw [thousand]
    show ((if 0 < (clip.offset * 1000).floor.toNat then
      some (Graph.Filter.delay (α := Rat) (clip.offset * 1000).floor.toNat)
      else none).toList.filterMap Filter.delay?).sum = (clip.offset * 1000).floor.toNat
    split
    · rfl
    · next none =>
        simp only [Option.toList_none, List.filterMap_nil, List.sum_nil]
        omega
  have trimmed : [Graph.Filter.audioTrim clip.trimStart clip.trimEnd,
      .audioSetPts .restart].filterMap Filter.delay? = [] := rfl
  unfold Chain.silence Audio.clipChain
  rw [List.filterMap_append, List.filterMap_append, List.filterMap_append, trimmed, tempos,
    amplified, List.append_nil, List.nil_append, List.nil_append, delayed]

/-- A delay brings sound to its offset or up to a millisecond before it. -/
theorem Audio.silence_bounds {clip : PlacedClip Rat} (forward : 0 ≤ clip.offset) :
    0 ≤ clip.offset - (Audio.clipChain clip).silence ∧
      clip.offset - (Audio.clipChain clip).silence < 1 / 1000 := by
  have scaled : 0 ≤ clip.offset * 1000 := by linarith
  have whole : (((clip.offset * 1000).floor.toNat : Nat) : Rat) =
      ((clip.offset * 1000).floor : Int) := by
    have nonneg : 0 ≤ (clip.offset * 1000).floor := Rat.le_floor_iff.mpr (by exact_mod_cast scaled)
    exact_mod_cast Int.toNat_of_nonneg nonneg
  have below := Rat.floor_le (clip.offset * 1000)
  have above := Rat.lt_floor_add_one (clip.offset * 1000)
  rw [Rat.intCast_add, Rat.intCast_one] at above
  rw [Audio.silence_clipChain, whole]
  constructor
  · linarith
  · linarith

/-! ## Picture -/

theorem Video.playedInTurn_laneChains (size : Resolution) (ordinal : Nat)
    {lane : List (Lane.Segment Rat)}
    (exact : ∀ clip ∈ lane.filterMap Lane.Segment.clip?,
      clip.playedLength = clip.effectiveDuration) :
    playedInTurn (Video.laneChains size ordinal lane) = Lane.laneLength lane := by
  induction lane generalizing ordinal with
  | nil => rfl
  | cons segment rest inductionHypothesis =>
      rw [Lane.laneLength_cons]
      cases segment with
      | filler duration =>
          have behind := inductionHypothesis (ordinal + 1) exact
          rw [playedInTurn] at behind
          rw [Video.laneChains, playedInTurn, List.map_cons, List.sum_cons, behind,
            Video.played_fillerChain]
          rfl
      | clip clip =>
          have behind := inductionHypothesis ordinal fun later member =>
            exact later (List.mem_cons_of_mem clip member)
          have here := exact clip List.mem_cons_self
          rw [playedInTurn] at behind
          rw [Video.laneChains, playedInTurn, List.map_cons, List.sum_cons, behind,
            Video.played_clipChain, here]
          rfl

theorem filterMap_chain? {α : Type} {graph : FilterGraph α} {chains : List (Chain α)}
    (distinct : (outputs graph.chains).Nodup) (inGraph : ∀ chain ∈ chains, chain ∈ graph.chains) :
    (outputs chains).filterMap graph.chain? = chains := by
  induction chains with
  | nil => rfl
  | cons first rest inductionHypothesis =>
      have found := FilterGraph.chain?_of_mem distinct (inGraph first List.mem_cons_self)
      rw [outputs_cons, List.filterMap_cons, found]
      show first :: (outputs rest).filterMap graph.chain? = first :: rest
      rw [inductionHypothesis fun chain member => inGraph chain (List.mem_cons_of_mem _ member)]

end Compile

section Picture

variable {timeline : Timeline Rat} {clips : List (PlacedClip Rat)} {inputs : List String}
  {compiled : Compiled Rat}

/-- The parts of a film's picture are the chains of its lane. -/
theorem pictureParts_eq (accepted : assemble timeline clips inputs = .ok compiled)
    (distinct : (clips.map (·.index)).Nodup) (film : timeline.format = .mp4)
    {clip : PlacedClip Rat} (member : clip ∈ clips) (seen : clip.hasVideo = true) :
    ∃ size, compiled.pictureParts = Compile.Video.laneChains size 0
      (Lane.segments (clips.filter (·.hasVideo)) compiled.duration) := by
  obtain ⟨_, chains, video, _, _⟩ := assemble_eq_ok accepted
  obtain ⟨size, side⟩ := pictureSide_of_film film member seen
  have labels := (assemble_linked accepted distinct).distinct
  have leaves := Compile.Video.leaf_lane size clips
    (timelineDuration clips timeline.durationOverride?)
  refine ⟨size, ?_⟩
  rw [assemble_duration accepted]
  generalize Compile.Video.laneChains size 0 (Lane.segments (clips.filter (·.hasVideo))
    (timelineDuration clips timeline.durationOverride?)) = lane at side leaves
  have inGraph : ∀ chain ∈ (joined lane Compile.Video.concatLabel .concat).chains,
      chain ∈ compiled.graph.chains := by
    intro chain inSide
    rw [chains, side]
    exact List.mem_append_right _ inSide
  unfold Compiled.pictureParts
  rw [video, side]
  rcases Compile.joined_cases lane Compile.Video.concatLabel .concat with
    ⟨rfl, shape⟩ | ⟨only, rfl, shape⟩ | ⟨several, shape⟩
  · rw [shape]
    rfl
  · -- A single chain is the picture itself; it reads a file, or nothing.
    have found := FilterGraph.chain?_of_mem labels (inGraph only (by simp [shape]))
    have leaf : only.reads = [] := (leaves only List.mem_cons_self).unlinked
    rw [shape]
    simp only [Option.bind_some, found, leaf, ↓reduceIte]
  · have found := FilterGraph.chain?_of_mem labels
      (inGraph (Compile.joining lane Compile.Video.concatLabel .concat) (by simp [shape]))
    have nonempty : outputs lane ≠ [] := by
      intro none
      rw [outputs, List.map_eq_nil_iff] at none
      rw [none] at several
      simp at several
    have parts := Compile.filterMap_chain? labels
      (fun chain inLane => inGraph chain (Compile.mem_joined inLane))
    rw [shape]
    change compiled.graph.chain? Compile.Video.concatLabel = _ at found
    simp only [Option.bind_some, found, Compile.reads_joining, nonempty, ↓reduceIte, parts]

end Picture

/-! ## Clips in turn -/

/-- A film whose clips with a picture follow one another at full speed. -/
structure InTurn (timeline : Timeline Rat) (clips : List (PlacedClip Rat)) : Prop where
  film : timeline.format = .mp4
  fullSpeed : ∀ clip ∈ clips, clip.speed = 1
  offsets : ∀ clip ∈ clips, clip.offset < 10 ^ 9
  /-- In lane order each clip starts where the one before it ends, or later. -/
  apart : (Lane.order (clips.filter (·.hasVideo))).IsChain fun x y => x.finish ≤ y.offset

theorem PlacedClip.Valid.offset_nonneg {clip : PlacedClip Rat} (valid : clip.Valid) :
    0 ≤ clip.offset := by
  have counted := valid.offset
  have zero : (0.0 : Rat) = 0 := by norm_num
  rw [isCount, Bool.and_eq_true, Bool.not_eq_true', decide_eq_false_iff_not, zero] at counted
  exact not_lt.mp counted.2

/-- Gaps in front of clips that follow one another are not negative. -/
theorem Lane.forward_gaps {position total : Rat} {clips : List (PlacedClip Rat)}
    (start : ∀ clip ∈ clips.head?, position ≤ clip.offset)
    (apart : clips.IsChain fun x y => x.finish ≤ y.offset) :
    ∀ gap ∈ (gapsFrom position clips total).take clips.length, 0 ≤ gap := by
  induction clips generalizing position with
  | nil => simp
  | cons first rest inductionHypothesis =>
      intro gap member
      rw [gapsFrom_cons, List.length_cons, List.take_succ_cons] at member
      rcases List.mem_cons.mp member with rfl | later
      · exact sub_nonneg.mpr (start first rfl)
      · apply inductionHypothesis _ apart.tail gap later
        intro next isNext
        cases rest with
        | nil => cases isNext
        | cons second others =>
            cases isNext
            exact (List.isChain_cons_cons.mp apart).1

/-- The same for the gaps of a lane, up to any of its clips. -/
theorem InTurn.forward_gaps {timeline : Timeline Rat} {clips earlier later : List (PlacedClip Rat)}
    (inTurn : InTurn timeline clips) (valid : ∀ clip ∈ clips, clip.Valid) (total : Rat)
    {clip : PlacedClip Rat}
    (split : Lane.order (clips.filter (·.hasVideo)) = earlier ++ clip :: later) :
    ∀ gap ∈ (Lane.gaps (clips.filter (·.hasVideo)) total).take (earlier.length + 1), 0 ≤ gap := by
  have start : ∀ first ∈ (Lane.order (clips.filter (·.hasVideo))).head?, 0 ≤ first.offset := by
    intro first isFirst
    have inLane := Lane.mem_order.mp (List.mem_of_head? isFirst)
    exact (valid first (List.mem_filter.mp inLane).1).offset_nonneg
  intro gap inGaps
  apply Lane.forward_gaps start inTurn.apart gap
  apply List.take_subset_take_left _ _ inGaps
  rw [split, List.length_append, List.length_cons]
  omega

section Starts

variable {timeline : Timeline Rat} {catalog : IdMap (Asset Rat)} {compiled : Compiled Rat}
  {clips : List (PlacedClip Rat)} {files : List (FileId × String)}

/-- A picture starts at its offset, less what the lane drops up to it. -/
theorem pictureStart_eq {inputs : List String}
    (accepted : assemble timeline clips inputs = .ok compiled)
    (distinct : (clips.map (·.index)).Nodup) (inTurn : InTurn timeline clips)
    {clip : PlacedClip Rat} (member : clip ∈ clips) (seen : clip.hasVideo = true)
    {earlier later : List (PlacedClip Rat)}
    (split : Lane.order (clips.filter (·.hasVideo)) = earlier ++ clip :: later) :
    compiled.pictureStart? clip.index = some (clip.offset - Lane.droppedLength
      ((Lane.gaps (clips.filter (·.hasVideo)) compiled.duration).take (earlier.length + 1))) := by
  obtain ⟨size, parts⟩ := pictureParts_eq accepted distinct inTurn.film member seen
  obtain ⟨before, after, laid, plays, length⟩ := Lane.segments_before compiled.duration split
  obtain ⟨next, cut⟩ := Compile.Video.laneChains_append size 0 before (.clip clip :: after)
  have labels := Compile.Video.outputs_lane_nodup size compiled.duration distinct
  rw [laid, cut, outputs_append] at labels
  have fresh : numbered "v" clip.index ∉ outputs (Compile.Video.laneChains size 0 before) := by
    intro inFront
    exact (List.nodup_append'.mp labels).2.2 inFront List.mem_cons_self
  have exact : ∀ other ∈ before.filterMap Lane.Segment.clip?,
      other.playedLength = other.effectiveDuration := by
    intro other inFront
    rw [plays] at inFront
    have inLane : other ∈ Lane.order (clips.filter (·.hasVideo)) := by
      rw [split]
      exact List.mem_append_left _ inFront
    have isClip := (List.mem_filter.mp (Lane.mem_order.mp inLane)).1
    exact PlacedClip.playedLength_of_exact (Or.inl (inTurn.fullSpeed other isClip))
  have named : (Compile.Video.clipChain size clip).output = numbered "v" clip.index := rfl
  rw [Compiled.pictureStart?, parts, laid, cut, Compile.Video.laneChains,
    startOf?_append named fresh, Compile.Video.playedInTurn_laneChains size 0 exact, length]

/-- Sound and picture of a clip start apart by what the lane drops up to the clip, and a millisecond
at most. -/
theorem starts_apart_by_dropped_gaps (accepted : compile timeline catalog = .ok compiled)
    (placed : placeClips catalog timeline.clips = .ok (clips, files))
    (inTurn : InTurn timeline clips) {clip : PlacedClip Rat} (member : clip ∈ clips)
    (heard : clip.hasAudio = true) (seen : clip.hasVideo = true) :
    ∃ earlier later dropped sound picture,
      Lane.order (clips.filter (·.hasVideo)) = earlier ++ clip :: later ∧
      dropped = Lane.droppedLength
        ((Lane.gaps (clips.filter (·.hasVideo)) compiled.duration).take (earlier.length + 1)) ∧
      compiled.soundStart? clip.index = some sound ∧
      compiled.pictureStart? clip.index = some picture ∧
      |sound - picture| ≤ dropped + 1 / 1000 ∧
      (dropped ≤ 1 / 100 → |sound - picture| ≤ 11 / 1000) := by
  obtain ⟨placedClips, placedFiles, placedAgain, assembled⟩ := compile_eq_ok accepted
  rw [placed] at placedAgain
  cases placedAgain
  obtain ⟨_, _, resolved⟩ := placeClips_eq_ok placed
  have distinct := resolved.indices_nodup
  have pictured : clip ∈ clips.filter (·.hasVideo) := List.mem_filter.mpr ⟨member, seen⟩
  obtain ⟨earlier, later, split⟩ := List.append_of_mem (Lane.mem_order.mpr pictured)
  have picture := pictureStart_eq assembled distinct inTurn member seen split
  have labels := (assemble_linked assembled distinct).distinct
  have sound : compiled.soundStart? clip.index = some (Compile.Audio.clipChain clip).silence := by
    have found := FilterGraph.chain?_of_mem labels (soundChain_mem assembled member heard)
    rw [Compiled.soundStart?]
    exact congrArg (Option.map Chain.silence) found
  obtain ⟨late, early⟩ := Compile.Audio.silence_bounds (resolved.valid_of_mem member).offset_nonneg
  have forward := inTurn.forward_gaps (fun _ => resolved.valid_of_mem) compiled.duration split
  have nonneg := (Lane.droppedLength_bounds forward).1
  refine ⟨earlier, later, _, _, _, split, rfl, sound, picture, ?_, ?_⟩
  · rw [abs_le]
    constructor <;> linarith
  · intro little
    rw [abs_le]
    constructor <;> linarith

end Starts

/-- The film once and again, with a gap below the tolerance in front of both. -/
def filmWithSmallGaps : Timeline Rat where
  clips := [Clip.whole film (1 / 128), Clip.whole film (321 / 64)]
  duration := none
  format := .mp4

/-- What placing the film twice gives. -/
def placedFilms : List (PlacedClip Rat) :=
  [(Clip.whole film (1 / 128)).placed film 0 0, (Clip.whole film (321 / 64)).placed film 1 0]

theorem filmWithSmallGaps_inTurn :
    placeClips [(film.id, film)] filmWithSmallGaps.clips =
        .ok (placedFilms, [(film.id, film.path)]) ∧
      InTurn filmWithSmallGaps placedFilms := by
  refine ⟨by decide +kernel, rfl, by decide +kernel, by decide +kernel, ?_⟩
  have laid : Lane.order (placedFilms.filter (·.hasVideo)) = placedFilms := by decide +kernel
  rw [laid]
  exact List.isChain_pair.mpr (by decide +kernel)

theorem starts_apart_by_a_millisecond :
    ∃ compiled, compile filmWithSmallGaps [(film.id, film)] = .ok compiled ∧
      ∀ clip ∈ placedFilms, ∃ earlier later dropped sound picture,
        Lane.order (placedFilms.filter (·.hasVideo)) = earlier ++ clip :: later ∧
        dropped = Lane.droppedLength
          ((Lane.gaps (placedFilms.filter (·.hasVideo)) compiled.duration).take
            (earlier.length + 1)) ∧
        compiled.soundStart? clip.index = some sound ∧
        compiled.pictureStart? clip.index = some picture ∧
        |sound - picture| ≤ dropped + 1 / 1000 ∧
        (dropped ≤ 1 / 100 → |sound - picture| ≤ 11 / 1000) := by
  obtain ⟨placed, inTurn⟩ := filmWithSmallGaps_inTurn
  have result : (compile filmWithSmallGaps [(film.id, film)]).map Compiled.inputs =
      .ok [film.path] := by
    decide +kernel
  have both : ∀ clip ∈ placedFilms, clip.hasAudio = true ∧ clip.hasVideo = true := by
    decide +kernel
  obtain ⟨compiled, accepted, -⟩ := exists_compiled result
  refine ⟨compiled, accepted, ?_⟩
  intro clip member
  obtain ⟨heard, seen⟩ := both clip member
  exact starts_apart_by_dropped_gaps accepted placed inTurn member heard seen

/-- Two gaps below the tolerance: the second picture starts a sixty-fourth of a second early, its
sound does not. -/
theorem dropped_gaps_add_up :
    ∃ compiled, compile filmWithSmallGaps [(film.id, film)] = .ok compiled ∧
      InTurn filmWithSmallGaps placedFilms ∧
      compiled.soundStart? 1 = some (5015 / 1000) ∧ compiled.pictureStart? 1 = some 5 ∧
      ¬ |(5015 / 1000 : Rat) - 5| ≤ 11 / 1000 := by
  obtain ⟨_, inTurn⟩ := filmWithSmallGaps_inTurn
  have result : (compile filmWithSmallGaps [(film.id, film)]).map (fun compiled =>
      (compiled.soundStart? 1, compiled.pictureStart? 1)) =
      .ok (some (5015 / 1000), some 5) := by
    decide +kernel
  obtain ⟨compiled, accepted, starts⟩ := exists_compiled result
  obtain ⟨sound, picture⟩ := Prod.mk.inj starts
  exact ⟨compiled, accepted, inTurn, sound, picture, by norm_num⟩

end Montage
