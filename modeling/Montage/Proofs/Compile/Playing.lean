import Mathlib.Tactic.Ring
import Montage.Proofs.Compile.WellFormed
import Montage.Proofs.Timeline.Stages

/-!
Contract: how long the chains of clips play.

A stage makes a stream longer or shorter, so a chain plays as long as its stages
say, taken in order. For a clip both chains play its effective duration, with
one exception: a speed next to one has no stage of its own, and then the clip
plays at full speed for the length of its trim.

Owns: the length a chain plays, finding a chain by its label, where the chains
of clips are in a graph, and `clip_chains_play`.
Does not own: when a chain starts, in `Proofs.Compile.Sync`.
-/

namespace Montage

open Montage.Number
open Montage.Media
open Montage.Graph
open Montage.Compile (Side Resolution numbered joined)

/-! ## Lengths of streams -/

namespace Graph

/-- How long a stream plays behind a stage. Silence put in front of it does not count. -/
def Filter.played (length : Rat) : Graph.Filter Rat → Rat
  | .trim start finish => finish - start
  | .audioTrim start finish => finish - start
  | .tempo factor => length / factor
  | .setPts (.scale factor) => length * factor
  | .audioSetPts (.scale factor) => length * factor
  | .black _ _ duration _ => duration
  | _ => length

def Chain.played (chain : Chain Rat) : Rat := chain.filters.foldl Filter.played 0

theorem played_tempos (length : Rat) (factors : List Rat) :
    (factors.map Filter.tempo).foldl Filter.played length = length / factors.prod := by
  induction factors generalizing length with
  | nil => simp
  | cons factor rest inductionHypothesis =>
      rw [List.map_cons, List.foldl_cons, inductionHypothesis, List.prod_cons]
      show length / factor / rest.prod = length / (factor * rest.prod)
      rw [div_div]

/-! ## Chains by label -/

variable {α : Type}

/-- The chain that gives a label. -/
def FilterGraph.chain? (graph : FilterGraph α) (label : Label) : Option (Chain α) :=
  graph.chains.find? fun chain => chain.output == label

theorem find_output {chains : List (Chain α)} {chain : Chain α}
    (distinct : (outputs chains).Nodup) (member : chain ∈ chains) :
    chains.find? (fun other => other.output == chain.output) = some chain := by
  induction chains with
  | nil => cases member
  | cons first rest inductionHypothesis =>
      obtain ⟨unused, restDistinct⟩ := List.nodup_cons.mp distinct
      rcases List.mem_cons.mp member with rfl | inRest
      · simp
      · have apart : (first.output == chain.output) = false := by
          rw [beq_eq_false_iff_ne]
          intro same
          apply unused
          show first.output ∈ outputs rest
          rw [same]
          exact List.mem_map_of_mem inRest
        rw [List.find?_cons, apart]
        exact inductionHypothesis restDistinct inRest

theorem FilterGraph.chain?_of_mem {graph : FilterGraph α} {chain : Chain α}
    (distinct : (outputs graph.chains).Nodup) (member : chain ∈ graph.chains) :
    graph.chain? chain.output = some chain :=
  find_output distinct member

end Graph

/-! ## Chains of clips -/

namespace PlacedClip

/-- How long a clip plays: a speed next to one counts as one. -/
def playedLength (clip : PlacedClip Rat) : Rat :=
  if |clip.speed - 1| < 1 / 1000 then clip.trimEnd - clip.trimStart else clip.effectiveDuration

theorem playedLength_of_exact {clip : PlacedClip Rat}
    (exact : clip.speed = 1 ∨ 1 / 1000 ≤ |clip.speed - 1|) :
    clip.playedLength = clip.effectiveDuration := by
  unfold playedLength
  rcases exact with full | apart
  · split
    · rw [effectiveDuration, full, div_one]
    · rfl
  · rw [if_neg (not_lt.mpr apart)]

theorem playedLength_of_near {clip : PlacedClip Rat} (near : |clip.speed - 1| < 1 / 1000) :
    clip.playedLength = clip.trimEnd - clip.trimStart :=
  if_pos near

end PlacedClip

namespace Compile

theorem Audio.played_clipChain (clip : PlacedClip Rat) :
    (Audio.clipChain clip).played = clip.playedLength := by
  have behindTrim : (Audio.clipChain clip).played =
      (clip.trimEnd - clip.trimStart) / (Speed.stages clip.speed).prod := by
    simp only [Chain.played, Audio.clipChain, List.foldl_append, Speed.filters]
    rw [← played_tempos]
    have delayed : ∀ length, (Audio.delay? clip).toList.foldl Filter.played length = length := by
      intro length
      unfold Audio.delay?
      simp only
      split <;> rfl
    have amplified : ∀ length, (Audio.gain? clip).toList.foldl Filter.played length = length := by
      intro length
      unfold Audio.gain?
      split <;> rfl
    rw [delayed, amplified]
    rfl
  rw [behindTrim, PlacedClip.playedLength]
  split
  · next near =>
      rw [Speed.stages_of_unity ((Speed.isUnity_iff _).mpr near), List.prod_nil, div_one]
  · next apart =>
      have retimed : Speed.isUnity clip.speed = false := by
        rw [← Bool.not_eq_true, Speed.isUnity_iff]
        exact apart
      rw [Speed.stages_prod retimed]
      rfl

theorem Video.played_clipChain (size : Resolution) (clip : PlacedClip Rat) :
    (Video.clipChain size clip).played = clip.playedLength := by
  have one : (1.0 : Rat) = 1 := by norm_num
  unfold PlacedClip.playedLength
  simp only [Chain.played, Video.clipChain, Video.stretch?]
  by_cases near : |clip.speed - 1| < 1 / 1000
  · rw [if_pos near, if_pos ((Speed.isUnity_iff _).mpr near)]
    rfl
  · rw [if_neg near, if_neg (fun unity => near ((Speed.isUnity_iff _).mp unity))]
    show (clip.trimEnd - clip.trimStart) * (1.0 / clip.speed) = clip.effectiveDuration
    rw [one, PlacedClip.effectiveDuration]
    ring

theorem Video.played_fillerChain (size : Resolution) (ordinal : Nat) (duration : Rat) :
    (Video.fillerChain size ordinal duration).played = duration := rfl

variable {α : Type}

theorem mem_joined {chains : List (Chain α)} {label : Label} {join : Nat → Graph.Filter α}
    {chain : Chain α} (member : chain ∈ chains) : chain ∈ (joined chains label join).chains := by
  rcases joined_cases chains label join with
    ⟨rfl, _⟩ | ⟨only, rfl, shape⟩ | ⟨_, shape⟩
  · cases member
  · rw [shape]
    exact member
  · rw [shape]
    exact List.mem_append_left _ member

/-- A lane cut in two makes the chains of both parts, with fillers numbered on. -/
theorem Video.laneChains_append (size : Resolution) (ordinal : Nat)
    (first second : List (Lane.Segment α)) [Seconds α] :
    ∃ next, Video.laneChains size ordinal (first ++ second) =
      Video.laneChains size ordinal first ++ Video.laneChains size next second := by
  induction first generalizing ordinal with
  | nil => exact ⟨ordinal, rfl⟩
  | cons segment rest inductionHypothesis =>
      cases segment with
      | filler duration =>
          obtain ⟨next, cut⟩ := inductionHypothesis (ordinal + 1)
          refine ⟨next, ?_⟩
          rw [List.cons_append, Video.laneChains, cut]
          rfl
      | clip clip =>
          obtain ⟨next, cut⟩ := inductionHypothesis ordinal
          refine ⟨next, ?_⟩
          rw [List.cons_append, Video.laneChains, cut]
          rfl

theorem Video.clipChain_mem_laneChains [Seconds α] (size : Resolution) (ordinal : Nat)
    {segments : List (Lane.Segment α)} {clip : PlacedClip α} (inLane : .clip clip ∈ segments) :
    Video.clipChain size clip ∈ Video.laneChains size ordinal segments := by
  obtain ⟨before, after, rfl⟩ := List.append_of_mem inLane
  obtain ⟨next, parts⟩ := Video.laneChains_append size ordinal before (.clip clip :: after)
  rw [parts]
  exact List.mem_append_right _ List.mem_cons_self

end Compile

theorem Lane.clip_mem_segments {α : Type} [Seconds α] {clips : List (PlacedClip α)}
    {clip : PlacedClip α} (member : clip ∈ clips) (total : α) : .clip clip ∈ segments clips total := by
  have laid : clip ∈ (segments clips total).filterMap Segment.clip? := by
    rw [segments_clips, mem_order]
    exact member
  obtain ⟨segment, inLane, isClip⟩ := List.mem_filterMap.mp laid
  cases segment with
  | filler duration => cases isClip
  | clip placed =>
      cases isClip
      exact inLane

/-! ## Chains in a graph -/

section Graphs

variable {α : Type} [Seconds α] {timeline : Timeline α} {catalog : IdMap (Asset α)}
  {clips : List (PlacedClip α)} {inputs : List String} {compiled : Compiled α}

/-- With a clip that has a picture, a film has the lane of all such clips as its picture side. -/
theorem pictureSide_of_film (film : timeline.format = .mp4) {clip : PlacedClip α}
    (member : clip ∈ clips) (seen : clip.hasVideo = true) :
    ∃ size, pictureSide timeline clips =
      joined (Compile.Video.laneChains size 0 (Lane.segments (clips.filter (·.hasVideo))
        (timelineDuration clips timeline.durationOverride?))) Compile.Video.concatLabel .concat := by
  have pictured : clip ∈ clips.filter (·.hasVideo) := List.mem_filter.mpr ⟨member, seen⟩
  have nonempty : (clips.filter (·.hasVideo)).isEmpty = false := by
    rw [List.isEmpty_eq_false_iff]
    exact List.ne_nil_of_mem pictured
  refine ⟨Compile.Video.resolution (clips.filter (·.hasVideo)), ?_⟩
  simp only [pictureSide, videoSide?, film, OutputFormat.isAudioOnly, Bool.false_eq_true, ↓reduceIte,
    Compile.Video.assemble?, nonempty, Option.map_some, Option.getD_some, Compile.Video.framed]

/-- Only a film has a picture side, and its chains make the lane of the clips with a picture. -/
theorem mem_pictureSide {chain : Chain α}
    (member : chain ∈ (pictureSide timeline clips).chains) :
    timeline.format = .mp4 ∧ ∃ size, chain ∈
      (joined (Compile.Video.laneChains size 0 (Lane.segments (clips.filter (·.hasVideo))
        (timelineDuration clips timeline.durationOverride?))) Compile.Video.concatLabel
          .concat).chains := by
  unfold pictureSide videoSide? at member
  split at member
  · cases member
  · next film =>
      have isFilm : timeline.format = .mp4 := by
        cases shape : timeline.format with
        | mp4 => rfl
        | mp3 => exact absurd (by rw [shape]; rfl) film
      refine ⟨isFilm, ?_⟩
      cases assembled : Compile.Video.assemble? clips
          (timelineDuration clips timeline.durationOverride?) with
      | none =>
          rw [assembled] at member
          cases member
      | some side =>
          rw [assembled] at member
          obtain ⟨picture, size⟩ := side
          refine ⟨size, ?_⟩
          rw [← Compile.Video.assemble?_eq_some assembled]
          exact member

theorem soundChain_mem (accepted : assemble timeline clips inputs = .ok compiled)
    {clip : PlacedClip α} (member : clip ∈ clips) (heard : clip.hasAudio = true) :
    Compile.Audio.clipChain clip ∈ compiled.graph.chains := by
  obtain ⟨_, chains, _, _, _⟩ := assemble_eq_ok accepted
  rw [chains]
  apply List.mem_append_left
  apply Compile.mem_joined
  exact List.mem_map_of_mem (List.mem_filter.mpr ⟨member, heard⟩)

theorem pictureChain_mem (accepted : assemble timeline clips inputs = .ok compiled)
    (film : timeline.format = .mp4) {clip : PlacedClip α} (member : clip ∈ clips)
    (seen : clip.hasVideo = true) :
    ∃ size, Compile.Video.clipChain size clip ∈ compiled.graph.chains := by
  obtain ⟨_, chains, _, _, _⟩ := assemble_eq_ok accepted
  obtain ⟨size, side⟩ := pictureSide_of_film film member seen
  refine ⟨size, ?_⟩
  rw [chains, side]
  apply List.mem_append_right
  apply Compile.mem_joined
  apply Compile.Video.clipChain_mem_laneChains
  exact Lane.clip_mem_segments (List.mem_filter.mpr ⟨member, seen⟩) _

end Graphs

/-! ## What clips play -/

/-- Every chain that a clip has in a graph plays for some length. -/
structure Compiled.Plays (compiled : Compiled Rat) (format : OutputFormat) (clip : PlacedClip Rat)
    (length : Rat) : Prop where
  sound : clip.hasAudio = true →
    ∃ chain, compiled.graph.chain? (numbered "a" clip.index) = some chain ∧ chain.played = length
  picture : clip.hasVideo = true → format = .mp4 →
    ∃ chain, compiled.graph.chain? (numbered "v" clip.index) = some chain ∧ chain.played = length

theorem assemble_plays {timeline : Timeline Rat} {clips : List (PlacedClip Rat)}
    {inputs : List String} {compiled : Compiled Rat}
    (accepted : assemble timeline clips inputs = .ok compiled)
    (distinct : (clips.map (·.index)).Nodup) {clip : PlacedClip Rat} (member : clip ∈ clips) :
    compiled.Plays timeline.format clip clip.playedLength := by
  have labels := (assemble_linked accepted distinct).distinct
  constructor
  · intro heard
    have inGraph := soundChain_mem accepted member heard
    exact ⟨_, FilterGraph.chain?_of_mem labels inGraph, Compile.Audio.played_clipChain clip⟩
  · intro seen film
    obtain ⟨size, inGraph⟩ := pictureChain_mem accepted film member seen
    exact ⟨_, FilterGraph.chain?_of_mem labels inGraph, Compile.Video.played_clipChain size clip⟩

/-- The chains of a clip play its effective duration, unless its speed is next to one but not one:
then they play the whole trim. -/
theorem clip_chains_play {timeline : Timeline Rat} {catalog : IdMap (Asset Rat)}
    {compiled : Compiled Rat} (accepted : compile timeline catalog = .ok compiled) :
    ∃ clips files, placeClips catalog timeline.clips = .ok (clips, files) ∧
      ∀ clip ∈ clips,
        (clip.speed = 1 ∨ 1 / 1000 ≤ |clip.speed - 1| →
          compiled.Plays timeline.format clip clip.effectiveDuration) ∧
        (|clip.speed - 1| < 1 / 1000 →
          compiled.Plays timeline.format clip (clip.trimEnd - clip.trimStart)) := by
  obtain ⟨clips, files, placed, assembled⟩ := compile_eq_ok accepted
  obtain ⟨_, _, resolved⟩ := placeClips_eq_ok placed
  refine ⟨clips, files, placed, ?_⟩
  intro clip member
  have plays := assemble_plays assembled resolved.indices_nodup member
  constructor
  · intro exact
    rw [PlacedClip.playedLength_of_exact exact] at plays
    exact plays
  · intro near
    rw [PlacedClip.playedLength_of_near near] at plays
    exact plays

/-- The film once, at a speed. -/
def filmAt (speed : Rat) : Timeline Rat where
  clips := [{ Clip.whole film 0 with speed := speed }]
  duration := none
  format := .mp4

theorem clip_chains_play_fourfold :
    ∃ compiled, compile (filmAt 4) [(film.id, film)] = .ok compiled ∧
      ∃ clips files, placeClips [(film.id, film)] (filmAt 4).clips = .ok (clips, files) ∧
        ∀ clip ∈ clips,
          (clip.speed = 1 ∨ 1 / 1000 ≤ |clip.speed - 1| →
            compiled.Plays (filmAt 4).format clip clip.effectiveDuration) ∧
          (|clip.speed - 1| < 1 / 1000 →
            compiled.Plays (filmAt 4).format clip (clip.trimEnd - clip.trimStart)) := by
  have result : (compile (filmAt 4) [(film.id, film)]).map Compiled.inputs = .ok [film.path] := by
    decide +kernel
  obtain ⟨compiled, accepted, -⟩ := exists_compiled result
  exact ⟨compiled, accepted, clip_chains_play accepted⟩

/-- Half a thousandth above full speed, five seconds of film play in five seconds, but the timeline
has a shorter place for them. -/
theorem near_full_speed_overruns :
    ∃ compiled clip files,
      placeClips [(film.id, film)] (filmAt (2001 / 2000)).clips = .ok ([clip], files) ∧
        compile (filmAt (2001 / 2000)) [(film.id, film)] = .ok compiled ∧
        clip.effectiveDuration = 10000 / 2001 ∧
        ¬ compiled.Plays .mp4 clip clip.effectiveDuration := by
  have result : (compile (filmAt (2001 / 2000)) [(film.id, film)]).map (fun compiled =>
      (compiled.graph.chain? (numbered "a" 0)).map Chain.played) = .ok (some 5) := by
    decide +kernel
  have placed : placeClips [(film.id, film)] (filmAt (2001 / 2000)).clips =
      .ok ([({ Clip.whole film 0 with speed := 2001 / 2000 } : Clip Rat).placed film 0 0],
        [(film.id, film.path)]) := by
    decide +kernel
  obtain ⟨compiled, accepted, played⟩ := exists_compiled result
  refine ⟨compiled, _, _, placed, accepted, by decide +kernel, ?_⟩
  intro plays
  obtain ⟨chain, found, length⟩ := plays.sound rfl
  have whole : (some chain).map Chain.played = some 5 := by
    rw [← found]
    exact played
  rw [Option.map_some, length, Option.some.injEq] at whole
  exact absurd whole (by decide +kernel)

end Montage
