import Montage.Proofs.Compile.Sync
import Montage.Proofs.Compile.Verdict
import Montage.Proofs.Timeline.Runs
import Montage.Timeline.BackToBack

/-!
Contract: files laid end to end play in the order given, without a break.

Each file becomes a clip of its whole length that starts where the files before
it end. Files without a picture leave gaps on the video lane, and a run of them
is one gap, which one filler stands for unless it is too short to be seen.

Owns: the clips of files laid end to end, and `backToBack_plays_seamlessly`.
Does not own: the lane of clips end to end, in `Proofs.Timeline.Runs`.
-/

namespace Montage

open Montage.Number
open Montage.Media
open Montage.Graph

/-! ## Whole files -/

section Whole

variable {asset : Asset Rat} {offset : Rat} {index input : Nat}

theorem effectiveDuration_whole :
    ((Clip.whole asset offset).placed asset index input).effectiveDuration = asset.duration := by
  have zero : (0.0 : Rat) = 0 := by norm_num
  have one : (1.0 : Rat) = 1 := by norm_num
  show (asset.duration - 0.0) / 1.0 = asset.duration
  rw [zero, one, sub_zero, div_one]

theorem finish_whole :
    ((Clip.whole asset offset).placed asset index input).finish = offset + asset.duration := by
  rw [PlacedClip.finish, effectiveDuration_whole]
  rfl

end Whole

/-! ## Clips in the order of their files -/

/-- How long the files before a position play. -/
def playedBefore (assets : List (Asset Rat)) (position : Nat) : Rat :=
  ((assets.take position).map (·.duration)).sum

theorem playedBefore_length (assets : List (Asset Rat)) :
    playedBefore assets assets.length = (assets.map (·.duration)).sum := by
  rw [playedBefore, List.take_length]

theorem playedBefore_zero (assets : List (Asset Rat)) : playedBefore assets 0 = 0 := rfl

theorem playedBefore_succ (asset : Asset Rat) (rest : List (Asset Rat)) (position : Nat) :
    playedBefore (asset :: rest) (position + 1) = asset.duration + playedBefore rest position := by
  rw [playedBefore, List.take_succ_cons, List.map_cons, List.sum_cons, playedBefore]

section Laid

variable {catalog : IdMap (Asset Rat)} {files : List (FileId × String)} {index : Nat} {offset : Rat}
  {assets : List (Asset Rat)} {clips : List (PlacedClip Rat)}

/-- The first of files laid end to end is placed as a whole, and the others behind it. -/
theorem Resolved.clipsFrom_cons {asset : Asset Rat} {rest : List (Asset Rat)}
    (resolved : Resolved catalog files index (clipsFrom offset (asset :: rest)) clips)
    (held : IdMap.get? asset.id catalog = some asset) :
    ∃ input others, files[input]? = some (asset.id, asset.path) ∧
      clips = (Clip.whole asset offset).placed asset index input :: others ∧
      Resolved catalog files (index + 1) (clipsFrom (offset + asset.duration) rest) others := by
  rw [clipsFrom] at resolved
  cases resolved with
  | cons head behind =>
      obtain ⟨found, input, known, _, listed, rfl⟩ := head
      cases held.symm.trans known
      exact ⟨input, _, listed, rfl, behind⟩

/-- Placed clips of files laid end to end, each where the files before it end. -/
theorem Resolved.getElem?_clipsFrom
    (resolved : Resolved catalog files index (clipsFrom offset assets) clips)
    (held : ∀ asset ∈ assets, IdMap.get? asset.id catalog = some asset) {position : Nat}
    {asset : Asset Rat} (here : assets[position]? = some asset) :
    ∃ input, files[input]? = some (asset.id, asset.path) ∧
      clips[position]? = some ((Clip.whole asset (offset + playedBefore assets position)).placed asset
        (index + position) input) := by
  induction assets generalizing offset index clips position with
  | nil => cases here
  | cons first rest inductionHypothesis =>
      obtain ⟨input, others, listed, rfl, behind⟩ := resolved.clipsFrom_cons (held first (by simp))
      cases position with
      | zero =>
          cases here
          refine ⟨input, listed, ?_⟩
          rw [playedBefore_zero, add_zero]
          rfl
      | succ position =>
          obtain ⟨laterInput, laterListed, found⟩ := inductionHypothesis behind
            (fun later member => held later (List.mem_cons_of_mem first member)) here
          refine ⟨laterInput, laterListed, ?_⟩
          rw [List.getElem?_cons_succ, found, playedBefore_succ, add_assoc,
            Nat.add_right_comm index 1 position]
          rfl

/-- A placed clip shows what its file shows and plays as long. -/
theorem Resolved.map_clipsFrom
    (resolved : Resolved catalog files index (clipsFrom offset assets) clips)
    (held : ∀ asset ∈ assets, IdMap.get? asset.id catalog = some asset) :
    clips.map (fun clip => (clip.hasVideo, clip.effectiveDuration)) =
      assets.map (fun asset => (asset.hasVideo, asset.duration)) := by
  induction assets generalizing offset index clips with
  | nil =>
      cases resolved
      rfl
  | cons first rest inductionHypothesis =>
      obtain ⟨input, others, _, rfl, behind⟩ := resolved.clipsFrom_cons (held first (by simp))
      rw [List.map_cons, List.map_cons, effectiveDuration_whole, inductionHypothesis behind
        fun later member => held later (List.mem_cons_of_mem first member)]
      rfl

theorem Resolved.endToEnd (resolved : Resolved catalog files index (clipsFrom offset assets) clips)
    (held : ∀ asset ∈ assets, IdMap.get? asset.id catalog = some asset) :
    Lane.EndToEnd offset clips (offset + playedBefore assets assets.length) := by
  induction assets generalizing offset index clips with
  | nil =>
      cases resolved
      show offset = offset + 0
      rw [add_zero]
  | cons first rest inductionHypothesis =>
      have valid : ∀ clip ∈ clips, clip.Valid := fun clip member => resolved.valid_of_mem member
      obtain ⟨input, others, _, rfl, behind⟩ := resolved.clipsFrom_cons (held first (by simp))
      have later := inductionHypothesis behind
        fun later member => held later (List.mem_cons_of_mem first member)
      refine ⟨rfl, (valid _ List.mem_cons_self).effectiveDuration_pos, ?_⟩
      rw [finish_whole, List.length_cons, playedBefore_succ, ← add_assoc]
      exact later

end Laid

/-! ## Timelines -/

/-- Files play one after another in the order given: each as a whole where those before it end, and
on the video lane with one filler for each maximal run of files without a picture that plays for
more than a hundredth of a second. -/
structure PlaysSeamlessly (assets : List (Asset Rat)) (clips : List (PlacedClip Rat))
    (compiled : Compiled Rat) : Prop where
  matched : clips.map (fun clip => (clip.hasVideo, clip.effectiveDuration)) =
    assets.map (fun asset => (asset.hasVideo, asset.duration))
  placed : ∀ position asset, assets[position]? = some asset →
    ∃ input, compiled.inputs[input]? = some asset.path ∧
      clips[position]? = some
        ((Clip.whole asset (playedBefore assets position)).placed asset position input)
  duration : compiled.duration = (assets.map (·.duration)).sum
  soundOnly : (backToBack assets).format = .mp3 ↔ ∀ asset ∈ assets, asset.hasVideo = false
  picture : compiled.videoOutput.isSome = true ↔ ∃ asset ∈ assets, asset.hasVideo = true
  lane : compiled.videoOutput.isSome = true → ∃ size, compiled.pictureParts =
    Compile.Video.laneChains size 0 ((Lane.runs clips).flatMap Lane.runSegments)
  unbroken : (∀ asset ∈ assets, asset.hasVideo = true) →
    (Lane.runs clips).flatMap Lane.runSegments = clips.map .clip

theorem backToBack_format_of_seen {assets : List (Asset Rat)}
    (seen : ∃ asset ∈ assets, asset.hasVideo = true) : (backToBack assets).format = .mp4 :=
  if_pos (List.any_eq_true.mpr seen)

theorem backToBack_format_eq_mp3_iff {assets : List (Asset Rat)} :
    (backToBack assets).format = .mp3 ↔ ∀ asset ∈ assets, asset.hasVideo = false := by
  constructor
  · intro soundOnly asset member
    by_contra shows
    have film := backToBack_format_of_seen ⟨asset, member, Bool.not_eq_false _ ▸ shows⟩
    rw [soundOnly] at film
    cases film
  · intro unseen
    apply if_neg
    rw [List.any_eq_true]
    rintro ⟨asset, member, shows⟩
    rw [unseen asset member] at shows
    cases shows

section Compiled

variable {catalog : IdMap (Asset Rat)} {assets : List (Asset Rat)} {compiled : Compiled Rat}

theorem map_hasVideo_eq {clips : List (PlacedClip Rat)}
    (matched : clips.map (fun clip => (clip.hasVideo, clip.effectiveDuration)) =
      assets.map (fun asset => (asset.hasVideo, asset.duration))) :
    clips.map (·.hasVideo) = assets.map (·.hasVideo) := by
  have first := congrArg (List.map Prod.fst) matched
  simpa only [List.map_map, Function.comp_def] using first

theorem exists_seen_iff {clips : List (PlacedClip Rat)}
    (matched : clips.map (fun clip => (clip.hasVideo, clip.effectiveDuration)) =
      assets.map (fun asset => (asset.hasVideo, asset.duration))) :
    (∃ clip ∈ clips, clip.hasVideo = true) ↔ ∃ asset ∈ assets, asset.hasVideo = true := by
  have same : true ∈ clips.map (·.hasVideo) ↔ true ∈ assets.map (·.hasVideo) := by
    rw [map_hasVideo_eq matched]
  simpa only [List.mem_map] using same

theorem filter_hasVideo_of_seen {clips : List (PlacedClip Rat)}
    (matched : clips.map (fun clip => (clip.hasVideo, clip.effectiveDuration)) =
      assets.map (fun asset => (asset.hasVideo, asset.duration)))
    (allSeen : ∀ asset ∈ assets, asset.hasVideo = true) : clips.filter (·.hasVideo) = clips := by
  apply List.filter_eq_self.mpr
  intro clip member
  have kind : clip.hasVideo ∈ assets.map (·.hasVideo) :=
    map_hasVideo_eq matched ▸
      List.mem_map_of_mem (f := fun clip : PlacedClip Rat => clip.hasVideo) member
  obtain ⟨asset, isAsset, same⟩ := List.mem_map.mp kind
  rw [← same]
  exact allSeen asset isAsset

/-- Whatever files are laid end to end, if that compiles they play seamlessly. -/
theorem backToBack_plays_seamlessly
    (held : ∀ asset ∈ assets, IdMap.get? asset.id catalog = some asset)
    (accepted : compile (backToBack assets) catalog = .ok compiled) :
    ∃ clips files, placeClips catalog (backToBack assets).clips = .ok (clips, files) ∧
      PlaysSeamlessly assets clips compiled := by
  obtain ⟨clips, files, placed, assembled⟩ := compile_eq_ok accepted
  obtain ⟨_, _, resolved⟩ := placeClips_eq_ok placed
  obtain ⟨inputs, -, -, -, -⟩ := assemble_eq_ok assembled
  have zero : (0.0 : Rat) = 0 := by norm_num
  have laid : Resolved catalog files 0 (clipsFrom 0 assets) clips := zero ▸ resolved
  have matched := laid.map_clipsFrom held
  have endToEnd : Lane.EndToEnd 0 clips (assets.map (·.duration)).sum := by
    have ends := laid.endToEnd held
    rwa [zero_add, playedBefore_length] at ends
  have duration : compiled.duration = (assets.map (·.duration)).sum := by
    rw [assemble_duration assembled]
    exact Lane.lastFinish_endToEnd endToEnd
  have picture : compiled.videoOutput.isSome = true ↔ ∃ asset ∈ assets, asset.hasVideo = true := by
    rw [isSome_videoOutput_iff assembled, exists_seen_iff matched]
    exact and_iff_right_of_imp backToBack_format_of_seen
  refine ⟨clips, files, placed, matched, ?_, duration, backToBack_format_eq_mp3_iff, picture, ?_, ?_⟩
  · intro position asset here
    obtain ⟨input, listed, found⟩ := laid.getElem?_clipsFrom held here
    refine ⟨input, ?_, ?_⟩
    · rw [inputs, List.getElem?_map, listed]
      rfl
    · rwa [zero_add, Nat.zero_add] at found
  · intro shows
    have seen := picture.mp shows
    obtain ⟨clip, member, clipSeen⟩ := (exists_seen_iff matched).mpr seen
    obtain ⟨size, parts⟩ := pictureParts_eq assembled resolved.indices_nodup
      (backToBack_format_of_seen seen) member clipSeen
    refine ⟨size, ?_⟩
    rw [parts, duration, Lane.segments_endToEnd endToEnd]
  · intro allSeen
    rw [← Lane.segments_endToEnd endToEnd, filter_hasVideo_of_seen matched allSeen,
      Lane.segments_of_pictures endToEnd]

end Compiled

/-! A narrated reel: two speeches in front of a film, a click that is too short for a filler, the film
again, and a speech at the end. -/

def speech : Asset Rat := ⟨⟨"speech"⟩, "/media/speech.wav", "speech.wav", 3, false, true, 0, 0⟩

def click : Asset Rat := ⟨⟨"click"⟩, "/media/click.wav", "click.wav", 1 / 200, false, true, 0, 0⟩

def narratedReel : List (Asset Rat) := [speech, speech, film, click, film, speech]

def reelCatalog : IdMap (Asset Rat) := [(film.id, film), (speech.id, speech), (click.id, click)]

theorem narratedReel_plays_seamlessly :
    ∃ compiled, compile (backToBack narratedReel) reelCatalog = .ok compiled ∧
      (∃ clips files, placeClips reelCatalog (backToBack narratedReel).clips = .ok (clips, files) ∧
        PlaysSeamlessly narratedReel clips compiled) ∧
      outputs compiled.pictureParts = [⟨"blk0"⟩, ⟨"v2"⟩, ⟨"v4"⟩, ⟨"blk1"⟩] ∧
      compiled.pictureParts.map Graph.Chain.played = [6, 5, 5, 3] := by
  have held : ∀ asset ∈ narratedReel, IdMap.get? asset.id reelCatalog = some asset := by
    decide +kernel
  have result : (compile (backToBack narratedReel) reelCatalog).map (fun compiled =>
      (outputs compiled.pictureParts, compiled.pictureParts.map Graph.Chain.played)) =
      .ok ([⟨"blk0"⟩, ⟨"v2"⟩, ⟨"v4"⟩, ⟨"blk1"⟩], [6, 5, 5, 3]) := by
    decide +kernel
  obtain ⟨compiled, accepted, parts⟩ := exists_compiled result
  obtain ⟨labels, lengths⟩ := Prod.mk.inj parts
  exact ⟨compiled, accepted, backToBack_plays_seamlessly held accepted, labels, lengths⟩

end Montage
