import Mathlib.Data.List.Induction
import Mathlib.Logic.Relation
import Montage.Media.Probe
import Montage.Proofs.Number.Finite

/-!
Contract: what is told about a file depends on the streams that count, and on nothing else.

A later picture overwrites an earlier one, a sound leaves a mark that nothing
takes away, and every other stream passes without a trace. So a run over the
streams is known from the last picture and from whether there is a sound: idle
streams may come, go, be repeated and be moved, and sounds may stand anywhere.

Owns: pictures, sounds and idle streams, what a run over streams tells,
rearranged streams, and `summary_of_what_counts`.
Does not own: how streams are read from a report.
-/

namespace Montage.Media

open Montage.Number
open Montage.Number.Binary64

/-! ## Kinds of streams -/

namespace Stream

variable {stream : Stream}

/-- A video stream whose codec, if it has one, is none of embedded pictures. -/
structure IsPicture (stream : Stream) : Prop where
  video : stream.kind = some "video"
  moving : stream.codec ≠ some "mjpeg" ∧ stream.codec ≠ some "png"

def IsSound (stream : Stream) : Prop := stream.kind = some "audio"

/-- A stream that does not count: cover art, or whatever is neither video nor audio, as subtitles and
streams without a kind are. -/
inductive IsIdle (stream : Stream) : Prop where
  | coverArt (video : stream.kind = some "video")
      (still : stream.codec = some "mjpeg" ∨ stream.codec = some "png")
  | otherKind (notVideo : stream.kind ≠ some "video") (notAudio : stream.kind ≠ some "audio")

theorem isVideo_iff : stream.isVideo = true ↔ stream.IsPicture := by
  have still : (stream.codec.any fun codec => pictureCodecs.contains codec) = true ↔
      stream.codec = some "mjpeg" ∨ stream.codec = some "png" := by
    cases stream.codec <;> simp [pictureCodecs]
  unfold isVideo
  rw [Bool.and_eq_true, beq_iff_eq, Bool.not_eq_true', ← Bool.not_eq_true, still, not_or]
  exact ⟨fun picture => ⟨picture.1, picture.2⟩, fun picture => ⟨picture.video, picture.moving⟩⟩

theorem isAudio_iff : stream.isAudio = true ↔ stream.IsSound := beq_iff_eq

theorem IsSound.notVideo (isSound : stream.IsSound) : stream.kind ≠ some "video" := by
  intro video
  have sameKind : some "audio" = some "video" := isSound.symm.trans video
  exact absurd sameKind (by decide)

theorem IsSound.not_isPicture (isSound : stream.IsSound) : ¬ stream.IsPicture :=
  fun isPicture => isSound.notVideo isPicture.video

theorem IsIdle.not_isPicture (isIdle : stream.IsIdle) : ¬ stream.IsPicture := by
  intro isPicture
  cases isIdle with
  | coverArt _ still => exact (not_or.mpr isPicture.moving) still
  | otherKind notVideo _ => exact notVideo isPicture.video

theorem IsIdle.not_isSound (isIdle : stream.IsIdle) : ¬ stream.IsSound := by
  intro isSound
  cases isIdle with
  | coverArt video _ => exact isSound.notVideo video
  | otherKind _ notAudio => exact notAudio isSound

theorem isIdle_of_not (notPicture : ¬ stream.IsPicture) (notSound : ¬ stream.IsSound) :
    stream.IsIdle := by
  by_cases video : stream.kind = some "video"
  · refine .coverArt video ?_
    by_contra moving
    exact notPicture ⟨video, not_or.mp moving⟩
  · exact .otherKind video notSound

/-- A side as it is given, and as it is told: what is no whole number of 32 bits counts as zero. -/
inductive IsSide : Option Int → Nat → Prop where
  | missing : IsSide none 0
  | within {length : Nat} (short : length < 2 ^ 32) : IsSide (some length) length
  | outside {length : Int} (beyond : length < 0 ∨ 2 ^ 32 ≤ length) : IsSide (some length) 0

theorem isSide_side (given : Option Int) : IsSide given (side given) := by
  cases given with
  | none => exact .missing
  | some length =>
      change IsSide (some length) (if 0 ≤ length ∧ length < 4294967296 then length.toNat else 0)
      split
      · next within =>
          have whole : ((length.toNat : Nat) : Int) = length := Int.toNat_of_nonneg within.1
          have told : IsSide (some (length.toNat : Int)) length.toNat := .within (by omega)
          rwa [whole] at told
      · next beyond => exact .outside (by omega)

end Stream

/-! ## One stream -/

namespace Probed

section Step

variable {α : Type} {stream sound other : Stream}

theorem addStream_picture (media : Probed α) (isPicture : stream.IsPicture) :
    media.addStream stream =
      { media with
        hasVideo := true
        width := Stream.side stream.width
        height := Stream.side stream.height } := by
  rw [addStream, if_pos (Stream.isVideo_iff.mpr isPicture)]

theorem addStream_sound (media : Probed α) (isSound : stream.IsSound) :
    media.addStream stream = { media with hasAudio := true } := by
  rw [addStream, if_neg (mt Stream.isVideo_iff.mp isSound.not_isPicture),
    if_pos (Stream.isAudio_iff.mpr isSound)]

theorem addStream_idle (media : Probed α) (isIdle : stream.IsIdle) :
    media.addStream stream = media := by
  rw [addStream, if_neg (mt Stream.isVideo_iff.mp isIdle.not_isPicture),
    if_neg (mt Stream.isAudio_iff.mp isIdle.not_isSound)]

theorem duration_addStream (media : Probed α) (stream : Stream) :
    (media.addStream stream).duration = media.duration := by
  unfold addStream
  split
  · rfl
  · split <;> rfl

/-- A sound may be heard before or after any other stream. -/
theorem addStream_comm (media : Probed α) (isSound : sound.IsSound) :
    (media.addStream sound).addStream other = (media.addStream other).addStream sound := by
  rw [addStream_sound media isSound, addStream_sound _ isSound]
  unfold addStream
  split
  · rfl
  · split <;> rfl

end Step

end Probed

/-! ## A run over the streams -/

section Run

variable {α : Type} {length : α} {streams others : List Stream} {media : Probed α}

/-- The sides of the frames: those of the last picture, each on its own. -/
inductive FrameSides : List Stream → Nat → Nat → Prop where
  | noPicture {streams : List Stream} (unseen : ∀ stream ∈ streams, ¬ stream.IsPicture) :
      FrameSides streams 0 0
  | lastPicture {before after : List Stream} {picture : Stream} {width height : Nat}
      (isPicture : picture.IsPicture) (last : ∀ stream ∈ after, ¬ stream.IsPicture)
      (ofWidth : Stream.IsSide picture.width width)
      (ofHeight : Stream.IsSide picture.height height) :
      FrameSides (before ++ picture :: after) width height

theorem FrameSides.concat {width height : Nat} {stream : Stream}
    (sides : FrameSides streams width height) (notPicture : ¬ stream.IsPicture) :
    FrameSides (streams ++ [stream]) width height := by
  have none {behind : List Stream} (unseen : ∀ stream ∈ behind, ¬ stream.IsPicture) :
      ∀ other ∈ behind ++ [stream], ¬ other.IsPicture :=
    List.forall_mem_append.mpr ⟨unseen, List.forall_mem_singleton.mpr notPicture⟩
  cases sides with
  | noPicture unseen => exact .noPicture (none unseen)
  | lastPicture isPicture last ofWidth ofHeight =>
      rw [List.append_assoc, List.cons_append]
      exact .lastPicture isPicture (none last) ofWidth ofHeight

/-- All that is told about a file of some length with these streams. -/
structure Summarizes (length : α) (streams : List Stream) (media : Probed α) : Prop where
  duration : media.duration = length
  hasAudio : media.hasAudio = true ↔ ∃ stream ∈ streams, stream.IsSound
  hasVideo : media.hasVideo = true ↔ ∃ stream ∈ streams, stream.IsPicture
  sides : FrameSides streams media.width media.height

theorem summarizes_ofDuration (length : α) : Summarizes length [] (.ofDuration length) where
  duration := rfl
  hasAudio := by simp [Probed.ofDuration]
  hasVideo := by simp [Probed.ofDuration]
  sides := .noPicture (by simp)

theorem Summarizes.addStream (told : Summarizes length streams media) (stream : Stream) :
    Summarizes length (streams ++ [stream]) (media.addStream stream) := by
  have duration : (media.addStream stream).duration = length :=
    (media.duration_addStream stream).trans told.duration
  by_cases isPicture : stream.IsPicture
  · have notSound : ¬ stream.IsSound := fun isSound => isSound.not_isPicture isPicture
    rw [media.addStream_picture isPicture] at duration ⊢
    refine ⟨duration, ?_, ?_, ?_⟩
    · simp [told.hasAudio, notSound]
    · simp [isPicture]
    · exact .lastPicture isPicture (by simp) (Stream.isSide_side _) (Stream.isSide_side _)
  by_cases isSound : stream.IsSound
  · rw [media.addStream_sound isSound] at duration ⊢
    refine ⟨duration, ?_, ?_, told.sides.concat isPicture⟩
    · simp [isSound]
    · simp [told.hasVideo, isPicture]
  · rw [media.addStream_idle (Stream.isIdle_of_not isPicture isSound)] at duration ⊢
    refine ⟨duration, ?_, ?_, told.sides.concat isPicture⟩
    · simp [told.hasAudio, isSound]
    · simp [told.hasVideo, isPicture]

theorem summarizes_foldl (length : α) (streams : List Stream) :
    Summarizes length streams (streams.foldl Probed.addStream (.ofDuration length)) := by
  induction streams using List.reverseRecOn with
  | nil => exact summarizes_ofDuration length
  | append_singleton streams stream inductionHypothesis =>
      rw [List.foldl_concat]
      exact inductionHypothesis.addStream stream

/-! ## Rearranged streams -/

/-- One stream that does not count is put in, or a sound changes places with the stream behind it. -/
inductive Shifted : List Stream → List Stream → Prop where
  | putIn (before after : List Stream) {idle : Stream} (isIdle : idle.IsIdle) :
      Shifted (before ++ after) (before ++ idle :: after)
  | heardLater (before after : List Stream) {sound other : Stream} (isSound : sound.IsSound) :
      Shifted (before ++ sound :: other :: after) (before ++ other :: sound :: after)

/-- Idle streams are put in, taken out, repeated and moved, and sounds are moved past any others. -/
def Rearranged : List Stream → List Stream → Prop := Relation.EqvGen Shifted

theorem Shifted.cons (shifted : Shifted streams others) (first : Stream) :
    Shifted (first :: streams) (first :: others) := by
  cases shifted with
  | putIn before after isIdle => exact .putIn (first :: before) after isIdle
  | heardLater before after isSound => exact .heardLater (first :: before) after isSound

theorem Rearranged.cons (rearranged : Rearranged streams others) (first : Stream) :
    Rearranged (first :: streams) (first :: others) := by
  induction rearranged with
  | rel _ _ shifted => exact .rel _ _ (shifted.cons first)
  | refl _ => exact .refl _
  | symm _ _ _ inductionHypothesis => exact .symm _ _ inductionHypothesis
  | trans _ _ _ _ _ earlier later => exact .trans _ _ _ earlier later

/-- Any number of sounds may be heard after a stream instead of before it. -/
theorem rearranged_behind {sounds : List Stream} (allSounds : ∀ sound ∈ sounds, sound.IsSound)
    (stream : Stream) (after : List Stream) :
    Rearranged (sounds ++ stream :: after) (stream :: (sounds ++ after)) := by
  induction sounds with
  | nil => exact .refl _
  | cons sound rest inductionHypothesis =>
      have isSound := allSounds sound List.mem_cons_self
      have behind := inductionHypothesis fun other member =>
        allSounds other (List.mem_cons_of_mem sound member)
      exact .trans _ _ _ (behind.cons sound) (.rel _ _ (.heardLater [] (rest ++ after) isSound))

theorem rearranged_of_perm {sounds reordered : List Stream} (perm : sounds.Perm reordered)
    (allSounds : ∀ sound ∈ sounds, sound.IsSound) (after : List Stream) :
    Rearranged (sounds ++ after) (reordered ++ after) := by
  induction perm with
  | nil => exact .refl _
  | cons sound _ inductionHypothesis =>
      exact (inductionHypothesis fun other member =>
        allSounds other (List.mem_cons_of_mem sound member)).cons sound
  | swap first second rest =>
      exact .rel _ _ (.heardLater [] (rest ++ after) (allSounds second List.mem_cons_self))
  | trans earlier _ first second =>
      exact .trans _ _ _ (first allSounds)
        (second fun sound member => allSounds sound (earlier.mem_iff.mpr member))

theorem isSound_of_mem_filter (streams : List Stream) :
    ∀ sound ∈ streams.filter (·.isAudio), sound.IsSound := by
  intro sound member
  exact Stream.isAudio_iff.mp (List.mem_filter.mp member).2

/-- The sounds can be heard first, the pictures seen after them, and the rest left out. -/
theorem rearranged_sorted (streams : List Stream) :
    Rearranged streams (streams.filter (·.isAudio) ++ streams.filter (·.isVideo)) := by
  induction streams with
  | nil => exact .refl _
  | cons stream rest inductionHypothesis =>
      by_cases isPicture : stream.IsPicture
      · have notSound : ¬ stream.IsSound := fun isSound => isSound.not_isPicture isPicture
        rw [List.filter_cons_of_pos (Stream.isVideo_iff.mpr isPicture),
          List.filter_cons_of_neg (mt Stream.isAudio_iff.mp notSound)]
        have behind := rearranged_behind (isSound_of_mem_filter rest) stream
          (rest.filter (·.isVideo))
        exact .trans _ _ _ (inductionHypothesis.cons stream) (.symm _ _ behind)
      rw [List.filter_cons_of_neg (mt Stream.isVideo_iff.mp isPicture)]
      by_cases isSound : stream.IsSound
      · rw [List.filter_cons_of_pos (Stream.isAudio_iff.mpr isSound)]
        exact inductionHypothesis.cons stream
      · rw [List.filter_cons_of_neg (mt Stream.isAudio_iff.mp isSound)]
        have isIdle := Stream.isIdle_of_not isPicture isSound
        exact .trans _ _ _ (.symm _ _ (.rel _ _ (.putIn [] rest isIdle))) inductionHypothesis

/-- Streams that are rearranged have the same pictures in the same order and the same sounds. -/
theorem Shifted.counting (shifted : Shifted streams others) :
    streams.filter (·.isVideo) = others.filter (·.isVideo) ∧
      (streams.filter (·.isAudio)).Perm (others.filter (·.isAudio)) := by
  cases shifted with
  | putIn before after isIdle =>
      simp [List.filter_cons_of_neg (mt Stream.isVideo_iff.mp isIdle.not_isPicture),
        List.filter_cons_of_neg (mt Stream.isAudio_iff.mp isIdle.not_isSound)]
  | @heardLater before after sound other isSound =>
      have notPicture := mt Stream.isVideo_iff.mp isSound.not_isPicture
      have swapped : (sound :: other :: after).Perm (other :: sound :: after) :=
        .swap other sound after
      refine ⟨?_, (swapped.append_left before).filter _⟩
      simp [List.filter_cons, notPicture]

/-- Rearranging is all that leaves the pictures in their order and the sounds the same. -/
theorem rearranged_iff : Rearranged streams others ↔
    streams.filter (·.isVideo) = others.filter (·.isVideo) ∧
      (streams.filter (·.isAudio)).Perm (others.filter (·.isAudio)) := by
  constructor
  · intro rearranged
    induction rearranged with
    | rel _ _ shifted => exact shifted.counting
    | refl _ => exact ⟨rfl, .refl _⟩
    | symm _ _ _ inductionHypothesis =>
        exact ⟨inductionHypothesis.1.symm, inductionHypothesis.2.symm⟩
    | trans _ _ _ _ _ first second =>
        exact ⟨first.1.trans second.1, first.2.trans second.2⟩
  · rintro ⟨pictures, sounds⟩
    have reordered := rearranged_of_perm sounds (isSound_of_mem_filter streams)
      (streams.filter (·.isVideo))
    refine .trans _ _ _ (rearranged_sorted streams) (.trans _ _ _ reordered ?_)
    rw [pictures]
    exact .symm _ _ (rearranged_sorted others)

theorem Shifted.foldl_eq (shifted : Shifted streams others) (media : Probed α) :
    others.foldl Probed.addStream media = streams.foldl Probed.addStream media := by
  cases shifted with
  | putIn before after isIdle =>
      rw [List.foldl_append, List.foldl_append, List.foldl_cons, Probed.addStream_idle _ isIdle]
  | heardLater before after isSound =>
      rw [List.foldl_append, List.foldl_append, List.foldl_cons, List.foldl_cons, List.foldl_cons,
        List.foldl_cons, Probed.addStream_comm _ isSound]

theorem Rearranged.foldl_eq (rearranged : Rearranged streams others) (media : Probed α) :
    others.foldl Probed.addStream media = streams.foldl Probed.addStream media := by
  induction rearranged with
  | rel _ _ shifted => exact shifted.foldl_eq media
  | refl _ => rfl
  | symm _ _ _ inductionHypothesis => exact inductionHypothesis.symm
  | trans _ _ _ _ _ first second => exact second.trans first

end Run

/-! ## Summaries -/

section Summary

variable {path : String} {duration : Option Float} {streams : List Stream}

theorem isLength_iff {length : Float} : isLength length = true ↔ IsPositive length := by
  rw [isPositive_iff, isLength, Bool.and_eq_true, decide_eq_true_iff]
  rfl

theorem summarize_of_isPositive {length : Float} (isPositive : IsPositive length)
    (path : String) (streams : List Stream) :
    summarize path (some length) streams =
      .ok (streams.foldl Probed.addStream (.ofDuration length)) := by
  have kept : (some length).filter isLength = some length := by
    simp [isLength_iff.mpr isPositive]
  rw [summarize, kept]

theorem summarize_of_not (noLength : ∀ length, duration = some length → ¬ IsPositive length)
    (path : String) (streams : List Stream) :
    summarize path duration streams =
      .error (.unsupportedMedia (path ++ " has no positive duration")) := by
  have dropped : duration.filter isLength = none := by
    rw [Option.filter_eq_none_iff]
    intro length given
    rw [isLength_iff]
    exact noLength length given
  rw [summarize, dropped]

/-- A file without a finite positive length is refused. Of any other exactly what counts is told: its
length, whether there is a sound, whether there is a picture, and the sides of the last one. No
rearrangement of its streams makes a difference. -/
theorem summary_of_what_counts (path : String) (duration : Option Float) (streams : List Stream) :
    ((∃ error, summarize path duration streams = .error error) ↔
        duration = none ∨ ∃ length, duration = some length ∧ ¬ IsPositive length) ∧
      (∀ error, summarize path duration streams = .error error →
        error = .unsupportedMedia (path ++ " has no positive duration")) ∧
      (∀ media, summarize path duration streams = .ok media →
        ∃ length, duration = some length ∧ Summarizes length streams media) ∧
      ∀ others, Rearranged streams others →
        summarize path duration others = summarize path duration streams := by
  by_cases isPositive : ∃ length, duration = some length ∧ IsPositive length
  · obtain ⟨length, rfl, isPositive⟩ := isPositive
    simp only [summarize_of_isPositive isPositive]
    refine ⟨?_, ?_, ?_, ?_⟩
    · simp [isPositive]
    · rintro error ⟨⟩
    · rintro media ⟨⟩
      exact ⟨length, rfl, summarizes_foldl length streams⟩
    · intro others rearranged
      rw [rearranged.foldl_eq]
  · have noLength : ∀ length, duration = some length → ¬ IsPositive length := by
      intro length given isPositiveLength
      exact isPositive ⟨length, given, isPositiveLength⟩
    simp only [summarize_of_not noLength]
    refine ⟨⟨fun _ => ?_, fun _ => ⟨_, rfl⟩⟩, ?_, ?_, fun _ _ => trivial⟩
    · cases duration with
      | none => exact Or.inl rfl
      | some length => exact Or.inr ⟨length, rfl, noLength length rfl⟩
    · rintro error ⟨⟩
      rfl
    · rintro media ⟨⟩

end Summary

/-- A concert with its cover, two pictures, subtitles and a sound. -/
def concert : List Stream :=
  [⟨some "audio", some "aac", none, none⟩, ⟨some "video", some "mjpeg", some 500, some 500⟩,
    ⟨some "video", some "h264", some 1280, some 720⟩, ⟨some "subtitle", some "srt", none, none⟩,
    ⟨some "video", none, some (-1), some 1080⟩, ⟨none, none, some 7, some 7⟩]

/-- The same concert with the sound between the pictures and another cover behind them. -/
def concertWithSleeve : List Stream :=
  [⟨some "video", some "h264", some 1280, some 720⟩, ⟨some "audio", some "aac", none, none⟩,
    ⟨some "video", none, some (-1), some 1080⟩, ⟨some "video", some "png", some 300, some 300⟩]

theorem concert_with_sleeve_told_alike :
    IsPositive 5400.5 ∧ Rearranged concert concertWithSleeve ∧
      summarize "concert.mkv" (some (5400.5 : Float)) concert = .ok ⟨5400.5, true, true, 0, 1080⟩ ∧
      Summarizes (5400.5 : Float) concert ⟨5400.5, true, true, 0, 1080⟩ ∧
      summarize "concert.mkv" (some (5400.5 : Float)) concertWithSleeve =
        .ok ⟨5400.5, true, true, 0, 1080⟩ ∧
      summarize "concert.mkv" (none : Option Float) concert =
        .error (.unsupportedMedia "concert.mkv has no positive duration") := by
  have isPositive : IsPositive 5400.5 := isLength_iff.mp (by decide)
  have rearranged : Rearranged concert concertWithSleeve :=
    rearranged_iff.mpr ⟨by decide, by decide⟩
  have summarized : summarize "concert.mkv" (some (5400.5 : Float)) concert =
      .ok ⟨5400.5, true, true, 0, 1080⟩ := by
    rfl
  obtain ⟨-, -, told, alike⟩ := summary_of_what_counts "concert.mkv" (some 5400.5) concert
  obtain ⟨refused, refusal, -, -⟩ := summary_of_what_counts "concert.mkv" none concert
  obtain ⟨length, given, summarizes⟩ := told _ summarized
  obtain rfl := Option.some.inj given
  obtain ⟨error, failed⟩ := refused.mpr (Or.inl rfl)
  refine ⟨isPositive, rearranged, summarized, summarizes, ?_, ?_⟩
  · rw [alike concertWithSleeve rearranged, summarized]
  · rw [failed, refusal error failed]
    rfl

end Montage.Media
