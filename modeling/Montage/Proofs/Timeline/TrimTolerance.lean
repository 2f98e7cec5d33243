import Mathlib.Data.Rat.Floor
import Montage.Proofs.Compile.Verdict
import Montage.Proofs.Media.IdMap

/-!
Contract: the trim tolerance makes up for lengths kept to the millisecond.

The catalog keeps the nearest whole number of milliseconds, which may be half of
one too short or too long. A trim may reach a whole millisecond beyond the kept
length, so a clip that stays within the file as it was probed is never refused,
and none that is accepted reaches more than a millisecond and a half beyond it.

Owns: how far a kept length is from the probed one, and
`tolerance_absorbs_rounding`.
Does not own: lengths that are rounded as they are computed, in
`Proofs.Media.Milliseconds`.
-/

namespace Montage

open Montage.Number
open Montage.Media

/-! ## Lengths to the millisecond -/

/-- The nearest whole number is at most a half away. -/
theorem Number.roundRat_near (x : Rat) : |roundRat x - x| ≤ 1 / 2 := by
  have near (y : Rat) : |((y + 1 / 2).floor : Int) - y| ≤ 1 / 2 := by
    have below := Rat.floor_le (y + 1 / 2)
    have above := Rat.lt_floor_add_one (y + 1 / 2)
    push_cast at above
    rw [abs_le]
    constructor <;> linarith
  unfold roundRat
  split
  · have mirrored := near (-x)
    rw [← abs_neg]
    convert mirrored using 2
    ring
  · exact near x

/-- A kept length is at most half a millisecond away from the probed one. -/
theorem Media.toMilliseconds_near (length : Rat) : |toMilliseconds length - length| ≤ 1 / 2000 := by
  have thousand : (1000.0 : Rat) = 1000 := by norm_num
  have near := roundRat_near (length * 1000)
  have scaled : toMilliseconds length - length =
      (roundRat (length * 1000) - length * 1000) / 1000 := by
    unfold toMilliseconds
    rw [thousand]
    show roundRat (length * 1000) / 1000 - length = _
    ring
  rw [scaled, abs_div, abs_of_pos (by norm_num : (0 : Rat) < 1000)]
  linarith

/-- What is probed where a file is stored is recorded and kept under its own id. -/
theorem Media.Catalog.ingest_eq {α : Type} [Seconds α] {m : Type → Type} [Monad m] [LawfulMonad m]
    {storage : String → ExceptT Error m String} {probe : String → ExceptT Error m (Probed α)}
    {path stored : String} {probed : Probed α} (isStored : storage path = pure stored)
    (isProbed : probe stored = pure probed) (catalog : Catalog α) :
    ingest storage probe catalog path =
      pure (Asset.ofProbe stored probed, insert (Asset.ofProbe stored probed) catalog) := by
  rw [ingest, isStored, pure_bind, isProbed, pure_bind]

/-! ## Trims -/

/-- A clip whose numbers are in order and whose trim ends within a length. -/
structure Clip.StaysWithin (clip : Clip Rat) (length : Rat) : Prop where
  offset : 0 ≤ clip.offset
  speed : 0 < clip.speed
  volume : 0 ≤ clip.volume
  start : 0 ≤ clip.trimStart.getD 0
  finish : ∃ finish, clip.trimEnd = some finish ∧ clip.trimStart.getD 0 < finish ∧ finish ≤ length

section Trims

variable {length : Rat} {asset : Asset Rat} {clip : Clip Rat}

/-- A kept length that is half a millisecond short leaves room for a trim of the whole file. -/
theorem Clip.StaysWithin.faultless (within : clip.StaysWithin length)
    (near : |asset.duration - length| ≤ 1 / 2000) : clip.fault? asset = none := by
  obtain ⟨finish, given, ordered, short⟩ := within.finish
  have zero : (0.0 : Rat) = 0 := by norm_num
  have tolerance : (trimTolerance : Rat) = 1 / 1000 := by norm_num [trimTolerance]
  have start := within.start
  rw [fault?_eq_none_iff]
  intro faulty
  cases faulty with
  | notFinite _ unbounded => cases unbounded
  | offset negative =>
      rw [zero] at negative
      exact absurd within.offset (not_le.mpr negative)
  | trimStart negative =>
      rw [zero] at negative
      exact absurd start (not_le.mpr negative)
  | trimOrder reversed =>
      rw [given, zero] at reversed
      exact absurd ordered (not_lt.mpr reversed)
  | beyondFile beyond =>
      rw [given, tolerance, Option.getD_some] at beyond
      have room := (abs_le.mp near).1
      linarith
  | speed notPositive =>
      rw [zero] at notPositive
      exact absurd within.speed (not_lt.mpr notPositive)
  | volume negative =>
      rw [zero] at negative
      exact absurd within.volume (not_le.mpr negative)

theorem Clip.place_eq_ok_iff {α : Type} [Seconds α] {clip : Clip α} {asset : Asset α}
    {index input : Nat} {placed : PlacedClip α} :
    clip.place asset index input = .ok placed ↔
      clip.fault? asset = none ∧ placed = clip.placed asset index input := by
  unfold Clip.place
  cases clip.fault? asset with
  | some fault => simp
  | none => simp [eq_comm]

/-- A clip without fault reaches at most a millisecond beyond the kept length. -/
theorem Clip.trimEnd_le_of_faultless (faultless : clip.fault? asset = none) :
    clip.trimEnd.getD asset.duration ≤ asset.duration + 1 / 1000 := by
  have tolerance : (trimTolerance : Rat) = 1 / 1000 := by norm_num [trimTolerance]
  by_contra beyond
  rw [not_le, ← tolerance] at beyond
  exact fault?_eq_none_iff.mp faultless (.beyondFile beyond)

/-- Clips of a file fare as if its probed length had been kept, give or take a millisecond and a
half. -/
structure ToleratesTrims (length : Rat) (asset : Asset Rat) (catalog : Catalog Rat) : Prop where
  known : IdMap.get? asset.id catalog = some asset
  near : |asset.duration - length| ≤ 1 / 2000
  places : ∀ clip : Clip Rat, clip.StaysWithin length → ∀ index input,
    ∃ placed, clip.place asset index input = .ok placed
  accepts : ∀ (timeline : Timeline Rat) index clip, timeline.clips[index]? = some clip →
    clip.fileId = asset.id → clip.StaysWithin length →
      ∀ fault, compile timeline catalog ≠ .error (.invalidClip index fault)
  bounded : ∀ (timeline : Timeline Rat) compiled, compile timeline catalog = .ok compiled →
    ∀ clip ∈ timeline.clips, clip.fileId = asset.id →
      clip.trimEnd.getD asset.duration ≤ length + 3 / 2000
  /-- A clip without an end of its own is taken as one that ends with the kept length. -/
  whole : ∀ clip : Clip Rat, clip.trimEnd = none → ∀ index input,
    clip.place asset index input =
      { clip with trimEnd := some asset.duration }.place asset index input

theorem toleratesTrims_of_near {catalog : Catalog Rat}
    (near : |asset.duration - length| ≤ 1 / 2000)
    (known : IdMap.get? asset.id catalog = some asset) : ToleratesTrims length asset catalog where
  known := known
  near := near
  places := by
    intro clip within index input
    exact ⟨_, Clip.place_eq_ok_iff.mpr ⟨within.faultless near, rfl⟩⟩
  accepts := by
    intro timeline index clip listed ofFile within fault refused
    rw [← ofFile] at known
    cases compile_eq_error_iff.mp refused with
    | @clip _ other _ found refusedClip =>
        cases refusedClip with
        | invalidClip =>
            -- The clip that is refused is the one at the index, and it is sound.
            cases listed.symm.trans found.here
            exact found.unsound ((Clip.isSound_iff known).mpr (within.faultless near))
  bounded := by
    intro timeline compiled accepted clip member ofFile
    rw [← ofFile] at known
    have sound := (compile_eq_ok_iff.mp ⟨compiled, accepted⟩).2.1 clip member
    have room := (abs_le.mp near).2
    have reach := Clip.trimEnd_le_of_faultless ((Clip.isSound_iff known).mp sound)
    linarith
  whole := by
    intro clip whole index input
    simp only [Clip.place, Clip.fault?, Clip.placed, whole, Option.getD_none, Option.getD_some]

end Trims

/-- However a length is rounded when it is kept, clips within the probed file are accepted, and
accepted clips stay within a millisecond and a half of it. -/
theorem tolerance_absorbs_rounding {m : Type → Type} [Monad m] [LawfulMonad m]
    {storage : String → ExceptT Error m String} {probe : String → ExceptT Error m (Probed Rat)}
    {path stored : String} {probed : Probed Rat} (isStored : storage path = pure stored)
    (isProbed : probe stored = pure probed) (catalog : Catalog Rat) :
    ∃ asset grown, Catalog.ingest storage probe catalog path = pure (asset, grown) ∧
      ToleratesTrims probed.duration asset grown := by
  refine ⟨_, _, Catalog.ingest_eq isStored isProbed catalog, ?_⟩
  exact toleratesTrims_of_near (toMilliseconds_near probed.duration) IdMap.get?_put_self

/-! An interview of which not quite half a millisecond is lost when its length is kept. -/

def interview : Probed Rat := ⟨1012345 / 100000, false, true, 0, 0⟩

theorem interview_trims_tolerated :
    ∃ asset grown,
      Catalog.ingest (m := Id) (fun path => pure path) (fun _ => pure interview) []
          "/media/interview.wav" = pure (asset, grown) ∧
        ToleratesTrims interview.duration asset grown ∧ asset.duration = 10123 / 1000 := by
  obtain ⟨asset, grown, taken, tolerates⟩ := @tolerance_absorbs_rounding Id _ _
    (fun path => pure path) (fun _ => pure interview) "/media/interview.wav" "/media/interview.wav"
    interview rfl rfl []
  refine ⟨asset, grown, taken, tolerates, ?_⟩
  rw [Catalog.ingest_eq rfl rfl] at taken
  cases taken
  decide +kernel

end Montage
