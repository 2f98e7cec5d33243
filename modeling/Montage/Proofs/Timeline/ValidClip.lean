import Mathlib.Algebra.Order.Field.Rat
import Mathlib.Tactic.Linarith
import Mathlib.Tactic.NormNum
import Mathlib.Tactic.Positivity
import Montage.Timeline.Placement

/-!
Contract: what placing promises about the numbers of a clip.

Owns: valid clips, that a clip without fault is valid once it is placed, and what
validity means on exact rationals: a clip has positive length.
-/

namespace Montage

open Montage.Number
open Montage.Media

/-- The numbers of a clip are in order. -/
structure PlacedClip.Valid {α : Type} [Seconds α] (clip : PlacedClip α) : Prop where
  offset : isCount clip.offset = true
  trimStart : isCount clip.trimStart = true
  trimEnd : Seconds.isFinite clip.trimEnd = true ∧ ¬ clip.trimEnd ≤ clip.trimStart
  speed : Seconds.isFinite clip.speed = true ∧ ¬ clip.speed ≤ (0.0 : α)
  volume : isCount clip.volume = true

theorem PlacedClip.valid_iff {α : Type} [Seconds α] (clip : PlacedClip α) :
    clip.Valid ↔
      isCount clip.offset = true ∧ isCount clip.trimStart = true ∧
        (Seconds.isFinite clip.trimEnd = true ∧ ¬ clip.trimEnd ≤ clip.trimStart) ∧
        (Seconds.isFinite clip.speed = true ∧ ¬ clip.speed ≤ (0.0 : α)) ∧
        isCount clip.volume = true :=
  ⟨fun valid => ⟨valid.offset, valid.trimStart, valid.trimEnd, valid.speed, valid.volume⟩,
    fun ⟨offset, trimStart, trimEnd, speed, volume⟩ => ⟨offset, trimStart, trimEnd, speed, volume⟩⟩

instance {α : Type} [Seconds α] (clip : PlacedClip α) : Decidable clip.Valid :=
  decidable_of_iff _ clip.valid_iff.symm

/-- A check that comes first passes exactly when it and all later ones find nothing. -/
theorem firstFault_eq_none {Fault : Type} {faulty : Prop} [Decidable faulty] {fault : Fault}
    {later : Option Fault} :
    (if faulty then some fault else later) = none ↔ ¬ faulty ∧ later = none := by
  by_cases found : faulty <;> simp [found]

/-- A clip without fault has its numbers in order, whatever its file. -/
theorem Clip.valid_of_faultless {α : Type} [Seconds α] {clip : Clip α} {asset : Asset α}
    (faultless : clip.fault? asset = none) (index input : Nat) :
    (clip.placed asset index input).Valid := by
  simp only [Clip.fault?, firstFault_eq_none, Bool.not_eq_true', Bool.not_eq_false,
    Bool.or_eq_true, decide_eq_true_eq, not_or] at faultless
  obtain ⟨offset, trimStart, trimEnd, _, speed, volume, _⟩ := faultless
  exact ⟨offset, trimStart, trimEnd, speed, volume⟩

/-! ## Exact rationals -/

namespace PlacedClip.Valid

variable {clip : PlacedClip Rat}

theorem trim_lt (valid : clip.Valid) : clip.trimStart < clip.trimEnd :=
  not_le.mp valid.trimEnd.2

theorem speed_pos (valid : clip.Valid) : 0 < clip.speed := by
  have inOrder := not_le.mp valid.speed.2
  norm_num at inOrder
  exact inOrder

theorem effectiveDuration_pos (valid : clip.Valid) : 0 < clip.effectiveDuration :=
  div_pos (sub_pos.mpr valid.trim_lt) valid.speed_pos

theorem offset_lt_finish (valid : clip.Valid) : clip.offset < clip.finish :=
  lt_add_of_pos_right _ valid.effectiveDuration_pos

end PlacedClip.Valid

end Montage
