import Montage.Compile.Assembly
import Montage.Proofs.Number.Halving
import Montage.Proofs.Number.Identity
import Montage.Proofs.Timeline.Tempo

/-!
Contract: both sides of a clip are retimed, by as few tempo stages as can be.

Binary64 speeds are halved and doubled exactly while they are out of bounds, so
their stages are those of their exact values. The sound of a clip has a tempo
stage, and its picture a stretched timestamp, under the same condition.

Owns: the stages of binary64 speeds, and when the chains of a clip retime.
-/

namespace Montage

open Montage.Number
open Montage.Number.Binary64
open Montage.Graph

namespace Speed

/-- The exact value of a binary64 number. -/
def valueOf (x : Float) : Rat := (ofFloat x).value

theorem lt_iff_valueOf_lt {x y : Float} (first : IsPositive x) (second : IsPositive y) :
    x < y ↔ valueOf x < valueOf y :=
  lt_iff_value_lt (isFinite_iff.mp first.1) (isFinite_iff.mp second.1)

theorem isPositive_one : IsPositive 1.0 := isPositive_iff.mpr ⟨by decide, by decide⟩

theorem valueOf_one : valueOf 1.0 = 1 := by
  have decoded : ofFloat 1.0 = .finite false (2 ^ 52) (-52) := by decide
  rw [valueOf, value_of_decoded decoded]
  norm_num

/-- As many turns as the format has exponents are enough. -/
theorem exactRetiming_float : ExactRetiming valueOf IsPositive where
  positive isSpeed := isSpeed.2
  halves :=
    { valueFactor := value_half
      out_iff := by
        intro x isSpeed
        rw [← value_half]
        exact decide_eq_true_iff.trans (lt_iff_valueOf_lt isSpeed isPositive_half)
      turn := fun isSpeed slow => div_half_exact isSpeed slow }
  doubles :=
    { valueFactor := value_two
      out_iff := by
        intro x isSpeed
        rw [← value_two]
        exact decide_eq_true_iff.trans (lt_iff_valueOf_lt isPositive_two isSpeed)
      turn := fun isSpeed fast => div_two_exact isSpeed fast }
  unity := by
    intro x isSpeed one
    have same : x = 1.0 :=
      isSpeed.eq_of_value_eq isPositive_one (one.trans valueOf_one.symm)
    rw [same]
    decide
  low := by
    intro x isSpeed
    calc (1 / 2 : Rat) ≤ 2 ^ (-1074 : Int) * 2 ^ 1100 := by
          rw [← zpow_natCast, ← zpow_add₀ two_ne_zero]
          norm_num
      _ ≤ valueOf x * 2 ^ 1100 := by
          gcongr
          exact isSpeed.bounds.1
  high := by
    intro x isSpeed
    calc valueOf x ≤ 2 ^ (1024 : Int) := isSpeed.bounds.2
      _ ≤ 2 ^ (1100 : Int) := zpow_le_zpow_right₀ (by norm_num) (by norm_num)
      _ ≤ 2 * 2 ^ 1100 := by
          rw [zpow_ofNat]
          exact le_mul_of_one_le_left (by positivity) (by norm_num)

end Speed

namespace Compile

section Chains

variable {α : Type} [Seconds α]

theorem Audio.hasTempo_iff (clip : PlacedClip α) :
    (∃ factor, .tempo factor ∈ (Audio.clipChain clip).filters) ↔
      Speed.isUnity clip.speed = false := by
  have delayFree (factor : α) : .tempo factor ∉ (Audio.delay? clip).toList := by
    simp only [Audio.delay?]
    split <;> simp
  have gainFree (factor : α) : .tempo factor ∉ (Audio.gain? clip).toList := by
    simp only [Audio.gain?]
    split <;> simp
  have stageMember (factor : α) : .tempo factor ∈ (Audio.clipChain clip).filters ↔
      factor ∈ Speed.stages clip.speed := by
    simp [Audio.clipChain, Speed.filters, delayFree, gainFree]
  simp only [stageMember]
  rw [← Bool.not_eq_true, ← Speed.stages_eq_nil_iff, List.eq_nil_iff_forall_not_mem, not_forall_not]

theorem Video.hasStretch_iff (size : Resolution) (clip : PlacedClip α) :
    (∃ factor, .setPts (.scale factor) ∈ (Video.clipChain size clip).filters) ↔
      Speed.isUnity clip.speed = false := by
  cases unity : Speed.isUnity clip.speed <;> simp [Video.clipChain, Video.stretch?, unity]

end Chains

end Compile

/-- Positive speeds, exact or of the format, are split into as few legal stages as can be, and sound
and picture of a clip are retimed together. -/
theorem Speed.retiming_exact_and_shortest :
    (∀ speed : Rat, 0 < speed → Decomposed id speed) ∧
      (∀ speed : Float, speed.isFinite = true → 0.0 < speed → Decomposed valueOf speed) ∧
      ∀ (α : Type) [Seconds α] (size : Compile.Resolution) (clip : PlacedClip α),
        (∃ factor, .tempo factor ∈ (Compile.Audio.clipChain clip).filters) ↔
          ∃ factor, .setPts (.scale factor) ∈ (Compile.Video.clipChain size clip).filters := by
  refine ⟨fun speed positive => exactRetiming_rat.decomposed positive, ?_, ?_⟩
  · intro speed finite positive
    exact exactRetiming_float.decomposed (isPositive_iff.mpr ⟨finite, positive⟩)
  · intro α _ size clip
    rw [Compile.Audio.hasTempo_iff, Compile.Video.hasStretch_iff]

/-- A tenth, told exactly, and ten times as the format has it: halves for one, doubles for the other. -/
theorem Speed.retiming_of_tenth_and_tenfold :
    Decomposed id (1 / 10 : Rat) ∧ stages (1 / 10 : Rat) = [1 / 2, 1 / 2, 1 / 2, 4 / 5] ∧
      Decomposed valueOf 10.0 ∧ stages (10.0 : Float) = [2.0, 2.0, 2.0, 1.25] :=
  ⟨retiming_exact_and_shortest.1 (1 / 10) (by norm_num), by decide +kernel,
    retiming_exact_and_shortest.2.1 10.0 (by decide) (by decide), by decide +kernel⟩

end Montage
