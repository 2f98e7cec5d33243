import Mathlib.Algebra.BigOperators.Group.List.Basic
import Mathlib.Algebra.Order.Field.Rat
import Mathlib.Algebra.Order.Group.Abs
import Mathlib.Tactic.NormNum
import Montage.Timeline.Speed

/-!
Contract: the tempo stages of a speed multiply to the speed.

Halves and doubles are taken out one at a time, and what is left is a stage of
its own, so the product is kept at every step, however many steps there are.

Owns: the product of the stages, and which speeds count as one.
Does not own: that every stage is one the engine takes.
-/

namespace Montage.Speed

open Montage.Number

/-- Taking factors out of a number keeps their product with the rest. -/
theorem takeOut_prod {factor : Rat} (nonzero : factor ≠ 0) (isOut : Rat → Bool) (fuel : Nat)
    (number : Rat) :
    (takeOut factor isOut fuel number).1.prod * (takeOut factor isOut fuel number).2 = number := by
  induction fuel generalizing number with
  | zero => simp [takeOut]
  | succ fuel inductionHypothesis =>
      simp only [takeOut]
      split
      · rw [List.prod_cons, mul_assoc, inductionHypothesis, mul_div_cancel₀ number nonzero]
      · simp

/-- A speed that does not count as one is the product of its stages. -/
theorem stages_prod {speed : Rat} (retimed : isUnity speed = false) :
    (stages speed).prod = speed := by
  have halves := takeOut_prod (by norm_num [slowest] : (slowest : Rat) ≠ 0)
    (fun s => decide (s < (slowest : Rat))) (Seconds.octaves speed) speed
  have doubles := takeOut_prod (by norm_num [fastest] : (fastest : Rat) ≠ 0)
    (fun s => decide ((fastest : Rat) < s)) (Seconds.octaves speed)
    (takeOut slowest (fun s => decide (s < (slowest : Rat))) (Seconds.octaves speed) speed).2
  unfold stages
  simp only [retimed, Bool.false_eq_true, ↓reduceIte]
  rw [List.prod_append, List.prod_append, List.prod_singleton, mul_assoc, doubles, halves]

theorem stages_of_unity {speed : Rat} (unity : isUnity speed = true) : stages speed = [] := by
  unfold stages
  rw [if_pos unity]

theorem magnitude_eq_abs (x : Rat) : magnitude x = |x| := by
  have zero : (0.0 : Rat) = 0 := by norm_num
  unfold magnitude
  rw [zero]
  split
  · next negative => exact (abs_of_neg negative).symm
  · next positive => exact (abs_of_nonneg (not_lt.mp positive)).symm

theorem isUnity_iff (speed : Rat) : isUnity speed = true ↔ |speed - 1| < 1 / 1000 := by
  have one : (1.0 : Rat) = 1 := by norm_num
  have near : (tolerance : Rat) = 1 / 1000 := by norm_num [tolerance]
  unfold isUnity
  rw [decide_eq_true_iff, magnitude_eq_abs, one, near]

end Montage.Speed
