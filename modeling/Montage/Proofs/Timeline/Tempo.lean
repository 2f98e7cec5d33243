import Mathlib.Algebra.Order.Field.Power
import Mathlib.Data.Rat.Lemmas
import Mathlib.Tactic.Linarith
import Mathlib.Tactic.Positivity
import Mathlib.Tactic.Ring
import Montage.Proofs.Timeline.Stages

/-!
Contract: the tempo stages of a speed are exact, legal and as few as can be.

Halves are taken out of a speed that is too slow and doubles out of one that is
too fast, until the rest is a stage itself. Each turn doubles or halves the rest
exactly, so a bounded number of turns is enough, and what is left after at least
one turn lies on the far side of one. A shorter list of legal factors could not
reach that far.

Owns: the loop that takes factors out, the kinds of number it is exact on, and
`ExactRetiming.decomposed`.
Does not own: that rounded numbers are doubled and halved exactly, in
`Proofs.Number.Halving`.
-/

namespace Montage.Speed

open Montage.Number

/-! ## The loops -/

section Loops

variable {α : Type} [Seconds α]

def isSlow (speed : α) : Bool := decide (speed < (slowest : α))

def isFast (speed : α) : Bool := decide ((fastest : α) < speed)

/-- Taking a factor out until the rest is in bounds ends with these factors and this rest. -/
inductive TakesOut (factor : α) (isOut : α → Bool) : α → List α → α → Prop where
  | done {rest : α} : isOut rest = false → TakesOut factor isOut rest [] rest
  | turn {number rest : α} {factors : List α} :
      isOut number = true → TakesOut factor isOut (number / factor) factors rest →
        TakesOut factor isOut number (factor :: factors) rest

/-- As many turns as there are factors are enough. -/
theorem TakesOut.takeOut_eq {factor number rest : α} {isOut : α → Bool} {factors : List α}
    (ends : TakesOut factor isOut number factors rest) {fuel : Nat}
    (enough : factors.length ≤ fuel) : takeOut factor isOut fuel number = (factors, rest) := by
  induction ends generalizing fuel with
  | done inBounds =>
      cases fuel with
      | zero => rfl
      | succ fuel => simp [takeOut, inBounds]
  | turn out _ inductionHypothesis =>
      cases fuel with
      | zero => simp at enough
      | succ fuel =>
          rw [List.length_cons, Nat.add_le_add_iff_right] at enough
          simp [takeOut, out, inductionHypothesis enough]

/-- The stages of a speed that does not count as one are what the two loops leave. -/
theorem stages_of_loops {speed notSlow rest : α} {halves doubles : List α}
    (retimed : isUnity speed = false) (slow : TakesOut slowest isSlow speed halves notSlow)
    (fast : TakesOut fastest isFast notSlow doubles rest)
    (fewHalves : halves.length ≤ Seconds.octaves speed)
    (fewDoubles : doubles.length ≤ Seconds.octaves speed) :
    stages speed = halves ++ doubles ++ [rest] := by
  have first : takeOut slowest (fun s => decide (s < (slowest : α))) (Seconds.octaves speed) speed =
      (halves, notSlow) := slow.takeOut_eq fewHalves
  have second : takeOut fastest (fun s => decide ((fastest : α) < s)) (Seconds.octaves speed)
      notSlow = (doubles, rest) := fast.takeOut_eq fewDoubles
  simp only [stages, retimed, Bool.false_eq_true, ↓reduceIte, first, second]

theorem stages_eq_nil_iff (speed : α) : stages speed = [] ↔ isUnity speed = true := by
  cases unity : isUnity speed <;> simp [stages, unity]

end Loops

/-! ## Factors of a product -/

/-- A factor that one tempo stage can have. -/
def IsLegal (factor : Rat) : Prop := 1 / 2 ≤ factor ∧ factor ≤ 2

theorem prod_bounds {factors : List Rat} (legal : ∀ factor ∈ factors, IsLegal factor) :
    (1 / 2) ^ factors.length ≤ factors.prod ∧ factors.prod ≤ 2 ^ factors.length := by
  induction factors with
  | nil => simp
  | cons factor rest inductionHypothesis =>
      obtain ⟨low, high⟩ := legal factor (List.mem_cons_self ..)
      obtain ⟨below, above⟩ := inductionHypothesis fun other member =>
        legal other (List.mem_cons_of_mem factor member)
      have positive : (0 : Rat) < (1 / 2) ^ rest.length := by positivity
      rw [List.prod_cons, List.length_cons, pow_succ', pow_succ']
      constructor
      · exact mul_le_mul low below positive.le (le_trans (by norm_num) low)
      · exact mul_le_mul high above (positive.le.trans below) (by norm_num)

/-! ## Exact kinds of number -/

section Exact

variable {α : Type} [Seconds α]

/-- A loop whose turns divide exact values by a ratio. -/
structure ExactLoop (value : α → Rat) (IsSpeed : α → Prop) (factor : α) (isOut : α → Bool)
    (ratio : Rat) (Out : Rat → Prop) : Prop where
  valueFactor : value factor = ratio
  out_iff : ∀ {x}, IsSpeed x → (isOut x = true ↔ Out (value x))
  turn : ∀ {x}, IsSpeed x → Out (value x) →
    IsSpeed (x / factor) ∧ value (x / factor) = value x / ratio

/-- The loop ends as soon as enough turns would bring the speed in bounds; after the first turn the
rest would be out of bounds again with one factor more. -/
theorem ExactLoop.takesOut {value : α → Rat} {IsSpeed : α → Prop} {factor : α} {isOut : α → Bool}
    {ratio : Rat} {Out : Rat → Prop} (loop : ExactLoop value IsSpeed factor isOut ratio Out)
    (nonzero : ratio ≠ 0) (turns : Nat) {speed : α} (isSpeed : IsSpeed speed)
    (enough : ¬ Out (value speed / ratio ^ turns)) :
    ∃ count rest, TakesOut factor isOut speed (List.replicate count factor) rest ∧
      count ≤ turns ∧ IsSpeed rest ∧ value speed = ratio ^ count * value rest ∧
      ¬ Out (value rest) ∧ (0 < count → Out (ratio * value rest)) := by
  have ends {speed : α} (isSpeed : IsSpeed speed) (inBounds : ¬ Out (value speed)) :
      isOut speed = false := by
    rw [← Bool.not_eq_true, loop.out_iff isSpeed]
    exact inBounds
  induction turns generalizing speed with
  | zero =>
      rw [pow_zero, div_one] at enough
      exact ⟨0, speed, .done (ends isSpeed enough), le_rfl, isSpeed, by simp, enough, by simp⟩
  | succ turns inductionHypothesis =>
      by_cases out : Out (value speed)
      · obtain ⟨again, divided⟩ := loop.turn isSpeed out
        have nearer : ¬ Out (value (speed / factor) / ratio ^ turns) := by
          rw [divided, div_div, ← pow_succ']
          exact enough
        obtain ⟨count, rest, taken, few, restSpeed, product, inBounds, beyond⟩ :=
          inductionHypothesis again nearer
        have whole : value speed = ratio ^ (count + 1) * value rest := by
          rw [pow_succ', mul_assoc, ← product, divided, mul_div_cancel₀ _ nonzero]
        refine ⟨count + 1, rest, .turn ((loop.out_iff isSpeed).mpr out) taken, by omega, restSpeed,
          whole, inBounds, fun _ => ?_⟩
        rcases Nat.eq_zero_or_pos count with rfl | some
        · rw [zero_add, pow_one] at whole
          rw [← whole]
          exact out
        · exact beyond some
      · exact ⟨0, speed, .done (ends isSpeed out), Nat.zero_le _, isSpeed, by simp, out, by simp⟩

/-- A kind of number whose speeds, told by their exact values, are doubled and halved exactly. -/
structure ExactRetiming (value : α → Rat) (IsSpeed : α → Prop) : Prop where
  positive : ∀ {x}, IsSpeed x → 0 < value x
  halves : ExactLoop value IsSpeed slowest isSlow (1 / 2) (· < 1 / 2)
  doubles : ExactLoop value IsSpeed fastest isFast 2 (2 < ·)
  unity : ∀ {x}, IsSpeed x → value x = 1 → isUnity x = true
  low : ∀ {x}, IsSpeed x → 1 / 2 ≤ value x * 2 ^ Seconds.octaves x
  high : ∀ {x}, IsSpeed x → value x ≤ 2 * 2 ^ Seconds.octaves x

/-- The loops of a speed: halves or doubles are taken out, never both, and the rest is legal. -/
structure Split (value : α → Rat) (speed : α) (halves doubles : Nat) (rest : α) : Prop where
  ends : ∃ notSlow,
    TakesOut slowest isSlow speed (List.replicate halves slowest) notSlow ∧
      TakesOut fastest isFast notSlow (List.replicate doubles fastest) rest
  few : halves ≤ Seconds.octaves speed ∧ doubles ≤ Seconds.octaves speed
  oneWay : halves = 0 ∨ doubles = 0
  product : value speed = (1 / 2) ^ halves * 2 ^ doubles * value rest
  legal : IsLegal (value rest)
  afterHalves : 0 < halves → value rest < 1
  afterDoubles : 0 < doubles → 1 < value rest

theorem ExactRetiming.exists_split {value : α → Rat} {IsSpeed : α → Prop}
    (exact : ExactRetiming value IsSpeed) {speed : α} (isSpeed : IsSpeed speed) :
    ∃ halves doubles rest, Split value speed halves doubles rest := by
  have low : ¬ value speed / (1 / 2) ^ Seconds.octaves speed < 1 / 2 := by
    rw [one_div, inv_pow, div_inv_eq_mul, not_lt, ← one_div]
    exact exact.low isSpeed
  obtain ⟨halves, notSlow, slow, fewHalves, again, halved, notBelow, afterHalves⟩ :=
    exact.halves.takesOut (by norm_num) _ isSpeed low
  have weight : (1 : Rat) ≤ 2 ^ Seconds.octaves speed := one_le_pow₀ (by norm_num)
  have high : ¬ 2 < value notSlow / 2 ^ Seconds.octaves speed := by
    rw [not_lt, div_le_iff₀ (by positivity)]
    rcases Nat.eq_zero_or_pos halves with rfl | some
    · rw [pow_zero, one_mul] at halved
      rw [← halved]
      exact exact.high isSpeed
    · have below := afterHalves some
      linarith
  obtain ⟨doubles, rest, fast, fewDoubles, -, doubled, notAbove, afterDoubles⟩ :=
    exact.doubles.takesOut (by norm_num) _ again high
  have oneWay : halves = 0 ∨ doubles = 0 := by
    by_contra both
    obtain ⟨someHalves, someDoubles⟩ := not_or.mp both
    have below := afterHalves (Nat.pos_of_ne_zero someHalves)
    have above := afterDoubles (Nat.pos_of_ne_zero someDoubles)
    have more : (1 : Rat) ≤ 2 ^ doubles := one_le_pow₀ (by norm_num)
    nlinarith
  refine ⟨halves, doubles, rest, ⟨notSlow, slow, fast⟩, ⟨fewHalves, fewDoubles⟩, oneWay, ?_, ?_, ?_, ?_⟩
  · rw [halved, doubled, mul_assoc]
  · refine ⟨?_, not_lt.mp notAbove⟩
    rcases Nat.eq_zero_or_pos doubles with rfl | some
    · rw [pow_zero, one_mul] at doubled
      rw [← doubled]
      exact not_lt.mp notBelow
    · have above := afterDoubles some
      linarith
  · intro some
    have below := afterHalves some
    rw [oneWay.resolve_left (Nat.ne_of_gt some), pow_zero, one_mul] at doubled
    rw [← doubled]
    linarith
  · intro some
    have above := afterDoubles some
    linarith

/-! ## The stages -/

/-- What the stages of a speed are, told by exact values. -/
structure Decomposed (value : α → Rat) (speed : α) : Prop where
  /-- Both loops come to an end, and the stages are what they leave. -/
  ends : ∃ halves notSlow doubles rest,
    TakesOut slowest isSlow speed halves notSlow ∧ TakesOut fastest isFast notSlow doubles rest ∧
      (isUnity speed = false → stages speed = halves ++ doubles ++ [rest])
  none_iff : stages speed = [] ↔ isUnity speed = true
  legal : ∀ stage ∈ stages speed, IsLegal (value stage)
  exact : isUnity speed = false → ((stages speed).map value).prod = value speed
  uniform : (∀ stage ∈ (stages speed).dropLast, stage = slowest) ∨
    ∀ stage ∈ (stages speed).dropLast, stage = fastest
  fewest : isUnity speed = false → ∀ factors : List Rat, (∀ factor ∈ factors, IsLegal factor) →
    factors.prod = value speed → (stages speed).length ≤ factors.length

variable {value : α → Rat} {speed rest : α} {halves doubles : Nat}

theorem Split.stages_eq (split : Split value speed halves doubles rest)
    (retimed : isUnity speed = false) :
    stages speed = List.replicate halves slowest ++ List.replicate doubles fastest ++ [rest] := by
  obtain ⟨notSlow, slow, fast⟩ := split.ends
  refine stages_of_loops retimed slow fast ?_ ?_
  · rw [List.length_replicate]
    exact split.few.1
  · rw [List.length_replicate]
    exact split.few.2

/-- Fewer legal factors do not reach a speed that is not one. -/
theorem Split.fewest (split : Split value speed halves doubles rest) (notOne : value speed ≠ 1)
    {factors : List Rat} (legal : ∀ factor ∈ factors, IsLegal factor)
    (product : factors.prod = value speed) : halves + doubles + 1 ≤ factors.length := by
  obtain ⟨low, high⟩ := prod_bounds legal
  rw [product, split.product] at low high
  rcases Nat.eq_zero_or_pos halves with rfl | someHalves
  · rcases Nat.eq_zero_or_pos doubles with rfl | someDoubles
    · -- The empty product is one.
      cases factors with
      | nil => exact absurd product.symm notOne
      | cons factor others => simp
    · rw [pow_zero, one_mul] at high
      have reach : (2 : Rat) ^ doubles < 2 ^ factors.length := by
        have more : (0 : Rat) < 2 ^ doubles := by positivity
        have above := split.afterDoubles someDoubles
        nlinarith
      have longer := (pow_lt_pow_iff_right₀ (by norm_num : (1 : Rat) < 2)).mp reach
      omega
  · obtain rfl := split.oneWay.resolve_left (Nat.ne_of_gt someHalves)
    rw [pow_zero, mul_one] at low
    have reach : (1 / 2 : Rat) ^ factors.length < (1 / 2) ^ halves := by
      have more : (0 : Rat) < (1 / 2) ^ halves := by positivity
      have below := split.afterHalves someHalves
      nlinarith
    have longer := (pow_lt_pow_iff_right_of_lt_one₀ (by norm_num : (0 : Rat) < 1 / 2)
      (by norm_num)).mp reach
    omega

theorem ExactRetiming.decomposed {IsSpeed : α → Prop} (exact : ExactRetiming value IsSpeed)
    (isSpeed : IsSpeed speed) : Decomposed value speed := by
  obtain ⟨halves, doubles, rest, split⟩ := exact.exists_split isSpeed
  obtain ⟨notSlow, slow, fast⟩ := split.ends
  have ends : ∃ halves notSlow doubles rest,
      TakesOut slowest isSlow speed halves notSlow ∧ TakesOut fastest isFast notSlow doubles rest ∧
        (isUnity speed = false → stages speed = halves ++ doubles ++ [rest]) :=
    ⟨_, notSlow, _, rest, slow, fast, split.stages_eq⟩
  cases unity : isUnity speed with
  | true =>
      have none : stages speed = [] := (stages_eq_nil_iff speed).mpr unity
      refine ⟨ends, stages_eq_nil_iff speed, ?_, ?_, ?_, ?_⟩ <;> simp [none, unity]
  | false =>
      have shape := split.stages_eq unity
      have valueSlowest := exact.halves.valueFactor
      have valueFastest := exact.doubles.valueFactor
      refine ⟨ends, stages_eq_nil_iff speed, ?_, ?_, ?_, ?_⟩
      · intro stage member
        simp only [shape, List.mem_append, List.mem_replicate, List.mem_singleton] at member
        rcases member with (⟨-, rfl⟩ | ⟨-, rfl⟩) | rfl
        · rw [valueSlowest]
          norm_num [IsLegal]
        · rw [valueFastest]
          norm_num [IsLegal]
        · exact split.legal
      · intro _
        rw [shape, split.product]
        simp [valueSlowest, valueFastest, mul_assoc]
      · rw [shape, List.dropLast_concat]
        rcases split.oneWay with rfl | rfl
        · right
          simp
        · left
          simp
      · intro _ factors legal product
        have notOne : value speed ≠ 1 := by
          intro one
          rw [exact.unity isSpeed one] at unity
          cases unity
        have few := split.fewest notOne legal product
        rw [shape]
        simpa [Nat.add_assoc] using few

end Exact

/-! ## Exact rationals -/

/-- The bits of numerator and denominator bound how far a number is from one. -/
theorem octaves_bounds {x : Rat} (positive : 0 < x) :
    1 / 2 ≤ x * 2 ^ Seconds.octaves x ∧ x ≤ 2 * 2 ^ Seconds.octaves x := by
  have some : 0 < x.num.natAbs := Int.natAbs_pos.mpr (Rat.num_pos.mpr positive).ne'
  have value : x * x.den = x.num.natAbs := by
    rw [Nat.cast_natAbs, abs_of_pos (Rat.num_pos.mpr positive), Rat.mul_den_eq_num]
  have octaves : Seconds.octaves x = (x.num.natAbs.log2 + 1) + (x.den.log2 + 1) := by
    change x.num.natAbs.log2 + x.den.log2 + 2 = _
    omega
  have numerator : (x.num.natAbs : Rat) ≤ 2 ^ (x.num.natAbs.log2 + 1) := by
    exact_mod_cast Nat.lt_log2_self.le
  have denominator : (x.den : Rat) ≤ 2 ^ (x.den.log2 + 1) := by
    exact_mod_cast Nat.lt_log2_self.le
  have atLeastOne : (1 : Rat) ≤ x.num.natAbs := by exact_mod_cast some
  have wide : (1 : Rat) ≤ 2 ^ (x.num.natAbs.log2 + 1) := one_le_pow₀ (by norm_num)
  have deep : (1 : Rat) ≤ 2 ^ (x.den.log2 + 1) := one_le_pow₀ (by norm_num)
  rw [octaves, pow_add]
  constructor
  · calc (1 / 2 : Rat) ≤ 1 * 1 := by norm_num
      _ ≤ x.num.natAbs * 2 ^ (x.num.natAbs.log2 + 1) := by gcongr
      _ = x * x.den * 2 ^ (x.num.natAbs.log2 + 1) := by rw [value]
      _ ≤ x * 2 ^ (x.den.log2 + 1) * 2 ^ (x.num.natAbs.log2 + 1) := by gcongr
      _ = x * (2 ^ (x.num.natAbs.log2 + 1) * 2 ^ (x.den.log2 + 1)) := by ring
  · calc x = x * 1 := (mul_one x).symm
      _ ≤ x * x.den := by
        gcongr
        exact_mod_cast x.den_pos
      _ = x.num.natAbs := value
      _ ≤ 2 ^ (x.num.natAbs.log2 + 1) := numerator
      _ = 1 * (2 ^ (x.num.natAbs.log2 + 1) * 1) := by ring
      _ ≤ 2 * (2 ^ (x.num.natAbs.log2 + 1) * 2 ^ (x.den.log2 + 1)) := by
        gcongr
        norm_num

theorem exactRetiming_rat : ExactRetiming (α := Rat) id (0 < ·) where
  positive isSpeed := isSpeed
  halves :=
    { valueFactor := by norm_num [slowest]
      out_iff := by
        intro x _
        norm_num [isSlow, slowest]
      turn := by
        intro x isSpeed _
        have half : (slowest : Rat) = 1 / 2 := by norm_num [slowest]
        rw [half]
        exact ⟨by positivity, rfl⟩ }
  doubles :=
    { valueFactor := by norm_num [fastest]
      out_iff := by
        intro x _
        norm_num [isFast, fastest]
      turn := by
        intro x isSpeed _
        have double : (fastest : Rat) = 2 := by norm_num [fastest]
        rw [double]
        exact ⟨by positivity, rfl⟩ }
  unity := by
    intro x _ one
    rw [isUnity_iff]
    norm_num [show x = 1 from one]
  low isSpeed := (octaves_bounds isSpeed).1
  high isSpeed := (octaves_bounds isSpeed).2

end Montage.Speed
