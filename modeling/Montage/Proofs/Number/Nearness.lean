import Montage.Proofs.Number.FloatValue
import Montage.Proofs.Number.Layout

/-!
Contract: how far the shortest decimal of a number is above it.

A neighbour that reads back is at most half a unit of the last place above the
number, and where none does, the nearer of two neighbours with seventeen digits
is taken, whose distance is smaller still. Moving zeros into the exponent
changes nothing.

Owns: the value of a ratio, and size and length of the shortest decimal.
Does not own: that the decimal is not too far below the number.
-/

namespace Montage.Number

/-! ## Ratios -/

namespace Ratio

variable {r : Ratio}

/-- The exact value. -/
def value (r : Ratio) : Rat := r.num / r.den

theorem value_ofBinary (mantissa : Nat) (exponent : Int) :
    (ofBinary mantissa exponent).value = mantissa * 2 ^ exponent := by
  unfold ofBinary
  split
  · next whole =>
      obtain ⟨places, rfl⟩ := Int.eq_ofNat_of_zero_le whole
      simp [value, twoTo]
  · next fraction =>
      obtain ⟨places, rfl⟩ := Int.exists_eq_neg_ofNat (Int.le_of_lt (Int.not_le.mp fraction))
      simp [value, twoTo, div_eq_mul_inv]

theorem value_timesPowerOfTen (r : Ratio) (power : Int) :
    (r.timesPowerOfTen power).value = r.value * 10 ^ power := by
  unfold timesPowerOfTen
  split
  · next whole =>
      obtain ⟨places, rfl⟩ := Int.eq_ofNat_of_zero_le whole
      simp only [value, tenTo, Int.toNat_natCast, Nat.pow_eq, Nat.cast_mul, Nat.cast_pow,
        Nat.cast_ofNat, zpow_natCast]
      ring
  · next fraction =>
      obtain ⟨places, rfl⟩ := Int.exists_eq_neg_ofNat (Int.le_of_lt (Int.not_le.mp fraction))
      simp only [value, tenTo, neg_neg, Int.toNat_natCast, Nat.pow_eq, Nat.cast_mul, Nat.cast_pow,
        Nat.cast_ofNat, zpow_neg, zpow_natCast]
      ring

theorem timesPowerOfTen_den_pos (positive : 0 < r.den) (power : Int) :
    0 < (r.timesPowerOfTen power).den := by
  unfold timesPowerOfTen
  split
  · exact positive
  · exact Nat.mul_pos positive (Decimal.tenTo_pos _)

theorem le_quotient_iff (positive : 0 < r.den) {k : Nat} :
    k ≤ r.num / r.den ↔ (k : Rat) ≤ r.value := by
  have weight : (0 : Rat) < r.den := by exact_mod_cast positive
  rw [Nat.le_div_iff_mul_le positive, value, le_div_iff₀ weight]
  exact_mod_cast Iff.rfl

end Ratio

namespace Decimal

open Binary64 (Canonical leastExponent)

/-- The exact value. -/
def value (d : Decimal) : Rat := d.coefficient * 10 ^ d.exponent

theorem strip_value (fuel : Nat) (d : Decimal) : (strip fuel d).value = d.value := by
  induction fuel generalizing d with
  | zero => rfl
  | succ fuel inductionHypothesis =>
      unfold strip
      split
      · next trailing =>
          have tenfold : d.coefficient = d.coefficient / 10 * 10 := by omega
          rw [inductionHypothesis, value, value, tenfold, zpow_add_one₀ (by norm_num)]
          push_cast [Nat.mul_div_cancel]
          ring
      · rfl

theorem strip_coefficient_le (fuel : Nat) (d : Decimal) :
    (strip fuel d).coefficient ≤ d.coefficient := by
  induction fuel generalizing d with
  | zero => exact Nat.le_refl _
  | succ fuel inductionHypothesis =>
      unfold strip
      split
      · exact Nat.le_trans (inductionHypothesis _) (Nat.div_le_self _ _)
      · exact Nat.le_refl _

/-! ## Neighbours on a grid -/

namespace Grid

variable {g : Grid} {k : Nat}

/-- The exact value of the number beside the grid. -/
def number (g : Grid) : Rat := g.mantissa * 2 ^ g.exponent

theorem scaled_value (g : Grid) :
    ((Ratio.ofBinary g.mantissa g.exponent).timesPowerOfTen (-g.power)).value =
      g.number / 10 ^ g.power := by
  rw [Ratio.value_timesPowerOfTen, Ratio.value_ofBinary, zpow_neg, div_eq_mul_inv, number]

theorem scaled_den_pos (g : Grid) :
    0 < ((Ratio.ofBinary g.mantissa g.exponent).timesPowerOfTen (-g.power)).den :=
  Ratio.timesPowerOfTen_den_pos (ofBinary_den_pos _ _) _

theorem le_below_iff (g : Grid) : k ≤ g.below ↔ (k : Rat) * 10 ^ g.power ≤ g.number := by
  have weight : (0 : Rat) < 10 ^ g.power := by positivity
  rw [← le_div_iff₀ weight, ← scaled_value]
  exact Ratio.le_quotient_iff g.scaled_den_pos

/-- Seventeen digits are enough on a grid that is not too fine. -/
theorem below_lt {lead : Int} (small : g.number < 10 ^ lead) (coarse : lead - 17 ≤ g.power) :
    g.below < 10 ^ 17 := by
  have limit : (10 : Rat) ^ lead ≤ (10 ^ 17 : Nat) * 10 ^ g.power :=
    calc (10 : Rat) ^ lead ≤ 10 ^ (17 + g.power) :=
          zpow_le_zpow_right₀ (by norm_num) (by omega)
      _ = (10 ^ 17 : Nat) * 10 ^ g.power := by
          rw [zpow_add₀ (by norm_num)]
          norm_num
  by_contra large
  have reached := g.le_below_iff.mp (not_lt.mp large)
  exact absurd (lt_of_lt_of_le small limit) (not_lt.mpr reached)

theorem point_value (g : Grid) (k : Nat) :
    (g.point k).value = k * 10 ^ g.power / 2 ^ (g.exponent - 2) := by
  have scaled := Ratio.value_timesPowerOfTen ⟨k, 1⟩ g.power
  have whole : (Ratio.mk k 1).value = k := by simp [Ratio.value]
  rw [whole] at scaled
  unfold point
  simp only
  rw [← scaled]
  generalize (Ratio.mk k 1).timesPowerOfTen g.power = s
  split
  · next large =>
      obtain ⟨places, isPlaces⟩ := Int.eq_ofNat_of_zero_le large
      rw [isPlaces]
      simp only [Ratio.value, twoTo, Int.toNat_natCast, Nat.pow_eq, Nat.cast_mul, Nat.cast_pow,
        Nat.cast_ofNat, zpow_natCast]
      rw [div_div]
  · next small =>
      obtain ⟨places, isPlaces⟩ := Int.exists_eq_neg_ofNat (Int.le_of_lt (Int.not_le.mp small))
      rw [isPlaces]
      simp only [Ratio.value, twoTo, neg_neg, Int.toNat_natCast, Nat.pow_eq, Nat.cast_mul,
        Nat.cast_pow, Nat.cast_ofNat, zpow_neg, zpow_natCast]
      rw [div_inv_eq_mul, div_mul_eq_mul_div]

theorem point_den_pos (g : Grid) (k : Nat) : 0 < (g.point k).den := by
  have positive := Ratio.timesPowerOfTen_den_pos (r := ⟨k, 1⟩) Nat.one_pos g.power
  unfold point
  simp only
  split
  · exact Nat.mul_pos positive (Nat.two_pow_pos _)
  · exact positive

/-- A grid point that reads back is at most half a unit of the last place above the number. -/
theorem le_of_contains (inside : g.contains k = true) :
    (k : Rat) * 10 ^ g.power ≤ (g.mantissa + 1 / 2) * 2 ^ g.exponent := by
  have gap : (halfGaps g.mantissa g.exponent).2 = 2 := by
    unfold halfGaps
    split <;> rfl
  have within : (g.point k).num ≤ (4 * g.mantissa + 2) * (g.point k).den := by
    unfold contains at inside
    simp only [gap] at inside
    split at inside
    · exact of_decide_eq_true (Bool.and_eq_true_iff.mp inside).2
    · exact Nat.le_of_lt (of_decide_eq_true (Bool.and_eq_true_iff.mp inside).2)
  have quarter : (2 : Rat) ^ (g.exponent - 2) = 2 ^ g.exponent / 4 := by
    rw [zpow_sub₀ two_ne_zero]
    norm_num
  have positive : (0 : Rat) < (g.point k).den := by exact_mod_cast g.point_den_pos k
  have value : (g.point k).value ≤ 4 * g.mantissa + 2 := by
    rw [Ratio.value, div_le_iff₀ positive]
    exact_mod_cast within
  rw [point_value, quarter, div_le_iff₀ (by positivity)] at value
  refine le_trans value (le_of_eq ?_)
  ring

/-- The nearer of the two neighbours is at most half a step above the number. -/
theorem nearer_le (tie : Tie) (g : Grid) :
    (g.nearer tie g.below : Rat) * 10 ^ g.power ≤ g.number + 10 ^ g.power / 2 := by
  have weight : (0 : Rat) < 10 ^ g.power := by positivity
  have atMost := g.le_below_iff.mp (Nat.le_refl g.below)
  -- Half a step is made up for when the upper neighbour is taken.
  have upper (reached : ((Ratio.ofBinary g.mantissa g.exponent).timesPowerOfTen (-g.power)).den ≤
      2 * (((Ratio.ofBinary g.mantissa g.exponent).timesPowerOfTen (-g.power)).num %
        ((Ratio.ofBinary g.mantissa g.exponent).timesPowerOfTen (-g.power)).den)) :
      ((g.below + 1 : Nat) : Rat) * 10 ^ g.power ≤ g.number + 10 ^ g.power / 2 := by
    have value := scaled_value g
    have positive := scaled_den_pos g
    have isBelow : g.below =
        ((Ratio.ofBinary g.mantissa g.exponent).timesPowerOfTen (-g.power)).num /
          ((Ratio.ofBinary g.mantissa g.exponent).timesPowerOfTen (-g.power)).den := rfl
    generalize (Ratio.ofBinary g.mantissa g.exponent).timesPowerOfTen (-g.power) = s at *
    have divided : (2 * g.below + 1) * s.den ≤ 2 * s.num := by
      rw [isBelow]
      have split := Nat.div_add_mod s.num s.den
      calc (2 * (s.num / s.den) + 1) * s.den = 2 * (s.den * (s.num / s.den)) + s.den := by ring
        _ ≤ 2 * s.num := by omega
    have weightDen : (0 : Rat) < s.den := by exact_mod_cast positive
    have half : (2 * (g.below : Rat) + 1) ≤ 2 * (g.number / 10 ^ g.power) := by
      rw [← value, Ratio.value, mul_div_assoc', le_div_iff₀ weightDen]
      exact_mod_cast divided
    rw [mul_div_assoc', le_div_iff₀ weight] at half
    push_cast
    linarith
  have lower : (g.below : Rat) * 10 ^ g.power ≤ g.number + 10 ^ g.power / 2 := by linarith
  unfold nearer
  simp only
  split
  · exact lower
  · next far =>
      split
      · next near => exact upper (Nat.le_of_lt near)
      · next near =>
          cases tie with
          | up => exact upper (Nat.not_lt.mp far)
          | even =>
              rcases Nat.mod_two_eq_zero_or_one g.below with isEven | isOdd
              · simpa only [isEven, Nat.add_zero] using lower
              · simpa only [isOdd] using upper (Nat.not_lt.mp far)

theorem nearer_le_succ (tie : Tie) (g : Grid) (k : Nat) : g.nearer tie k ≤ k + 1 := by
  unfold nearer
  simp only
  split
  · exact Nat.le_succ k
  · split
    · exact Nat.le_refl _
    · cases tie with
      | up => exact Nat.le_refl _
      | even => exact Nat.add_le_add_left (Nat.le_of_lt_succ (Nat.mod_lt k (by decide))) k

end Grid

/-! ## The search -/

/-- A decimal with seventeen digits at most, or the power of ten above them, that is at most half a
unit of the last place above a number. -/
structure Close (mantissa : Nat) (exponent : Int) (d : Decimal) : Prop where
  short : d.coefficient ≤ 10 ^ 17
  le : d.value ≤ (mantissa + 1 / 2) * 2 ^ exponent

section Search

variable {mantissa : Nat} {exponent : Int} {tie : Tie}

theorem le_of_hit_upper {g : Grid} {k : Nat} (hit : g.hit? tie = some k) :
    k ≤ g.below + 1 ∧ (k : Rat) * 10 ^ g.power ≤ (g.mantissa + 1 / 2) * 2 ^ g.exponent := by
  unfold Grid.hit? at hit
  simp only at hit
  split at hit
  · next lower upper =>
      cases hit
      have next := g.nearer_le_succ tie g.below
      refine ⟨next, le_trans ?_ (Grid.le_of_contains upper)⟩
      gcongr
  · next lower outside =>
      cases hit
      exact ⟨Nat.le_succ _, Grid.le_of_contains lower⟩
  · next outside upper =>
      cases hit
      exact ⟨Nat.le_refl _, Grid.le_of_contains upper⟩
  · cases hit

/-- The finest grid has seventeen digits before the end of the number, which has `lead`. -/
theorem search_close (canonical : Canonical mantissa exponent) {lead : Int}
    (above : (10 : Rat) ^ (lead - 1) ≤ mantissa * 2 ^ exponent)
    (below : (mantissa : Rat) * 2 ^ exponent < 10 ^ lead) {count : Nat} {power : Int}
    (isPower : power = lead - 17 + count) :
    Close mantissa exponent (search tie mantissa exponent count power) := by
  induction count generalizing power with
  | zero =>
      have coarse : lead - 17 ≤ power := by omega
      have short := Grid.below_lt (g := ⟨mantissa, exponent, power⟩) below coarse
      have nearest := (Grid.mk mantissa exponent power).nearer_le tie
      refine ⟨Nat.le_trans (Grid.nearer_le_succ tie _ _) short, le_trans nearest ?_⟩
      have step : (10 : Rat) ^ power * 10 ^ 16 ≤ mantissa * 2 ^ exponent := by
        refine le_trans (le_of_eq ?_) above
        rw [isPower, ← zpow_natCast, ← zpow_add₀ (by norm_num)]
        congr 1
        push_cast
        ring
      have fewer : (mantissa : Rat) ≤ 10 ^ 16 := by
        have small : mantissa ≤ 10 ^ 16 := Nat.le_of_lt (lt_trans canonical.below (by decide))
        exact_mod_cast small
      have unit : (mantissa : Rat) * 2 ^ exponent ≤ 10 ^ 16 * 2 ^ exponent := by gcongr
      change (mantissa : Rat) * 2 ^ exponent + 10 ^ power / 2 ≤ (mantissa + 1 / 2) * 2 ^ exponent
      linarith
  | succ count inductionHypothesis =>
      unfold search
      simp only
      split
      · next k hit =>
          have coarse : lead - 17 ≤ power := by omega
          have short := Grid.below_lt (g := ⟨mantissa, exponent, power⟩) below coarse
          obtain ⟨next, within⟩ := le_of_hit_upper hit
          exact ⟨Nat.le_trans next short, within⟩
      · exact inductionHypothesis (by omega)

end Search

/-! ## The shortest decimal -/

/-- The digits of a lifted ratio tell between which powers of ten the ratio lies. -/
theorem value_between {r : Ratio} {lift lead : Nat} (positive : 0 < r.den)
    (lifted : r.den ≤ r.num * tenTo lift)
    (length : (digits (r.num * tenTo lift / r.den)).length = lead + 1) :
    (10 : Rat) ^ ((lead : Int) - lift) ≤ r.value ∧
      r.value < 10 ^ ((lead : Int) + 1 - lift) := by
  have weight : (0 : Rat) < r.den := by exact_mod_cast positive
  have unit : (0 : Rat) < 10 ^ lift := by positivity
  have fits : r.num * tenTo lift / r.den < 10 ^ (lead + 1) :=
    (length_digits_le_iff (Nat.succ_pos lead)).mp (Nat.le_of_eq length)
  rw [zpow_sub₀ (by norm_num), zpow_sub₀ (by norm_num), zpow_natCast, zpow_natCast, Ratio.value,
    div_le_div_iff₀ unit weight, div_lt_div_iff₀ weight unit, zpow_add_one₀ (by norm_num),
    zpow_natCast, ← pow_succ]
  constructor
  · exact_mod_cast tenTo_mul_den_le positive lifted length
  · exact_mod_cast (Nat.div_lt_iff_lt_mul positive).mp fits

theorem magnitude_spec {mantissa : Nat} {exponent : Int} (least : leastExponent ≤ exponent)
    (positive : 0 < mantissa) :
    (10 : Rat) ^ (magnitude (Ratio.ofBinary mantissa exponent) - 1) ≤ mantissa * 2 ^ exponent ∧
      (mantissa : Rat) * 2 ^ exponent < 10 ^ magnitude (Ratio.ofBinary mantissa exponent) := by
  have lifted := ofBinary_den_le least positive
  obtain ⟨lead, length⟩ := Nat.exists_eq_succ_of_ne_zero (Nat.ne_of_gt (length_digits_pos
    ((Ratio.ofBinary mantissa exponent).num * tenTo 350 / (Ratio.ofBinary mantissa exponent).den)))
  have isMagnitude : magnitude (Ratio.ofBinary mantissa exponent) = lead + 1 - (350 : Nat) := by
    unfold magnitude
    simp only
    rw [length]
    rfl
  obtain ⟨above, below⟩ := value_between (ofBinary_den_pos mantissa exponent) lifted length
  rw [Ratio.value_ofBinary] at above below
  have previous : (lead : Int) + 1 - (350 : Nat) - 1 = lead - (350 : Nat) := by ring
  rw [isMagnitude, previous]
  exact ⟨above, below⟩

/-- The shortest decimal of a positive number has few digits and is hardly above the number. -/
theorem ofBinary_close {mantissa : Nat} {exponent : Int} (tie : Tie)
    (canonical : Canonical mantissa exponent) (positive : 0 < mantissa) :
    Close mantissa exponent (ofBinary tie mantissa exponent) := by
  obtain ⟨above, below⟩ := magnitude_spec canonical.least positive
  have found : Close mantissa exponent
      (search tie mantissa exponent 16 (magnitude (Ratio.ofBinary mantissa exponent) - 1)) :=
    search_close canonical above below (by push_cast; ring)
  rw [ofBinary, if_neg (Nat.ne_of_gt positive)]
  exact ⟨Nat.le_trans (strip_coefficient_le _ _) found.short,
    le_trans (le_of_eq (strip_value _ _)) found.le⟩

end Decimal

end Montage.Number
