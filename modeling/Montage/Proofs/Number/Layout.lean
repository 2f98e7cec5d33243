import Montage.Number.Shortest
import Montage.Proofs.Number.Decoding
import Montage.Proofs.Number.Digits

/-!
Contract: the layout of the shortest decimal of a number.

The search starts on a grid on which the number is one point or more, and the
grids only get finer, so the digits of a positive number do not begin with a
zero. Laid out without an exponent they get one in front of the point only when
nothing else stands there.

Owns: positive coefficients, and the two parts of the positional layout.
Does not own: that the digits read back as the number.
-/

namespace Montage.Number.Decimal

open Binary64 (Canonical leastExponent)

/-! ## Coefficients -/

section Search

variable {mantissa : Nat} {exponent power : Int} {tie : Tie}

theorem le_nearer (tie : Tie) (g : Grid) (k : Nat) : k ≤ g.nearer tie k := by
  unfold Grid.nearer
  simp only
  split
  · exact Nat.le_refl k
  · split
    · exact Nat.le_succ k
    · split <;> omega

theorem le_of_hit {g : Grid} {k : Nat} (hit : g.hit? tie = some k) : g.below ≤ k := by
  unfold Grid.hit? at hit
  simp only at hit
  split at hit
  · cases hit
    exact le_nearer tie g g.below
  · cases hit
    exact Nat.le_refl _
  · cases hit
    exact Nat.le_succ _
  · cases hit

/-- A grid that is coarse enough to be reached by the number. -/
def Reached (mantissa : Nat) (exponent power : Int) : Prop :=
  1 ≤ (Grid.mk mantissa exponent power).below

theorem search_coefficient_pos (reached : ∀ p ≤ power, Reached mantissa exponent p) (count : Nat) :
    0 < (search tie mantissa exponent count power).coefficient := by
  induction count generalizing power with
  | zero => exact Nat.lt_of_lt_of_le (reached power (le_refl power)) (le_nearer _ _ _)
  | succ count inductionHypothesis =>
      unfold search
      simp only
      split
      · next hit => exact Nat.lt_of_lt_of_le (reached power (le_refl power)) (le_of_hit hit)
      · exact inductionHypothesis fun p finer => reached p (by omega)

theorem strip_coefficient_pos {d : Decimal} (positive : 0 < d.coefficient) (fuel : Nat) :
    0 < (strip fuel d).coefficient := by
  induction fuel generalizing d with
  | zero => exact positive
  | succ fuel inductionHypothesis =>
      unfold strip
      split
      · next trailing =>
          apply inductionHypothesis
          show 0 < d.coefficient / 10
          omega
      · exact positive

end Search

/-! ## The first grid

A ratio is lifted above one by a power of ten before its digits are counted. -/

section Lifted

variable {r : Ratio} {lift : Nat}

/-- A lifted ratio is not below the power of ten with as many zeros as it has later digits. -/
theorem tenTo_mul_den_le {lead : Nat} (positive : 0 < r.den) (lifted : r.den ≤ r.num * tenTo lift)
    (length : (digits (r.num * tenTo lift / r.den)).length = lead + 1) :
    tenTo lead * r.den ≤ r.num * tenTo lift := by
  have reaches : tenTo lead ≤ r.num * tenTo lift / r.den := by
    by_cases isZero : lead = 0
    · subst isZero
      exact (Nat.one_le_div_iff positive).mpr lifted
    · by_contra short
      have fits := (length_digits_le_iff (Nat.pos_of_ne_zero isZero)).mpr (Nat.lt_of_not_le short)
      omega
  exact (Nat.le_div_iff_mul_le positive).mp reaches

theorem tenTo_pos (n : Nat) : 0 < tenTo n := Nat.pow_pos (by decide)

theorem tenTo_add (m n : Nat) : tenTo (m + n) = tenTo m * tenTo n := Nat.pow_add 10 m n

theorem tenTo_le {m n : Nat} (le : m ≤ n) : tenTo m ≤ tenTo n :=
  Nat.pow_le_pow_right (by decide) le

theorem one_le_of_coarse {power : Int} (positive : 0 < r.den) (lifted : r.den ≤ r.num * tenTo lift)
    (coarse : power ≤ (digits (r.num * tenTo lift / r.den)).length - lift - 1) :
    1 ≤ (r.timesPowerOfTen (-power)).num / (r.timesPowerOfTen (-power)).den := by
  obtain ⟨lead, length⟩ :=
    Nat.exists_eq_succ_of_ne_zero (Nat.ne_of_gt (length_digits_pos (r.num * tenTo lift / r.den)))
  have above := tenTo_mul_den_le positive lifted length
  rw [length] at coarse
  unfold Ratio.timesPowerOfTen
  split
  · rw [Nat.one_le_div_iff positive]
    have enough : lift ≤ lead + (-power).toNat := by omega
    refine Nat.le_of_mul_le_mul_right ?_ (tenTo_pos lift)
    calc r.den * tenTo lift ≤ r.den * tenTo (lead + (-power).toNat) :=
          Nat.mul_le_mul_left _ (tenTo_le enough)
      _ = tenTo lead * r.den * tenTo (-power).toNat := by
          rw [tenTo_add]
          ring
      _ ≤ r.num * tenTo lift * tenTo (-power).toNat := Nat.mul_le_mul_right _ above
      _ = r.num * tenTo (-power).toNat * tenTo lift := by ring
  · rw [Nat.one_le_div_iff (Nat.mul_pos positive (tenTo_pos _))]
    have enough : (- -power).toNat + lift ≤ lead := by omega
    refine Nat.le_of_mul_le_mul_right ?_ (tenTo_pos lift)
    calc r.den * tenTo (- -power).toNat * tenTo lift
        = tenTo ((- -power).toNat + lift) * r.den := by
          rw [tenTo_add]
          ring
      _ ≤ tenTo lead * r.den := Nat.mul_le_mul_right _ (tenTo_le enough)
      _ ≤ r.num * tenTo lift := above

end Lifted

theorem twoTo_le {m n : Nat} (le : m ≤ n) : twoTo m ≤ twoTo n :=
  Nat.pow_le_pow_right (by decide) le

theorem twoTo_mul_le (n : Nat) : twoTo (13 * n) ≤ tenTo (4 * n) := by
  have base : 2 ^ 13 ≤ 10 ^ 4 := by decide
  have powers := Nat.pow_le_pow_left base n
  rw [← Nat.pow_mul, ← Nat.pow_mul] at powers
  exact powers

theorem twoTo_le_tenTo : twoTo 1074 ≤ tenTo 350 :=
  calc twoTo 1074 ≤ twoTo (13 * 83) := twoTo_le (by decide)
    _ ≤ tenTo (4 * 83) := twoTo_mul_le 83
    _ ≤ tenTo 350 := tenTo_le (by decide)

theorem ofBinary_den_le {mantissa : Nat} {exponent : Int} (least : leastExponent ≤ exponent)
    (positive : 0 < mantissa) :
    (Ratio.ofBinary mantissa exponent).den ≤
      (Ratio.ofBinary mantissa exponent).num * tenTo 350 := by
  unfold Ratio.ofBinary
  split
  · exact Nat.succ_le_of_lt
      (Nat.mul_pos (Nat.mul_pos positive (Nat.two_pow_pos _)) (tenTo_pos _))
  · have shift : (-exponent).toNat ≤ 1074 := by
      unfold leastExponent at least
      omega
    calc twoTo (-exponent).toNat ≤ twoTo 1074 := twoTo_le shift
      _ ≤ tenTo 350 := twoTo_le_tenTo
      _ ≤ mantissa * tenTo 350 := Nat.le_mul_of_pos_left _ positive

theorem ofBinary_den_pos (mantissa : Nat) (exponent : Int) :
    0 < (Ratio.ofBinary mantissa exponent).den := by
  unfold Ratio.ofBinary
  split
  · exact Nat.one_pos
  · exact Nat.two_pow_pos _

theorem reached_of_le {mantissa : Nat} {exponent power : Int} (least : leastExponent ≤ exponent)
    (positive : 0 < mantissa)
    (coarse : power ≤ magnitude (Ratio.ofBinary mantissa exponent) - 1) :
    Reached mantissa exponent power :=
  one_le_of_coarse (ofBinary_den_pos mantissa exponent) (ofBinary_den_le least positive) coarse

/-- The digits of a positive number are those of a positive whole number. -/
theorem ofBinary_coefficient_pos {mantissa : Nat} {exponent : Int} (tie : Tie)
    (least : leastExponent ≤ exponent) (positive : 0 < mantissa) :
    0 < (ofBinary tie mantissa exponent).coefficient := by
  unfold ofBinary
  rw [if_neg (Nat.ne_of_gt positive)]
  apply strip_coefficient_pos
  exact search_coefficient_pos (fun p coarse => reached_of_le least positive coarse) 16

/-! ## Positional layout -/

/-- What the layouts need of a decimal: a zero is written as one digit. -/
def Plain (d : Decimal) : Prop := d.coefficient = 0 → d.exponent = 0

theorem ofBinary_plain {mantissa : Nat} {exponent : Int} (tie : Tie)
    (least : leastExponent ≤ exponent) : (ofBinary tie mantissa exponent).Plain := by
  intro isZero
  by_cases positive : 0 < mantissa
  · have nonzero := ofBinary_coefficient_pos tie least positive
    omega
  · unfold ofBinary
    rw [if_pos (by omega)]

theorem allDigits_positional (d : Decimal) :
    AllDigits d.positional.1 ∧ AllDigits d.positional.2 := by
  have all := allDigits_digits d.coefficient
  unfold positional
  simp only
  split
  · refine ⟨all.append (allDigits_zeros _), ?_⟩
    intro c member
    cases member
  · have padded : AllDigits (List.replicate _ '0' ++ digits d.coefficient) :=
      (allDigits_zeros ((-d.exponent).toNat + 1 - (digits d.coefficient).length)).append all
    exact ⟨fun c member => padded c (List.mem_of_mem_take member),
      fun c member => padded c (List.mem_of_mem_drop member)⟩

theorem positional_whole_ne_nil (d : Decimal) : d.positional.1 ≠ [] := by
  have nonempty := length_digits_pos d.coefficient
  intro empty
  have length := congrArg List.length empty
  unfold positional at length
  simp only at length
  split at length
  · simp only [List.length_append, List.length_replicate, List.length_nil] at length
    omega
  · simp only [List.length_take, List.length_append, List.length_replicate, List.length_nil] at length
    omega

/-- A leading zero stands alone before the point. -/
theorem positional_noLeadingZero {d : Decimal} (plain : d.Plain)
    (leading : d.positional.1.head? = some '0') : d.positional.1 = ['0'] := by
  have nonempty := length_digits_pos d.coefficient
  obtain ⟨c, others, begins⟩ := List.exists_cons_of_ne_nil (digits_ne_nil d.coefficient)
  unfold positional at leading ⊢
  simp only at leading ⊢
  split at leading
  · next whole =>
      rw [if_pos whole]
      rw [List.head?_append, begins] at leading
      have isZero : d.coefficient = 0 := by
        apply eq_zero_of_head_digits
        rw [begins]
        exact leading
      rw [isZero, plain isZero]
      rfl
  · next fractional =>
      rw [if_neg fractional]
      by_cases short : (digits d.coefficient).length ≤ (-d.exponent).toNat
      · obtain ⟨zeros, count⟩ : ∃ zeros,
            (-d.exponent).toNat + 1 - (digits d.coefficient).length = zeros + 1 :=
          ⟨(-d.exponent).toNat - (digits d.coefficient).length, by omega⟩
        have kept : (List.replicate (zeros + 1) '0' ++ digits d.coefficient).length -
            (-d.exponent).toNat = 1 := by
          rw [List.length_append, List.length_replicate]
          omega
        rw [count, kept]
        rfl
      · have noZeros : (-d.exponent).toNat + 1 - (digits d.coefficient).length = 0 := by omega
        obtain ⟨kept, count⟩ : ∃ kept,
            (digits d.coefficient).length - (-d.exponent).toNat = kept + 1 :=
          ⟨(digits d.coefficient).length - (-d.exponent).toNat - 1, by omega⟩
        rw [noZeros, List.replicate_zero, List.nil_append, count, begins] at leading
        have isZero : d.coefficient = 0 := by
          apply eq_zero_of_head_digits
          rw [begins]
          exact leading
        have noPlaces := plain isZero
        omega

end Montage.Number.Decimal
