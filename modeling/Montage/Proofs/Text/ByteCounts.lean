import Montage.Proofs.Number.Bounds
import Montage.Proofs.Number.Printing
import Montage.Text.Bytes

/-!
Contract: byte counts are shown in a fitting unit, except right below the next one.

A count is converted to the number nearest to it, so up to 53 bits it is kept,
and a unit is a power of two, which divides it without a loss. The unit is the
largest that the count reaches; only the printed number is rounded, by half of a
hundredth at most. Where less than that is missing to the next unit, the number
is rounded up to 1024.00 of the unit below.

Owns: units and what is shown in them, and `shown_in_fitting_unit`.
Does not own: the rounding of printed numbers, in `Proofs.Number.Printing`.
-/

namespace Montage.Text

open Montage.Number
open Montage.Number.Binary64

/-! ## Units -/

inductive ByteUnit where
  | kib
  | mib
  | gib
deriving DecidableEq

namespace ByteUnit

def power : ByteUnit → Nat
  | .kib => 10
  | .mib => 20
  | .gib => 30

def bytes (unit : ByteUnit) : Nat := 2 ^ unit.power

def name : ByteUnit → String
  | .kib => "KiB"
  | .mib => "MiB"
  | .gib => "GiB"

/-- The number that a count is compared with and divided by. -/
def weight : ByteUnit → Float
  | .kib => 1024.0
  | .mib => 1048576.0
  | .gib => 1073741824.0

/-- A number with two decimals, given in hundredths, and the unit behind it. -/
def shown (unit : ByteUnit) (hundredths : Nat) : String :=
  toString (hundredths / 100) ++ "." ++ String.ofList (paddedDigits 2 (hundredths % 100)) ++
    " " ++ unit.name

theorem byteUnits_eq :
    byteUnits = [ByteUnit.gib, .mib, .kib].map fun unit => (unit.weight, unit.name) :=
  rfl

variable {unit other : ByteUnit} {hundredths units : Nat}

theorem decoded_weight (unit : ByteUnit) :
    ofFloat unit.weight = .finite false (2 ^ 52) (unit.power - 52) := by
  cases unit <;> decide

theorem value_weight (unit : ByteUnit) : (ofFloat unit.weight).value = unit.bytes := by
  rw [value_of_decoded (decoded_weight unit), bytes]
  cases unit <;> norm_num [power]

theorem bytes_pos (unit : ByteUnit) : 0 < unit.bytes := Nat.two_pow_pos _

theorem bytes_lt (unit : ByteUnit) : unit.bytes < 2 ^ 53 := by
  cases unit <;> decide

theorem name_injective (same : unit.name = other.name) : unit = other := by
  revert same
  cases unit <;> cases other <;> decide

theorem toList_shown (unit : ByteUnit) (hundredths : Nat) :
    (unit.shown hundredths).toList =
      digits (hundredths / 100) ++
        '.' :: (paddedDigits 2 (hundredths % 100) ++ ' ' :: unit.name.toList) := by
  simp [shown, digits]

/-- A text shows one number in one unit. -/
theorem shown_injective (same : unit.shown hundredths = other.shown units) :
    unit = other ∧ hundredths = units := by
  have ends (unit : ByteUnit) (n : Nat) :
      EndsDigits ('.' :: (paddedDigits 2 n ++ ' ' :: unit.name.toList)) := by
    rintro c ⟨⟩
    rfl
  have width (n : Nat) : (paddedDigits 2 (n % 100)).length = 2 :=
    length_paddedDigits two_pos (Nat.mod_lt n (by decide))
  have letters := congrArg String.toList same
  rw [toList_shown, toList_shown] at letters
  have cut := congrArg spanDigits letters
  rw [spanDigits_append (allDigits_digits _) (ends unit _),
    spanDigits_append (allDigits_digits _) (ends other _), Prod.mk.injEq] at cut
  obtain ⟨wholes, tails⟩ := cut
  obtain ⟨decimals, names⟩ := List.append_inj (List.cons.inj tails).2
    ((width hundredths).trans (width units).symm)
  have whole := congrArg wholeValue wholes
  have decimal := congrArg wholeValue decimals
  rw [wholeValue_digits, wholeValue_digits] at whole
  rw [wholeValue_paddedDigits, wholeValue_paddedDigits] at decimal
  exact ⟨name_injective (String.toList_inj.mp (List.cons.inj names).2), by omega⟩

end ByteUnit

/-! ## The fitting unit -/

section Units

variable {count : UInt64} {unit : ByteUnit}

/-- The largest unit that a count reaches. -/
structure IsLargestReached (unit : ByteUnit) (count : Nat) : Prop where
  reached : unit.bytes ≤ count
  next : unit = .gib ∨ count < 1024 * unit.bytes

theorem weight_le_iff : unit.weight ≤ count.toFloat ↔ unit.bytes ≤ count.toNat := by
  have rounds := rounds_toFloat count
  have finite : (ofFloat unit.weight).isFinite = true := by
    rw [unit.decoded_weight]
    rfl
  rw [le_iff_value_le finite (isFinite_iff.mp rounds.isFinite), unit.value_weight]
  constructor
  · intro above
    by_contra below
    -- A count below a unit is short, so its conversion is exact.
    have short : count.toNat < 2 ^ 53 := (Nat.lt_of_not_le below).trans unit.bytes_lt
    rw [rounds.eq (representable_natCast short)] at above
    exact below (by exact_mod_cast above)
  · intro reached
    exact rounds.ge _ (representable_natCast unit.bytes_lt) (by exact_mod_cast reached)

theorem fittingUnit?_toFloat (count : UInt64) :
    fittingUnit? count.toFloat =
      ([ByteUnit.gib, .mib, .kib].find? fun unit => unit.bytes ≤ count.toNat).map
        fun unit => (unit.weight, unit.name) := by
  rw [fittingUnit?, ByteUnit.byteUnits_eq, List.find?_map]
  congr 2
  funext unit
  exact decide_eq_decide.mpr weight_le_iff

theorem formatBytes_of_small (small : count.toNat < 1024) :
    formatBytes count = toString count.toNat ++ " B" := by
  have none : ([ByteUnit.gib, .mib, .kib].find? fun unit => unit.bytes ≤ count.toNat) = none := by
    simp only [List.find?_eq_none, decide_eq_true_eq, not_le]
    intro unit _
    refine small.trans_le ?_
    cases unit <;> decide
  rw [formatBytes, fittingUnit?_toFloat, none]
  rfl

theorem exists_largestReached (large : 1024 ≤ count.toNat) :
    ∃ unit, IsLargestReached unit count.toNat ∧
      formatBytes count = fixed 2 (count.toFloat / unit.weight) ++ " " ++ unit.name := by
  have found : ∃ unit, IsLargestReached unit count.toNat ∧
      ([ByteUnit.gib, .mib, .kib].find? fun unit => unit.bytes ≤ count.toNat) = some unit := by
    by_cases gib : ByteUnit.gib.bytes ≤ count.toNat
    · exact ⟨.gib, ⟨gib, Or.inl rfl⟩, List.find?_cons_of_pos (decide_eq_true gib)⟩
    rw [List.find?_cons_of_neg (by simpa using gib)]
    by_cases mib : ByteUnit.mib.bytes ≤ count.toNat
    · exact ⟨.mib, ⟨mib, Or.inr (Nat.lt_of_not_le gib)⟩,
        List.find?_cons_of_pos (decide_eq_true mib)⟩
    rw [List.find?_cons_of_neg (by simpa using mib)]
    exact ⟨.kib, ⟨large, Or.inr (Nat.lt_of_not_le mib)⟩,
      List.find?_cons_of_pos (decide_eq_true large)⟩
  obtain ⟨unit, largest, found⟩ := found
  refine ⟨unit, largest, ?_⟩
  rw [formatBytes, fittingUnit?_toFloat, found]
  rfl

end Units

/-! ## The printed number -/

section Printed

variable {count : UInt64} {unit : ByteUnit}

/-- A count in a unit, before it is printed. -/
theorem rounds_quotient (count : UInt64) (unit : ByteUnit) :
    Rounds (count.toFloat / unit.weight) ((ofFloat count.toFloat).value / unit.bytes) := by
  have rounds := rounds_toFloat count
  obtain ⟨m, e, decoded⟩ := rounds.decoded
  have oneAtLeast : (1 : Rat) ≤ unit.bytes := by exact_mod_cast unit.bytes_pos
  have word : (count.toNat : Rat) ≤ 2 ^ 64 := by exact_mod_cast count.toNat_lt.le
  have bounded := rounds.le _ representable_wordSize word
  have nonneg : 0 ≤ (ofFloat count.toFloat).value := by
    rw [value_of_decoded decoded]
    positivity
  rw [← unit.value_weight] at oneAtLeast ⊢
  refine rounds_div decoded unit.decoded_weight (by decide) representable_wordSize ?_
  exact (div_le_self nonneg oneAtLeast).trans bounded

/-- Short counts are divided by a unit without a loss. -/
theorem value_quotient (short : count.toNat < 2 ^ 53) :
    (ofFloat (count.toFloat / unit.weight)).value = count.toNat / unit.bytes := by
  have exactly := (rounds_toFloat count).eq (representable_natCast short)
  have quotient := rounds_quotient count unit
  rw [exactly] at quotient
  refine quotient.eq ?_
  have kept : Representable (count.toNat * 2 ^ (-(unit.power : Int))) :=
    representable_grid short (by cases unit <;> decide) (by cases unit <;> decide)
  rwa [zpow_neg, zpow_natCast, ← div_eq_mul_inv, ← Nat.cast_ofNat (R := Rat), ← Nat.cast_pow] at kept

theorem one_le_quotient (reached : unit.bytes ≤ count.toNat) :
    1 ≤ (ofFloat (count.toFloat / unit.weight)).value := by
  have above := (rounds_toFloat count).ge _ (representable_natCast unit.bytes_lt)
    (by exact_mod_cast reached)
  have positive : (0 : Rat) < unit.bytes := by exact_mod_cast unit.bytes_pos
  have one : Representable (1 : Nat) := representable_natCast (by decide)
  rw [Nat.cast_one] at one
  exact (rounds_quotient count unit).ge 1 one ((one_le_div positive).mpr above)

/-- What is shown of a count in a unit: a number of two decimals that is one at least, and for a
count of 53 bits half of a hundredth away at most. -/
structure ShownIn (count : UInt64) (unit : ByteUnit) (hundredths : Nat) : Prop where
  text : formatBytes count = unit.shown hundredths
  one_le : 1 ≤ (hundredths / 100 : Rat)
  near : count.toNat < 2 ^ 53 →
    |(hundredths / 100 : Rat) - count.toNat / unit.bytes| ≤ 5 / 1000

theorem fixed_two {x : Float} {m : Nat} {e : Int} (decoded : ofFloat x = .finite false m e) :
    fixed 2 x ++ " " ++ unit.name = unit.shown (unitsOf 2 m e) := by
  have number : (fixed 2 x).toList = digits (unitsOf 2 m e / 100) ++
      '.' :: paddedDigits 2 (unitsOf 2 m e % 100) := by
    rw [fixed, String.toList_ofList, fixedChars, decoded]
    exact pointText_eq two_pos (unitsOf 2 m e)
  rw [← String.toList_inj, unit.toList_shown]
  simp [number]

theorem exists_shownIn (reached : unit.bytes ≤ count.toNat)
    (printed : formatBytes count = fixed 2 (count.toFloat / unit.weight) ++ " " ++ unit.name) :
    ∃ hundredths, ShownIn count unit hundredths := by
  obtain ⟨m, e, decoded⟩ := (rounds_quotient count unit).decoded
  have oneAtLeast := one_le_quotient reached
  rw [value_of_decoded decoded] at oneAtLeast
  refine ⟨unitsOf 2 m e, printed.trans (fixed_two decoded), ?_, fun short => ?_⟩
  · have hundred : 100 ≤ unitsOf 2 m e := by
      refine le_unitsOf ?_
      push_cast
      linarith
    rw [le_div_iff₀ (by norm_num), one_mul]
    exact_mod_cast hundred
  · have near := unitsOf_near 2 m e
    rw [← value_of_decoded decoded, value_quotient short, abs_le] at near
    rw [abs_le]
    constructor <;> linarith

end Printed

/-! ## Numbers that fit -/

section Fitting

variable {count : UInt64}

/-- What a count is shown as, if its number stays below the next unit. -/
inductive Fits (count : UInt64) : Prop where
  | plain (small : count.toNat < 1024) (text : formatBytes count = toString count.toNat ++ " B")
  | inUnit {unit : ByteUnit} {hundredths : Nat} (large : 1024 ≤ count.toNat)
      (shown : ShownIn count unit hundredths)
      (below : unit ≠ .gib → (hundredths / 100 : Rat) < 1024)

/-- The counts to which less than half of a hundredth is missing to a mebibyte or a gibibyte. -/
def AlmostNext (count : Nat) : Prop :=
  1048571 ≤ count ∧ count < 1048576 ∨ 1073736582 ≤ count ∧ count < 1073741824

instance (count : Nat) : Decidable (AlmostNext count) :=
  inferInstanceAs (Decidable (_ ∨ _))

theorem below_iff {bytes hundredths n : Nat} (positive : 0 < bytes)
    (near : |(hundredths / 100 : Rat) - n / bytes| ≤ 5 / 1000) (noTie : 200 * n ≠ 204799 * bytes) :
    (hundredths / 100 : Rat) < 1024 ↔ 200 * n < 204799 * bytes := by
  have weight : (0 : Rat) < bytes := by exact_mod_cast positive
  obtain ⟨low, high⟩ := abs_le.mp near
  constructor
  · intro below
    -- The largest number of two decimals below the limit is 1023.99.
    have whole : hundredths ≤ 102399 := by
      have short : (hundredths : Rat) < (102400 : Nat) := by
        push_cast
        linarith
      exact Nat.le_of_lt_succ (by exact_mod_cast short)
    have last : (hundredths : Rat) ≤ 102399 := by exact_mod_cast whole
    have atMost : (n : Rat) / bytes ≤ 204799 / 200 := by linarith
    have scaled : 200 * (n : Rat) ≤ 204799 * bytes := by
      have bound := (div_le_iff₀ weight).mp atMost
      linarith
    exact lt_of_le_of_ne (by exact_mod_cast scaled) noTie
  · intro below
    have scaled : 200 * (n : Rat) < 204799 * bytes := by exact_mod_cast below
    have under : (n : Rat) / bytes < 204799 / 200 := by
      rw [div_lt_iff₀ weight]
      linarith
    linarith

/-- In the largest unit that is reached, the number is below the next unit unless it almost is it. -/
theorem ShownIn.below_iff_of_largest {unit : ByteUnit} {hundredths : Nat}
    (shown : ShownIn count unit hundredths) (largest : IsLargestReached unit count.toNat) :
    (unit ≠ .gib → (hundredths / 100 : Rat) < 1024) ↔ ¬ AlmostNext count.toNat := by
  obtain ⟨reached, next⟩ := largest
  unfold AlmostNext
  by_cases last : unit = .gib
  · subst last
    change 2 ^ 30 ≤ count.toNat at reached
    simp only [ne_eq, not_true_eq_false, false_implies, true_iff]
    omega
  have within := next.resolve_left last
  have short : count.toNat < 2 ^ 53 := by
    refine within.trans ?_
    cases unit <;> decide
  simp only [ne_eq, last, not_false_eq_true, true_implies]
  cases unit with
  | gib => exact absurd rfl last
  | kib =>
      change 2 ^ 10 ≤ count.toNat at reached
      change count.toNat < 1024 * 2 ^ 10 at within
      rw [below_iff ByteUnit.kib.bytes_pos (shown.near short) (by change _ ≠ 204799 * 2 ^ 10; omega)]
      change 200 * count.toNat < 204799 * 2 ^ 10 ↔ _
      omega
  | mib =>
      change 2 ^ 20 ≤ count.toNat at reached
      change count.toNat < 1024 * 2 ^ 20 at within
      rw [below_iff ByteUnit.mib.bytes_pos (shown.near short) (by change _ ≠ 204799 * 2 ^ 20; omega)]
      change 200 * count.toNat < 204799 * 2 ^ 20 ↔ _
      omega

theorem fits_iff (count : UInt64) : Fits count ↔ ¬ AlmostNext count.toNat := by
  by_cases small : count.toNat < 1024
  · have notAlmost : ¬ AlmostNext count.toNat := by
      unfold AlmostNext
      omega
    exact ⟨fun _ => notAlmost, fun _ => .plain small (formatBytes_of_small small)⟩
  have large := Nat.le_of_not_lt small
  obtain ⟨unit, largest, printed⟩ := exists_largestReached large
  obtain ⟨hundredths, shown⟩ := exists_shownIn largest.reached printed
  rw [← shown.below_iff_of_largest largest]
  constructor
  · intro fits
    cases fits with
    | plain small _ => exact absurd small large.not_gt
    | inUnit _ also below =>
        obtain ⟨rfl, rfl⟩ := ByteUnit.shown_injective (also.text.symm.trans shown.text)
        exact below
  · exact fun below => .inUnit large shown below

/-- Counts below 1024 are shown as they are, and every other count in the largest unit it reaches: a
number of two decimals, one at least, and near the count. The number is below the next unit, if there
is one, for all counts but those to which less than half of a hundredth is missing to it. -/
theorem shown_in_fitting_unit (count : UInt64) :
    (count.toNat < 1024 → formatBytes count = toString count.toNat ++ " B") ∧
      (1024 ≤ count.toNat → ∃ unit hundredths,
        ShownIn count unit hundredths ∧ IsLargestReached unit count.toNat) ∧
      (Fits count ↔ ¬ AlmostNext count.toNat) := by
  refine ⟨formatBytes_of_small, fun large => ?_, fits_iff count⟩
  obtain ⟨unit, largest, printed⟩ := exists_largestReached large
  obtain ⟨hundredths, shown⟩ := exists_shownIn largest.reached printed
  exact ⟨unit, hundredths, shown, largest⟩

/-- The last count that is shown as less than 1024 of its unit. -/
theorem last_kibibytes_shown_in_fitting_unit :
    (512 : UInt64).toNat < 1024 ∧ formatBytes 512 = "512 B" ∧
      1024 ≤ (1048570 : UInt64).toNat ∧ formatBytes 1048570 = "1023.99 KiB" ∧
      (∃ unit hundredths, ShownIn 1048570 unit hundredths ∧ IsLargestReached unit 1048570) ∧
      ¬ AlmostNext 1048570 ∧ Fits 1048570 := by
  obtain ⟨plain, -, -⟩ := shown_in_fitting_unit 512
  obtain ⟨-, inUnit, fits⟩ := shown_in_fitting_unit 1048570
  exact ⟨by decide, plain (by decide), by decide, rfl, inUnit (by decide), by decide,
    fits.mpr (by decide)⟩

/-- One byte below a mebibyte the number has left its unit. -/
theorem almost_mebibyte_misfits : formatBytes 1048575 = "1024.00 KiB" ∧ ¬ Fits 1048575 :=
  ⟨rfl, fun fits => (fits_iff 1048575).mp fits (by decide)⟩

end Fitting

end Montage.Text
