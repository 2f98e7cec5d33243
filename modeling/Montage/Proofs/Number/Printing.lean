import Mathlib.Tactic.FieldSimp
import Montage.Graph.Filter
import Montage.Proofs.Number.Finite
import Montage.Proofs.Number.Nearness

/-!
Contract: what a printed number says.

A printed number is read back as a decimal: a minus sign or none, digits, and
digits behind a point or none. The words for numbers that are not finite do not
read as a decimal. A number that is cut to some places is read back as the
nearest multiple of the last place, and halfway as the even one, so it is read
as zero up to half of that place.

Owns: the value of a decimal text, and what fixed, shortest and whole texts are
read back as.
Does not own: which texts a graph consists of, in `Proofs.Graph.Parts`.
-/

namespace Montage.Number

/-! ## Decimals -/

/-- The value of digits, or of digits on both sides of a point. -/
def pointValue? (cs : List Char) : Option Rat :=
  match spanDigits cs with
  | (whole, []) => if whole.isEmpty then none else some (wholeValue whole)
  | (whole, c :: fraction) =>
    if c = '.' ∧ whole ≠ [] ∧ fraction ≠ [] ∧ fraction.all Char.isDigit = true then
      some (wholeValue whole + wholeValue fraction / 10 ^ fraction.length)
    else none

def decimalValue? : List Char → Option Rat
  | '-' :: cs => (pointValue? cs).map Neg.neg
  | cs => pointValue? cs

/-- The value of a text that is a decimal. -/
def textValue? (text : String) : Option Rat := decimalValue? text.toList

/-- A text that is a finite decimal. -/
def IsDecimal (text : String) : Prop := ∃ v, textValue? text = some v

/-- A decimal above zero. -/
def IsPositiveDecimal (text : String) : Prop := ∃ v, textValue? text = some v ∧ 0 < v

theorem IsPositiveDecimal.isDecimal {text : String} (positive : IsPositiveDecimal text) :
    IsDecimal text :=
  positive.imp fun _ reading => reading.1

section Texts

variable {cs whole fraction : List Char} {v : Rat}

theorem pointValue?_digits (all : AllDigits cs) (some : cs ≠ []) :
    pointValue? cs = .some (wholeValue cs : Rat) := by
  have span : spanDigits (cs ++ []) = (cs, []) := spanDigits_append all (by simp [EndsDigits])
  rw [List.append_nil] at span
  simp [pointValue?, span, some]

theorem pointValue?_point (left : AllDigits whole) (some : whole ≠ []) (right : AllDigits fraction)
    (someFraction : fraction ≠ []) :
    pointValue? (whole ++ '.' :: fraction) =
      .some (wholeValue whole + wholeValue fraction / 10 ^ fraction.length : Rat) := by
  have ends : EndsDigits ('.' :: fraction) := by
    rintro c ⟨⟩
    decide
  have all : fraction.all Char.isDigit = true := List.all_eq_true.mpr right
  simp [pointValue?, spanDigits_append left ends, some, someFraction, all]

/-- What is read without a sign does not begin with one. -/
theorem decimalValue?_of_pointValue? (reads : pointValue? cs = some v) :
    decimalValue? cs = some v := by
  unfold decimalValue?
  split
  · next rest =>
      have span : spanDigits ('-' :: rest) = ([], '-' :: rest) :=
        @spanDigits_append [] _ (by simp [AllDigits]) (by rintro c ⟨⟩; decide)
      simp [pointValue?, span] at reads
  · exact reads

theorem decimalValue?_signed (negative : Bool) (reads : pointValue? cs = some v) :
    decimalValue? ((if negative then ['-'] else []) ++ cs) =
      some (if negative then -v else v) := by
  cases negative with
  | false => exact decimalValue?_of_pointValue? reads
  | true => simp [decimalValue?, reads]

end Texts

/-- A point stands before the last digits, as many as there are places. -/
theorem pointText_eq {places : Nat} (positive : 0 < places) (scaled : Nat) :
    pointText places scaled =
      digits (scaled / 10 ^ places) ++ '.' :: paddedDigits places (scaled % 10 ^ places) := by
  have width : (paddedDigits places (scaled % 10 ^ places)).length = places :=
    length_paddedDigits positive (Nat.mod_lt _ (by positivity))
  have front : (digits (scaled / 10 ^ places) ++ paddedDigits places (scaled % 10 ^ places)).length -
      places = (digits (scaled / 10 ^ places)).length := by
    rw [List.length_append, width, Nat.add_sub_cancel]
  unfold pointText
  simp only [if_neg positive.ne', paddedDigits_split positive, front]
  rw [List.take_left, List.drop_left]

/-- A point in a number moves it down by so many powers of ten. -/
theorem pointValue?_pointText (places scaled : Nat) :
    pointValue? (pointText places scaled) = some (scaled / 10 ^ places : Rat) := by
  rcases Nat.eq_zero_or_pos places with rfl | positive
  · have whole : pointText 0 scaled = digits scaled := by
      simp [pointText, paddedDigits_one]
    rw [whole, pointValue?_digits (allDigits_digits scaled) (digits_ne_nil scaled),
      wholeValue_digits, pow_zero, div_one]
  · have width : (paddedDigits places (scaled % 10 ^ places)).length = places :=
      length_paddedDigits positive (Nat.mod_lt _ (by positivity))
    have division : (scaled : Rat) =
        (scaled / 10 ^ places : Nat) * 10 ^ places + (scaled % 10 ^ places : Nat) := by
      exact_mod_cast (Nat.div_add_mod' scaled (10 ^ places)).symm
    rw [pointText_eq positive, pointValue?_point (allDigits_digits _) (digits_ne_nil _)
      (allDigits_paddedDigits _ _) (paddedDigits_ne_nil _ _), width, wholeValue_digits,
      wholeValue_paddedDigits, Option.some_inj, eq_div_iff (by positivity), add_mul,
      div_mul_cancel₀ _ (by positivity)]
    exact division.symm

/-! ## Rounding to even -/

namespace Ratio

variable {r : Ratio}

/-- What rounding to even does by the part behind the point. -/
theorem roundHalfEven_cases (positive : 0 < r.den) :
    ∃ whole : Nat, ∃ part : Rat, r.value = whole + part ∧
      (0 ≤ part ∧ part < 1 / 2 ∧ r.roundHalfEven = whole ∨
        1 / 2 < part ∧ part < 1 ∧ r.roundHalfEven = whole + 1 ∨
        part = 1 / 2 ∧ r.roundHalfEven = whole + whole % 2) := by
  have weight : (0 : Rat) < r.den := by exact_mod_cast positive
  have division : (r.num : Rat) = (r.num / r.den : Nat) * r.den + (r.num % r.den : Nat) := by
    exact_mod_cast (Nat.div_add_mod' r.num r.den).symm
  refine ⟨r.num / r.den, (r.num % r.den : Nat) / (r.den : Rat), ?_, ?_⟩
  · rw [Ratio.value, div_eq_iff weight.ne', add_mul, div_mul_cancel₀ _ weight.ne']
    exact division
  have remainder := Nat.mod_lt r.num positive
  unfold roundHalfEven
  simp only
  split
  · next low =>
      refine Or.inl ⟨by positivity, ?_, rfl⟩
      rw [div_lt_div_iff₀ weight two_pos, one_mul]
      exact_mod_cast (by omega : r.num % r.den * 2 < r.den)
  · next notLow =>
      split
      · next high =>
          refine Or.inr (Or.inl ⟨?_, ?_, rfl⟩)
          · rw [div_lt_div_iff₀ two_pos weight, one_mul]
            exact_mod_cast (by omega : r.den < r.num % r.den * 2)
          · rw [div_lt_one weight]
            exact_mod_cast remainder
      · next notHigh =>
          refine Or.inr (Or.inr ⟨?_, rfl⟩)
          rw [div_eq_div_iff weight.ne' two_ne_zero, one_mul]
          exact_mod_cast (by omega : r.num % r.den * 2 = r.den)

theorem roundHalfEven_near (positive : 0 < r.den) :
    |(r.roundHalfEven : Rat) - r.value| ≤ 1 / 2 := by
  obtain ⟨whole, part, value, ⟨nonneg, low, rounded⟩ | ⟨high, below, rounded⟩ | ⟨half, rounded⟩⟩ :=
    roundHalfEven_cases positive
  · rw [value, rounded, abs_le]
    constructor <;> linarith
  · rw [value, rounded, abs_le]
    push_cast
    constructor <;> linarith
  · rw [value, rounded, half, abs_le]
    rcases Nat.mod_two_eq_zero_or_one whole with even | odd
    · rw [even]
      push_cast
      constructor <;> linarith
    · rw [odd]
      push_cast
      constructor <;> linarith

/-- Rounding does not pass a whole number from below. -/
theorem roundHalfEven_le {limit : Nat} (positive : 0 < r.den) (below : r.value ≤ limit) :
    r.roundHalfEven ≤ limit := by
  have near := (abs_le.mp (roundHalfEven_near positive)).2
  have next : (r.roundHalfEven : Rat) < (limit + 1 : Nat) := by
    push_cast
    linarith
  exact Nat.lt_succ_iff.mp (by exact_mod_cast next)

theorem le_roundHalfEven {limit : Nat} (positive : 0 < r.den) (above : (limit : Rat) ≤ r.value) :
    limit ≤ r.roundHalfEven := by
  have near := (abs_le.mp (roundHalfEven_near positive)).1
  have next : (limit : Rat) < (r.roundHalfEven + 1 : Nat) := by
    push_cast
    linarith
  exact Nat.lt_succ_iff.mp (by exact_mod_cast next)

/-- A half is rounded to zero, and everything above it is not. -/
theorem roundHalfEven_pos_iff (positive : 0 < r.den) : 0 < r.roundHalfEven ↔ 1 / 2 < r.value := by
  obtain ⟨whole, part, value, ⟨nonneg, low, rounded⟩ | ⟨high, below, rounded⟩ | ⟨half, rounded⟩⟩ :=
    roundHalfEven_cases positive
  · rw [value, rounded]
    constructor
    · intro some
      have one : (1 : Rat) ≤ whole := by exact_mod_cast some
      linarith
    · intro above
      by_contra zero
      rw [Nat.eq_zero_of_not_pos zero, Nat.cast_zero] at above
      linarith
  · rw [value, rounded]
    have nonneg : (0 : Rat) ≤ whole := Nat.cast_nonneg whole
    exact ⟨fun _ => by linarith, fun _ => Nat.succ_pos whole⟩
  · rw [value, rounded, half, lt_add_iff_pos_left, Nat.cast_pos]
    omega

end Ratio

/-! ## Printed numbers -/

open Binary64 (ofFloat)

section Fixed

variable {x : Float} {places : Nat} {negative : Bool} {m : Nat} {e : Int}

/-- The units of the last place that a magnitude is cut to. -/
def unitsOf (places m : Nat) (e : Int) : Nat :=
  ((Ratio.ofBinary m e).timesPowerOfTen places).roundHalfEven

theorem unitsOf_value (places m : Nat) (e : Int) :
    0 < ((Ratio.ofBinary m e).timesPowerOfTen places).den ∧
      ((Ratio.ofBinary m e).timesPowerOfTen places).value = m * 2 ^ e * 10 ^ places := by
  refine ⟨Ratio.timesPowerOfTen_den_pos (Decimal.ofBinary_den_pos m e) _, ?_⟩
  rw [Ratio.value_timesPowerOfTen, Ratio.value_ofBinary, zpow_natCast]

theorem unitsOf_near (places m : Nat) (e : Int) :
    |(unitsOf places m e : Rat) - m * 2 ^ e * 10 ^ places| ≤ 1 / 2 := by
  obtain ⟨den, value⟩ := unitsOf_value places m e
  rw [← value]
  exact Ratio.roundHalfEven_near den

theorem le_unitsOf {low : Nat} (above : (low : Rat) ≤ m * 2 ^ e * 10 ^ places) :
    low ≤ unitsOf places m e := by
  obtain ⟨den, value⟩ := unitsOf_value places m e
  rw [← value] at above
  exact Ratio.le_roundHalfEven den above

theorem unitsOf_le {high : Nat} (below : (m : Rat) * 2 ^ e * 10 ^ places ≤ high) :
    unitsOf places m e ≤ high := by
  obtain ⟨den, value⟩ := unitsOf_value places m e
  rw [← value] at below
  exact Ratio.roundHalfEven_le den below

theorem textValue?_fixed (decoded : ofFloat x = .finite negative m e) :
    textValue? (fixed places x) = some (if negative then -(unitsOf places m e / 10 ^ places : Rat)
      else unitsOf places m e / 10 ^ places) := by
  rw [textValue?, fixed, String.toList_ofList, fixedChars, decoded]
  exact decimalValue?_signed negative (pointValue?_pointText places _)

theorem decimalValue?_infinityText (negative : Bool) :
    decimalValue? (infinityText negative) = none := by
  cases negative <;> rfl

theorem isFinite_of_isDecimal (isDecimal : IsDecimal (fixed places x)) : x.isFinite = true := by
  obtain ⟨v, reading⟩ := isDecimal
  rw [textValue?, fixed, String.toList_ofList, fixedChars] at reading
  cases decoded : ofFloat x with
  | finite negative m e => exact Binary64.isFinite_of_decoded decoded
  | nan =>
      rw [decoded] at reading
      cases reading
  | infinite negative =>
      rw [decoded] at reading
      simp only [decimalValue?_infinityText] at reading
      cases reading

theorem isDecimal_fixed_iff (places : Nat) : IsDecimal (fixed places x) ↔ x.isFinite = true := by
  refine ⟨isFinite_of_isDecimal, fun finite => ?_⟩
  obtain ⟨negative, m, e, decoded⟩ := Binary64.exists_finite finite
  exact ⟨_, textValue?_fixed decoded⟩

/-- Cut to some places, numbers above half of the last place are read as positive, and no others. -/
theorem isPositiveDecimal_fixed_iff : IsPositiveDecimal (fixed places x) ↔
    x.isFinite = true ∧ 1 / 2 < (ofFloat x).value * 10 ^ places := by
  rw [← isDecimal_fixed_iff places]
  refine ⟨fun positive => ⟨positive.isDecimal, ?_⟩, fun ⟨isDecimal, above⟩ => ?_⟩
  · obtain ⟨negative, m, e, decoded⟩ :=
      Binary64.exists_finite (isFinite_of_isDecimal positive.isDecimal)
    obtain ⟨v, reading, aboveZero⟩ := positive
    obtain ⟨den, value⟩ := unitsOf_value places m e
    rw [textValue?_fixed decoded, Option.some.injEq] at reading
    rw [decoded]
    cases negative with
    | true =>
        have notAbove : -(unitsOf places m e / 10 ^ places : Rat) ≤ 0 :=
          neg_nonpos.mpr (by positivity)
        rw [← reading] at aboveZero
        exact absurd aboveZero (not_lt.mpr notAbove)
    | false =>
        have some : 0 < unitsOf places m e := by
          rw [← reading] at aboveZero
          refine Nat.pos_of_ne_zero fun zero => ?_
          simp [zero] at aboveZero
        rw [unitsOf, Ratio.roundHalfEven_pos_iff den, value] at some
        exact some
  · obtain ⟨negative, m, e, decoded⟩ := Binary64.exists_finite (isFinite_of_isDecimal isDecimal)
    obtain ⟨den, value⟩ := unitsOf_value places m e
    rw [decoded] at above
    cases negative with
    | true =>
        have magnitude : (0 : Rat) ≤ m * 2 ^ e * 10 ^ places := by positivity
        have signed : -((m : Rat) * 2 ^ e) * 10 ^ places = -(m * 2 ^ e * 10 ^ places) := neg_mul _ _
        change 1 / 2 < -((m : Rat) * 2 ^ e) * 10 ^ places at above
        rw [signed] at above
        linarith
    | false =>
        have some : 0 < unitsOf places m e := by
          rw [unitsOf, Ratio.roundHalfEven_pos_iff den, value]
          exact above
        exact ⟨unitsOf places m e / 10 ^ places, textValue?_fixed decoded, by positivity⟩

/-- A number between two multiples of the last place is read as one between them. -/
theorem exists_textValue_fixed {low high : Nat} (places : Nat) (finite : x.isFinite = true)
    (above : (low : Rat) / 10 ^ places ≤ (ofFloat x).value)
    (below : (ofFloat x).value ≤ high / 10 ^ places) (positive : 0 < low) :
    ∃ v, textValue? (fixed places x) = some v ∧ (low : Rat) / 10 ^ places ≤ v ∧
      v ≤ high / 10 ^ places := by
  obtain ⟨negative, m, e, decoded⟩ := Binary64.exists_finite finite
  have unit : (0 : Rat) < 10 ^ places := by positivity
  rw [decoded] at above below
  cases negative with
  | true =>
      have lowPositive : (0 : Rat) < low / 10 ^ places := by positivity
      have notAbove : -((m : Rat) * 2 ^ e) ≤ 0 := neg_nonpos.mpr (by positivity)
      change (low : Rat) / 10 ^ places ≤ -((m : Rat) * 2 ^ e) at above
      linarith
  | false =>
      have atLeast := le_unitsOf ((div_le_iff₀ unit).mp above)
      have atMost := unitsOf_le ((le_div_iff₀ unit).mp below)
      refine ⟨_, textValue?_fixed decoded, ?_, ?_⟩
      · exact div_le_div_of_nonneg_right (by exact_mod_cast atLeast) unit.le
      · exact div_le_div_of_nonneg_right (by exact_mod_cast atMost) unit.le

end Fixed

theorem isDecimal_shortest {x : Float} (finite : x.isFinite = true) : IsDecimal (shortest x) := by
  obtain ⟨negative, m, e, decoded⟩ := Binary64.exists_finite finite
  have reads : ∃ v, pointValue? (joinPoint (Decimal.ofBinary .up m e).positional) = some v := by
    have some := (Decimal.ofBinary .up m e).positional_whole_ne_nil
    obtain ⟨left, right⟩ := (Decimal.ofBinary .up m e).allDigits_positional
    unfold joinPoint
    split
    · exact ⟨_, pointValue?_digits left some⟩
    · next someFraction =>
        exact ⟨_, pointValue?_point left some right (by simpa using someFraction)⟩
  obtain ⟨v, reading⟩ := reads
  refine ⟨if negative then -v else v, ?_⟩
  rw [textValue?, shortest, String.toList_ofList, shortestChars, decoded]
  exact decimalValue?_signed negative reading

theorem isDecimal_natText (n : Nat) : IsDecimal (Graph.natText n) := by
  refine ⟨n, ?_⟩
  rw [textValue?, Graph.natText, String.toList_ofList]
  refine decimalValue?_of_pointValue? ?_
  rw [pointValue?_digits (allDigits_digits n) (digits_ne_nil n), wholeValue_digits]

end Montage.Number
