import Montage.Number.Numeral
import Montage.Proofs.Number.Digits
import Montage.Proofs.Number.Signs
import Montage.Proofs.Number.WholePart

/-!
Contract: numerals made of digits are read.

Digits, with or without a point and more digits behind it, always spell a number,
and one without a minus sign, however many digits there are. A minus in front
turns the sign. Up to 53 bits a whole number is read as itself.

Owns: the reading of digits and of a minus in front of them, and the sign and
value of what is read.
Does not own: numerals with an exponent, and words for numbers.
-/

namespace Montage.Number

open Montage.Number.Binary64
open Float.Model (UnpackedFloat Format)
open Float.Model.UnpackedFloat

/-! ## Which numerals are read -/

/-- A text of at least one digit. -/
structure IsDigits (cs : List Char) : Prop where
  all : AllDigits cs
  nonempty : cs ≠ []

instance (cs : List Char) : Decidable (IsDigits cs) :=
  decidable_of_iff (AllDigits cs ∧ cs ≠ [])
    ⟨fun both => ⟨both.1, both.2⟩, fun digits => ⟨digits.all, digits.nonempty⟩⟩

/-- A point and the digits behind it, or nothing. -/
def fractionText : Option (List Char) → List Char
  | none => []
  | some ds => '.' :: ds

section Reading

variable {whole rest : List Char} {fraction : Option (List Char)}

theorem IsDigits.exists_cons (digits : IsDigits whole) :
    ∃ c cs, whole = c :: cs ∧ c.isDigit = true := by
  obtain ⟨c, cs, rfl⟩ := List.exists_cons_of_ne_nil digits.nonempty
  exact ⟨c, cs, rfl, digits.all c List.mem_cons_self⟩

/-- Digits have no sign in front. -/
theorem splitSign_of_digits (digits : IsDigits whole) :
    splitSign (whole ++ rest) = (false, whole ++ rest) := by
  obtain ⟨c, cs, rfl, digit⟩ := digits.exists_cons
  unfold splitSign
  split
  · next minus =>
      obtain ⟨rfl, -⟩ := List.cons.inj minus
      cases digit
  · next plus =>
      obtain ⟨rfl, -⟩ := List.cons.inj plus
      cases digit
  · rfl

theorem toLower_of_isDigit {c : Char} (digit : c.isDigit = true) : c.toLower = c := by
  have small : c.toNat ≤ 57 := (Char.isDigit_iff_toNat.mp digit).2
  unfold Char.toLower
  refine dif_neg ?_
  rintro ⟨atLeastA, -⟩
  exact absurd (UInt32.le_iff_toNat_le.mp atLeastA) (by simpa using small.trans_lt (by decide))

theorem readWord?_of_digits (digits : IsDigits whole) : readWord? (whole ++ rest) = none := by
  obtain ⟨c, cs, rfl, digit⟩ := digits.exists_cons
  have first : (c :: cs ++ rest).map Char.toLower = c :: (cs ++ rest).map Char.toLower := by
    rw [List.cons_append, List.map_cons, toLower_of_isDigit digit]
  have notInfinity {letters : List Char} : c :: (cs ++ rest).map Char.toLower ≠ 'i' :: letters := by
    rintro same
    obtain ⟨rfl, -⟩ := List.cons.inj same
    cases digit
  have notUndefined {letters : List Char} :
      c :: (cs ++ rest).map Char.toLower ≠ 'n' :: letters := by
    rintro same
    obtain ⟨rfl, -⟩ := List.cons.inj same
    cases digit
  unfold readWord?
  simp only [first]
  exact (if_neg (not_or.mpr ⟨notInfinity, notInfinity⟩)).trans (if_neg notUndefined)

theorem endsDigits_fractionText (fraction : Option (List Char)) :
    EndsDigits (fractionText fraction) := by
  cases fraction with
  | none => exact fun c first => by cases first
  | some ds =>
      intro c first
      cases first
      rfl

/-- Digits with a fraction are read by their value and the places of the fraction. -/
theorem readUnsigned?_digits (digits : IsDigits whole) (places : ∀ ds ∈ fraction, AllDigits ds) :
    readUnsigned? (whole ++ fractionText fraction) =
      some (nearest (wholeValue (whole ++ fraction.getD []))
        (-((fraction.getD []).length : Int))) := by
  have front := spanDigits_append digits.all (endsDigits_fractionText fraction)
  have some : whole.isEmpty = false := List.isEmpty_eq_false_iff.mpr digits.nonempty
  unfold readUnsigned?
  simp only [front]
  cases fraction with
  | none => simp [fractionText, some, readExponent?]
  | some ds =>
      have behind : spanDigits ds = (ds, []) := by
        have ends : EndsDigits [] := fun c first => by cases first
        have taken := spanDigits_append (places ds rfl) ends
        rwa [List.append_nil] at taken
      simp [fractionText, behind, some, readExponent?]

theorem readFloat?_digits (digits : IsDigits whole) (places : ∀ ds ∈ fraction, AllDigits ds) :
    readFloat? (whole ++ fractionText fraction) =
      some (nearest (wholeValue (whole ++ fraction.getD []))
        (-((fraction.getD []).length : Int))) := by
  unfold readFloat?
  rw [splitSign_of_digits digits]
  simp only [readWord?_of_digits digits, readUnsigned?_digits digits places]
  rfl

/-- A minus in front of digits turns the sign. -/
theorem readFloat?_minus (digits : IsDigits whole) :
    readFloat? ('-' :: (whole ++ rest)) = (readFloat? (whole ++ rest)).map fun x => -x := by
  unfold readFloat?
  rw [splitSign_of_digits digits, splitSign]
  simp

end Reading

/-! ## No minus without a minus -/

section Plus

variable {mantissa : Nat} {exponent : Int} {accuracy : Accuracy}

theorem hasSign_round (low : exponent ≤ target mantissa exponent) :
    HasSign (.ofModel (.pack
      (roundWithAccuracy Format.binary64 .positive mantissa exponent accuracy))) false := by
  cases @sameMagnitude_round mantissa exponent accuracy low with
  | finite all => exact Or.inl ⟨_, _, all .positive⟩
  | infinite all => exact Or.inr (all .positive)

/-- Up to the 22nd, powers of ten have a full mantissa. -/
theorem exists_powerOfTen (index : Fin Float.exactlyRepresentablePowersOfTen.size) :
    ∃ m e, ofFloat Float.exactlyRepresentablePowersOfTen[index] = .finite false m e ∧
      2 ^ 52 ≤ m := by
  have all : ∀ index : Fin Float.exactlyRepresentablePowersOfTen.size,
      (1.0 : Float) ≤ Float.exactlyRepresentablePowersOfTen[index] ∧
        Float.exactlyRepresentablePowersOfTen[index].isFinite = true := by decide +kernel
  obtain ⟨atLeastOne, finite⟩ := all index
  generalize Float.exactlyRepresentablePowersOfTen[index] = power at atLeastOne finite ⊢
  have one : ofFloat 1.0 = .finite false (2 ^ 52) (-52) := by decide
  rw [le_iff_value_le (by decide) (isFinite_iff.mp finite), value_of_decoded one] at atLeastOne
  norm_num at atLeastOne
  obtain ⟨m, e, decoded, -⟩ := IsPositive.decoded ⟨finite, zero_lt_one.trans_le atLeastOne⟩
  rw [value_of_decoded decoded] at atLeastOne
  exact ⟨m, e, decoded, full_of_one_le (canonical_of_ofBits decoded) atLeastOne⟩

/-- A short number is converted and multiplied with a power of ten, or divided by it. -/
theorem hasSign_short {n power : Nat} (places : Bool) (short : n < 2 ^ 53 ∧ power ≤ 22) :
    HasSign (Float.ofScientific n places power) false := by
  obtain ⟨m₁, e₁, converted⟩ := (rounds_toFloat n.toUInt64).decoded
  obtain ⟨m₂, e₂, powerOfTen, full⟩ := exists_powerOfTen ⟨power, Nat.lt_succ_of_le short.2⟩
  unfold Float.ofScientific
  rw [dif_pos short]
  cases places with
  | false => exact (roundsTo_mul converted powerOfTen full).hasSign
  | true => exact (roundsTo_div converted powerOfTen (by omega)).hasSign

/-- A long number is rounded once, from its exact value. -/
theorem hasSign_ofScientific (n : Nat) (e : Int) :
    HasSign (.ofModel (.pack (UnpackedFloat.ofScientific Format.binary64 n e))) false := by
  have zero : HasSign (.ofModel (.pack (.zero .positive))) false :=
    (roundsTo_zero .positive).hasSign
  unfold UnpackedFloat.ofScientific
  split
  · exact zero
  next nonzero =>
  have positive := Nat.pos_of_ne_zero nonzero
  split
  · exact Or.inr (ofFloat_pack_infinity .positive)
  split
  · exact zero
  split
  · refine hasSign_round ?_
    change -53 + 0 ≤ target (n <<< 53 * 10 ^ e.toNat) (-53 + 0)
    rw [Nat.shiftLeft_eq, Nat.mul_right_comm, target_eq, log2_mul_two_pow (by positivity)]
    omega
  · simp only [UnpackedFloat.div, divCore_eq]
    exact hasSign_round (quotientExponent_le_target positive (by positivity))

theorem hasSign_nearest (coefficient : Nat) (exponent : Int) :
    HasSign (nearest coefficient exponent) false := by
  have zero : HasSign 0.0 false := Or.inl ⟨0, leastExponent, by decide⟩
  have scientific (n power : Nat) (places : Bool) :
      HasSign (Float.ofScientific n places power) false := by
    by_cases short : n < 2 ^ 53 ∧ power ≤ 22
    · exact hasSign_short places short
    · unfold Float.ofScientific
      rw [dif_neg short]
      exact hasSign_ofScientific n _
  have beyond : HasSign (1.0 / 0.0) false := Or.inr (by decide)
  unfold nearest
  dsimp only
  split
  · exact zero
  split
  · exact beyond
  split
  · exact zero
  split
  · exact scientific _ _ _
  · exact scientific _ _ _

end Plus

/-- Up to 53 bits, a whole number is read as itself. -/
theorem isWhole_nearest {n : Nat} (short : n < 2 ^ 53) : IsWhole (nearest n 0) n := by
  have length : (digits n).length ≤ 16 := (length_digits_le_iff (by decide)).mpr (by omega)
  have reaches : ¬ highestPower < ((digits n).length : Int) + 0 := by
    unfold highestPower
    omega
  have notTiny : ¬ ((digits n).length : Int) + 0 < lowestPower := by
    unfold lowestPower
    omega
  unfold nearest
  simp only [if_neg reaches, if_neg notTiny]
  split
  · next zero =>
      rw [zero]
      exact isWhole_zero
  · exact isWhole_ofNat short

end Montage.Number
