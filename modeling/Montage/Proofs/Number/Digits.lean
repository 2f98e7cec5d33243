import Mathlib.Algebra.Group.Nat.Defs
import Mathlib.Order.Lattice
import Montage.Number.Numeral

/-!
Contract: digits of whole numbers are read back.

Owns: runs of digits and where they end, the value of the digits of a number,
padded or not, and that only zero is written with a leading zero.
-/

namespace Montage.Number

/-- A text of digits only. -/
def AllDigits (cs : List Char) : Prop := ∀ c ∈ cs, c.isDigit = true

instance (cs : List Char) : Decidable (AllDigits cs) := List.decidableBAll _ cs

/-- A text that does not go on with a digit. -/
def EndsDigits (cs : List Char) : Prop := ∀ c ∈ cs.head?, c.isDigit = false

theorem AllDigits.append {first second : List Char} (left : AllDigits first)
    (right : AllDigits second) : AllDigits (first ++ second) := by
  intro c member
  rcases List.mem_append.mp member with inFirst | inSecond
  · exact left c inFirst
  · exact right c inSecond

theorem allDigits_zeros (count : Nat) : AllDigits (List.replicate count '0') := by
  intro c member
  rw [(List.mem_replicate.mp member).2]
  rfl

theorem allDigits_digits (n : Nat) : AllDigits (digits n) := by
  intro c member
  exact Nat.isDigit_of_mem_toDigits (by decide) (by decide) member

theorem digits_ne_nil (n : Nat) : digits n ≠ [] := Nat.toDigits_ne_nil

theorem length_digits_pos (n : Nat) : 0 < (digits n).length := Nat.length_toDigits_pos

theorem length_digits_le_iff {n width : Nat} (positive : 0 < width) :
    (digits n).length ≤ width ↔ n < 10 ^ width :=
  Nat.length_toDigits_le_iff (by decide) positive

/-- Only the digits of zero begin with a zero. -/
theorem eq_zero_of_head_digits {n : Nat} (leading : (digits n).head? = some '0') : n = 0 := by
  induction n using Nat.strong_induction_on with
  | _ n inductionHypothesis =>
      by_cases short : n < 10
      · unfold digits at leading
        rw [Nat.toDigits_of_lt_base short] at leading
        have isZero : ∀ m < 10, Nat.digitChar m = '0' → m = 0 := by decide
        exact isZero n short (Option.some.inj leading)
      · have front : (digits (n / 10)).head? = some '0' := by
          unfold digits at leading ⊢
          rw [Nat.toDigits_of_base_le (by decide) (Nat.le_of_not_lt short), List.head?_append] at leading
          cases begins : (Nat.toDigits 10 (n / 10)).head? with
          | none => exact absurd (List.head?_eq_none_iff.mp begins) Nat.toDigits_ne_nil
          | some c =>
              rw [begins] at leading
              exact leading
        have quotient := inductionHypothesis (n / 10) (by omega) front
        omega

/-! ## Values -/

theorem wholeValue_eq (cs : List Char) : wholeValue cs = Nat.ofDigitChars 10 cs 0 := by
  rw [Nat.ofDigitChars_eq_foldl]
  rfl

theorem wholeValue_digits (n : Nat) : wholeValue (digits n) = n := by
  rw [wholeValue_eq]
  exact Nat.ofDigitChars_ten_toDigits

theorem wholeValue_paddedDigits (width n : Nat) : wholeValue (paddedDigits width n) = n := by
  rw [wholeValue_eq, paddedDigits, Nat.ofDigitChars_append, Nat.ofDigitChars_replicate_zero,
    Nat.mul_zero]
  exact Nat.ofDigitChars_ten_toDigits

theorem digitValue_lt {c : Char} (digit : c.isDigit = true) : digitValue c < 10 := by
  have last : c.toNat ≤ '9'.toNat := by
    simp only [Char.isDigit, Bool.and_eq_true, decide_eq_true_eq] at digit
    exact digit.2
  have code : '9'.toNat = '0'.toNat + 9 := rfl
  unfold digitValue
  omega

/-- So many digits spell a number below that power of ten. -/
theorem wholeValue_lt {cs : List Char} (all : AllDigits cs) : wholeValue cs < 10 ^ cs.length := by
  have grown (start : Nat) :
      cs.foldl (fun n c => 10 * n + digitValue c) start < (start + 1) * 10 ^ cs.length := by
    induction cs generalizing start with
    | nil => exact Nat.lt_of_lt_of_eq (Nat.lt_succ_self start) (Nat.mul_one _).symm
    | cons c cs inductionHypothesis =>
        have first := digitValue_lt (all c List.mem_cons_self)
        have others := inductionHypothesis (fun d member => all d (List.mem_cons_of_mem c member))
          (10 * start + digitValue c)
        rw [List.foldl_cons]
        calc _ < (10 * start + digitValue c + 1) * 10 ^ cs.length := others
          _ ≤ (start + 1) * 10 * 10 ^ cs.length := Nat.mul_le_mul_right _ (by omega)
          _ = (start + 1) * 10 ^ (c :: cs).length := by
              rw [List.length_cons, Nat.pow_succ', Nat.mul_assoc]
  have bound := grown 0
  rwa [Nat.zero_add, Nat.one_mul] at bound

theorem allDigits_paddedDigits (width n : Nat) : AllDigits (paddedDigits width n) :=
  (allDigits_zeros _).append (allDigits_digits n)

theorem length_paddedDigits {width n : Nat} (positive : 0 < width) (fits : n < 10 ^ width) :
    (paddedDigits width n).length = width := by
  have short := (length_digits_le_iff positive).mpr fits
  rw [paddedDigits, List.length_append, List.length_replicate]
  omega

theorem paddedDigits_ne_nil (width n : Nat) : paddedDigits width n ≠ [] := by
  intro empty
  rw [paddedDigits, List.append_eq_nil_iff] at empty
  exact digits_ne_nil n empty.2

theorem paddedDigits_one (n : Nat) : paddedDigits 1 n = digits n := by
  rw [paddedDigits, Nat.sub_eq_zero_of_le (length_digits_pos n), List.replicate_zero,
    List.nil_append]

/-- The last digit comes off the end. -/
theorem paddedDigits_succ {width : Nat} (positive : 0 < width) (n : Nat) :
    paddedDigits (width + 1) n = paddedDigits width (n / 10) ++ [Nat.digitChar (n % 10)] := by
  unfold paddedDigits digits
  by_cases short : n < 10
  · obtain ⟨zeros, rfl⟩ := Nat.exists_eq_succ_of_ne_zero (Nat.ne_of_gt positive)
    rw [Nat.toDigits_of_lt_base short, Nat.div_eq_of_lt short, Nat.mod_eq_of_lt short]
    simp [List.replicate_succ']
  · rw [Nat.toDigits_of_base_le (by decide) (Nat.le_of_not_lt short), List.length_append,
      List.length_singleton, Nat.add_sub_add_right, List.append_assoc]

/-- Digits are cut where the number is divided. -/
theorem paddedDigits_split {places : Nat} (positive : 0 < places) (n : Nat) :
    paddedDigits (places + 1) n =
      digits (n / 10 ^ places) ++ paddedDigits places (n % 10 ^ places) := by
  induction places, positive using Nat.le_induction generalizing n with
  | base =>
      have last : paddedDigits 1 (n % 10) = [Nat.digitChar (n % 10)] := by
        rw [paddedDigits_one, digits, Nat.toDigits_of_lt_base (Nat.mod_lt n (by decide))]
      rw [paddedDigits_succ Nat.one_pos, paddedDigits_one, Nat.pow_one, last]
  | succ places positive inductionHypothesis =>
      have quotient : n / 10 ^ (places + 1) = n / 10 / 10 ^ places := by
        rw [Nat.pow_succ', Nat.div_div_eq_div_mul]
      have middle : n % 10 ^ (places + 1) / 10 = n / 10 % 10 ^ places := by
        rw [Nat.pow_succ', Nat.mod_mul_right_div_self]
      have last : n % 10 ^ (places + 1) % 10 = n % 10 :=
        Nat.mod_mod_of_dvd n (Nat.pow_succ' ▸ Nat.dvd_mul_right 10 _)
      rw [paddedDigits_succ (Nat.succ_pos places), inductionHypothesis, paddedDigits_succ positive,
        quotient, middle, last, List.append_assoc]

/-! ## Taking digits off a text -/

theorem takeWhile_isDigit {cs rest : List Char} (all : AllDigits cs) (ends : EndsDigits rest) :
    (cs ++ rest).takeWhile Char.isDigit = cs := by
  rw [List.takeWhile_append_of_pos all]
  cases rest with
  | nil => simp
  | cons c rest => simp [ends c rfl]

/-- Digits are taken as far as they go. -/
theorem spanDigits_append {cs rest : List Char} (all : AllDigits cs) (ends : EndsDigits rest) :
    spanDigits (cs ++ rest) = (cs, rest) := by
  have taken := takeWhile_isDigit all ends
  have whole := List.takeWhile_append_dropWhile (p := Char.isDigit) (l := cs ++ rest)
  rw [taken, List.append_cancel_left_eq] at whole
  rw [spanDigits, taken, whole]

end Montage.Number
