import Montage.Project.Instant
import Montage.Proofs.Number.Digits

/-!
Contract: written instants are read back.

Every part of a written instant has a fixed number of digits or ends at a mark,
so reading takes exactly what was written; the offset `Z` moves nothing.

Owns: the reading of each written part, and of whole instants.
Does not own: what other texts are read as.
-/

namespace Montage.Instant

open Montage.Number
open Montage.Text

section Parts

variable {rest : List Char}

theorem isBlank_of_isDigit {c : Char} (digit : c.isDigit = true) : isBlank c = false := by
  have digits : 48 ≤ c.toNat ∧ c.toNat ≤ 57 := Char.isDigit_iff_toNat.mp digit
  have apart : ∀ range ∈ blankRanges, range.2 < 48 ∨ 57 < range.1 := by decide
  rw [isBlank, List.any_eq_false]
  intro range member
  have aside := apart range member
  simp only [Bool.and_eq_true, decide_eq_true_eq]
  omega

theorem trimStart_of_digit {cs : List Char} (all : AllDigits cs) (nonempty : cs ≠ []) :
    trimStart (cs ++ rest) = cs ++ rest := by
  cases cs with
  | nil => exact absurd rfl nonempty
  | cons c cs =>
      have noBlank := isBlank_of_isDigit (all c List.mem_cons_self)
      rw [trimStart, List.cons_append, List.dropWhile_cons, noBlank]
      rfl

theorem takeNumber?_padded {width n : Nat} (positive : 0 < width) (fits : n < 10 ^ width) :
    takeNumber? width (paddedDigits width n ++ rest) = some (n, rest) := by
  have all := allDigits_paddedDigits width n
  have nonempty := paddedDigits_ne_nil width n
  have length := length_paddedDigits positive fits
  have ends : EndsDigits [] := by
    intro c first
    cases first
  have kept : (paddedDigits width n).takeWhile Char.isDigit = paddedDigits width n := by
    have taken := takeWhile_isDigit all ends
    rwa [List.append_nil] at taken
  have front : (paddedDigits width n ++ rest).take width = paddedDigits width n :=
    List.take_left' length
  have filled : (paddedDigits width n).isEmpty = false := List.isEmpty_eq_false_iff.mpr nonempty
  unfold takeNumber?
  simp only [trimStart_of_digit all nonempty, front, kept, filled, wholeValue_paddedDigits,
    List.drop_left]
  rfl

theorem trimStart_mark {mark : Char} (noBlank : isBlank mark = false) :
    trimStart (mark :: rest) = mark :: rest := by
  rw [trimStart, List.dropWhile_cons, noBlank]
  rfl

theorem takeMark?_mark {mark : Char} (noBlank : isBlank mark = false) :
    takeMark? mark (mark :: rest) = some rest := by
  rw [takeMark?, trimStart_mark noBlank]
  exact if_pos rfl

/-- A year is taken up to the mark behind it. -/
theorem takeYear?_yearChars (year : Int) (ends : EndsDigits rest) :
    takeYear? (yearChars year ++ rest) = some (year, rest) := by
  unfold yearChars
  split
  · next plain =>
      have all := allDigits_paddedDigits 4 year.toNat
      have nonempty := paddedDigits_ne_nil 4 year.toNat
      have taken : takeNumber? 4 (paddedDigits 4 year.toNat ++ rest) = some (year.toNat, rest) :=
        takeNumber?_padded (by decide) (by omega)
      have restored : (year.toNat : Int) = year := Int.toNat_of_nonneg plain.1
      unfold takeYear?
      rw [trimStart_of_digit all nonempty]
      obtain ⟨c, others, begins⟩ := List.exists_cons_of_ne_nil nonempty
      rw [begins] at all taken ⊢
      have digit := all c List.mem_cons_self
      rw [List.cons_append] at taken ⊢
      simp only
      split
      · next minus =>
          cases (List.cons.inj minus).1
          cases digit
      · next plus =>
          cases (List.cons.inj plus).1
          cases digit
      · rw [taken, Option.map_some, restored]
  · next signed =>
      have all := allDigits_paddedDigits 4 year.natAbs
      have taken := takeWhile_isDigit all ends
      have filled : (paddedDigits 4 year.natAbs).isEmpty = false :=
        List.isEmpty_eq_false_iff.mpr (paddedDigits_ne_nil 4 year.natAbs)
      unfold takeYear?
      by_cases negative : year < 0
      · have restored : -(year.natAbs : Int) = year := by omega
        rw [if_pos negative, List.cons_append, trimStart_mark (by decide)]
        simp only [taken, filled, wholeValue_paddedDigits, List.drop_left]
        exact congrArg (fun y => some (y, rest)) restored
      · have restored : (year.natAbs : Int) = year := by omega
        rw [if_neg negative, List.cons_append, trimStart_mark (by decide)]
        simp only [taken, filled, wholeValue_paddedDigits, List.drop_left]
        exact congrArg (fun y => some (y, rest)) restored

theorem takeFraction?_padded {width n : Nat} (positive : 0 < width) (short : width ≤ 9)
    (fits : n < 10 ^ width) (ends : EndsDigits rest) :
    takeFraction? ('.' :: (paddedDigits width n ++ rest)) = some (n * tenTo (9 - width), rest) := by
  have span := spanDigits_append (allDigits_paddedDigits width n) ends
  have length := length_paddedDigits positive fits
  have kept : (paddedDigits width n).take 9 = paddedDigits width n :=
    List.take_of_length_le (by omega)
  have filled : (paddedDigits width n).isEmpty = false :=
    List.isEmpty_eq_false_iff.mpr (paddedDigits_ne_nil width n)
  simp only [takeFraction?, span, filled, kept, wholeValue_paddedDigits, length]
  rfl

theorem takeFraction?_fractionChars {nano : Nat} (below : nano < 1000000000) :
    takeFraction? (fractionChars nano ++ ['Z']) = some (nano, ['Z']) := by
  have ends : EndsDigits ['Z'] := by
    intro c first
    cases first
    rfl
  unfold fractionChars
  split
  · next zero =>
      subst zero
      rfl
  split
  · next zero whole =>
      have taken := takeFraction?_padded (by decide : 0 < 3) (by decide)
        (by omega : nano / 1000000 < 10 ^ 3) ends
      have restored : nano / 1000000 * tenTo (9 - 3) = nano := by
        show nano / 1000000 * 1000000 = nano
        omega
      rw [List.cons_append, taken, restored]
  split
  · next zero fine whole =>
      have taken := takeFraction?_padded (by decide : 0 < 6) (by decide)
        (by omega : nano / 1000 < 10 ^ 6) ends
      have restored : nano / 1000 * tenTo (9 - 6) = nano := by
        show nano / 1000 * 1000 = nano
        omega
      rw [List.cons_append, taken, restored]
  · have taken := takeFraction?_padded (by decide : 0 < 9) (by decide)
      (by omega : nano < 10 ^ 9) ends
    have restored : nano * tenTo (9 - 9) = nano := Nat.mul_one nano
    rw [List.cons_append, taken, restored]

end Parts

/-- Going back by nothing stays within the day. -/
theorem back_zero {t : Instant} (hour : t.hour < 24) (minute : t.minute < 60) : t.back 0 = t := by
  have sameHour : (60 * t.hour + t.minute) / 60 = t.hour := by omega
  have sameMinute : (60 * t.hour + t.minute) % 60 = t.minute := by omega
  have early : ¬ (60 * (t.hour : Int) + t.minute - 0 < 0) := by omega
  have late : ¬ (1440 ≤ 60 * (t.hour : Int) + t.minute - 0) := by omega
  have ofDay : (60 * (t.hour : Int) + t.minute - 0).toNat = 60 * t.hour + t.minute := by omega
  unfold back
  simp only [early, late, ↓reduceIte, ofDay, withMinutes, sameHour, sameMinute]

/-- A valid instant is read back from its text. -/
theorem read?_text {t : Instant} (valid : t.isValid = true) : read? t.text.toList = some t := by
  obtain ⟨year, month, day, hour, minute, second, nano⟩ := t
  have within := valid
  simp only [isValid, Bool.and_eq_true, decide_eq_true_eq, and_assoc] at within
  obtain ⟨-, -, -, lastMonth, -, lastDay, lastHour, lastMinute, lastSecond, lastNano⟩ := within
  have days : daysInMonth year month ≤ 31 := by
    unfold daysInMonth
    split_ifs <;> omega
  have dash (rest : List Char) : EndsDigits ('-' :: rest) := by
    intro c first
    cases first
    rfl
  have pair {n : Nat} (below : n < 100) (rest : List Char) :
      takeNumber? 2 (paddedDigits 2 n ++ rest) = some (n, rest) :=
    takeNumber?_padded (by decide) below
  have mark {c : Char} (noBlank : isBlank c = false) (rest : List Char) :
      takeMark? c (c :: rest) = some rest := takeMark?_mark noBlank
  have between (rest : List Char) : takeBetween? ('T' :: rest) = some rest := rfl
  have offset : takeOffset? (trimStart ['Z']) = some (0, []) := by decide
  have same : Instant.back ⟨year, month, day, hour, minute, second, nano⟩ 0 =
      ⟨year, month, day, hour, minute, second, nano⟩ := back_zero lastHour lastMinute
  unfold read?
  simp only [text, String.toList_ofList, chars, takeYear?_yearChars year (dash _),
    mark (by decide : isBlank '-' = false), pair (by omega : month < 100),
    pair (by omega : day < 100), between, pair (by omega : hour < 100),
    mark (by decide : isBlank ':' = false), pair (by omega : minute < 100),
    pair (by omega : second < 100), takeFraction?_fractionChars lastNano, offset, same, valid,
    bind, Option.bind, pure]
  rfl

end Montage.Instant
