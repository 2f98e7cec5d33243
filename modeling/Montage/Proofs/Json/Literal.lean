import Montage.Json.Numeral
import Montage.Proofs.Number.Layout

/-!
Contract: number literals are read back as they are written.

Reading takes digits as far as they go, so a literal is read back when the text
behind it cannot go on with it.

Owns: well-formed literals, what may stand behind one, the reading of each part,
and that whole numbers and binary64 numbers are written as such literals.
Does not own: whether the literal of a binary64 number stands for it.
-/

namespace Montage.Json

open Montage.Number

/-- A literal as the grammar has it: digits before the point without a leading zero, and digits
where there is an exponent. -/
structure Numeral.IsLiteral (n : Numeral) : Prop where
  whole : AllDigits n.whole
  nonempty : n.whole ≠ []
  noLeadingZero : n.whole.head? = some '0' → n.whole = ['0']
  fraction : AllDigits n.fraction
  exponent : ∀ part ∈ n.exponent, AllDigits part.2 ∧ part.2 ≠ []

/-- A text that a literal in front of it does not go on with. -/
def EndsLiteral (cs : List Char) : Prop :=
  ∀ c ∈ cs.head?, c.isDigit = false ∧ c ≠ '.' ∧ c ≠ 'e' ∧ c ≠ 'E'

theorem EndsLiteral.endsDigits {cs : List Char} (ends : EndsLiteral cs) : EndsDigits cs :=
  fun c isFirst => (ends c isFirst).1

theorem endsDigits_cons {c : Char} {rest : List Char} (other : c.isDigit = false) :
    EndsDigits (c :: rest) := by
  intro first isFirst
  cases isFirst
  exact other

namespace Numeral

section Parts

variable {rest : List Char}

theorem takeWhole?_append {whole : List Char} (all : AllDigits whole) (nonempty : whole ≠ [])
    (noLeadingZero : whole.head? = some '0' → whole = ['0']) (ends : EndsDigits rest) :
    takeWhole? (whole ++ rest) = some (whole, rest) := by
  unfold takeWhole?
  rw [spanDigits_append all ends]
  cases whole with
  | nil => exact absurd rfl nonempty
  | cons c others =>
      by_cases zero : c = '0'
      · subst zero
        cases noLeadingZero rfl
        rfl
      · simp only
        split
        · next h => simp at h
        · next h => exact absurd (List.cons.inj h).1 zero
        · rfl

/-- The text of a fraction, with its point. -/
def fractionText (fraction : List Char) : List Char :=
  if fraction.isEmpty then [] else '.' :: fraction

theorem joinPoint_eq (whole fraction : List Char) :
    joinPoint (whole, fraction) = whole ++ fractionText fraction := by
  unfold joinPoint fractionText
  split <;> simp

theorem takeFraction?_append {fraction : List Char} (all : AllDigits fraction)
    (ends : EndsDigits rest) (noPoint : rest.head? ≠ some '.') :
    takeFraction? (fractionText fraction ++ rest) = some (fraction, rest) := by
  cases fraction with
  | nil =>
      rw [fractionText, List.isEmpty_nil, if_pos rfl, List.nil_append]
      unfold takeFraction?
      split
      · exact absurd rfl noPoint
      · rfl
  | cons c others =>
      show takeFraction? ('.' :: (c :: others ++ rest)) = some (c :: others, rest)
      simp only [takeFraction?]
      rw [spanDigits_append all ends]
      rfl

theorem takeExponent?_append {exponent : Option (Bool × List Char)}
    (digits : ∀ part ∈ exponent, AllDigits part.2 ∧ part.2 ≠ []) (ends : EndsLiteral rest) :
    takeExponent? (exponentText exponent ++ rest) = some (exponent, rest) := by
  cases exponent with
  | none =>
      cases rest with
      | nil => rfl
      | cons c rest =>
          obtain ⟨_, _, small, capital⟩ := ends c rfl
          show takeExponent? (c :: rest) = some (none, c :: rest)
          simp only [takeExponent?, small, capital, or_self, ↓reduceIte]
  | some part =>
      obtain ⟨negative, ds⟩ := part
      obtain ⟨all, nonempty⟩ := digits (negative, ds) rfl
      have signed : splitSign ((if negative then '-' else '+') :: (ds ++ rest)) =
          (negative, ds ++ rest) := by
        cases negative <;> rfl
      show takeExponent? ('e' :: (if negative then '-' else '+') :: (ds ++ rest)) =
        some (some (negative, ds), rest)
      simp only [takeExponent?, true_or, ↓reduceIte]
      rw [signed]
      simp only
      rw [spanDigits_append all ends.endsDigits]
      simp [nonempty]

end Parts

theorem endsDigits_exponentText {exponent : Option (Bool × List Char)} {rest : List Char}
    (ends : EndsLiteral rest) : EndsDigits (exponentText exponent ++ rest) := by
  cases exponent with
  | none => exact ends.endsDigits
  | some part => exact endsDigits_cons rfl

theorem head_exponentText_ne_point {exponent : Option (Bool × List Char)} {rest : List Char}
    (ends : EndsLiteral rest) : (exponentText exponent ++ rest).head? ≠ some '.' := by
  cases exponent with
  | none =>
      intro point
      exact (ends '.' point).2.1 rfl
  | some part =>
      intro point
      cases point

theorem endsDigits_fractionText {fraction rest : List Char} (ends : EndsDigits rest) :
    EndsDigits (fractionText fraction ++ rest) := by
  unfold fractionText
  split
  · exact ends
  · exact endsDigits_cons rfl

/-- A literal is read back in front of any text that it does not go on with. -/
theorem take?_text {n : Numeral} (literal : n.IsLiteral) {rest : List Char}
    (ends : EndsLiteral rest) : take? (n.text ++ rest) = some (n, rest) := by
  obtain ⟨negative, whole, fraction, exponent⟩ := n
  have takesWhole : takeWhole? (whole ++ (fractionText fraction ++ (exponentText exponent ++ rest))) =
      some (whole, fractionText fraction ++ (exponentText exponent ++ rest)) :=
    takeWhole?_append literal.whole literal.nonempty literal.noLeadingZero
      (endsDigits_fractionText (endsDigits_exponentText ends))
  have takesFraction : takeFraction? (fractionText fraction ++ (exponentText exponent ++ rest)) =
      some (fraction, exponentText exponent ++ rest) :=
    takeFraction?_append literal.fraction (endsDigits_exponentText ends)
      (head_exponentText_ne_point ends)
  have takesExponent : takeExponent? (exponentText exponent ++ rest) = some (exponent, rest) :=
    takeExponent?_append literal.exponent ends
  rw [text, joinPoint_eq, List.append_assoc, List.append_assoc, List.append_assoc]
  cases negative with
  | true =>
      show take? ('-' :: (whole ++ (fractionText fraction ++ (exponentText exponent ++ rest)))) = _
      simp only [take?, takesWhole, takesFraction, takesExponent, bind, Option.bind, pure]
  | false =>
      cases whole with
      | nil => exact absurd rfl literal.nonempty
      | cons c others =>
          have noSign : c ≠ '-' := by
            rintro rfl
            cases literal.whole '-' List.mem_cons_self
          rw [List.cons_append] at takesWhole
          show take? (c :: (others ++ (fractionText fraction ++ (exponentText exponent ++ rest)))) = _
          unfold take?
          split
          next negative unsigned signed =>
            split at signed
            · next marked => exact absurd (List.cons.inj marked).1 noSign
            · cases signed
              simp only [takesWhole, takesFraction, takesExponent, bind, Option.bind, pure]

/-- A literal begins with a digit or a minus sign, so with no other character. -/
theorem IsLiteral.exists_head {n : Numeral} (literal : n.IsLiteral) :
    ∃ c cs, n.text = c :: cs ∧ ∀ d, d.isDigit = false → d ≠ '-' → c ≠ d := by
  obtain ⟨negative, whole, fraction, exponent⟩ := n
  rw [text, joinPoint_eq, List.append_assoc, List.append_assoc]
  cases negative with
  | true => exact ⟨'-', _, rfl, fun d _ noSign => noSign.symm⟩
  | false =>
      cases whole with
      | nil => exact absurd rfl literal.nonempty
      | cons c others =>
          refine ⟨c, _, rfl, ?_⟩
          rintro d noDigit _ rfl
          exact Bool.false_ne_true (noDigit.symm.trans (literal.whole c List.mem_cons_self))

/-! ## Whole numbers -/

theorem ofNat_isLiteral (n : Nat) : (ofNat n).IsLiteral where
  whole := allDigits_digits n
  nonempty := digits_ne_nil n
  noLeadingZero := by
    intro leading
    rw [eq_zero_of_head_digits leading]
    rfl
  fraction := by
    intro c member
    cases member
  exponent := by
    intro part member
    cases member

theorem toNat?_ofNat {limit n : Nat} (within : n ≤ limit) : (ofNat n).toNat? limit = some n := by
  have value : (ofNat n).toInt? = some (n : Int) := by
    simp [toInt?, ofNat, wholeValue_digits]
  have positive : ¬ (ofNat n).negative = true := Bool.false_ne_true
  have fits : (n : Int) ≤ limit := Int.ofNat_le.mpr within
  rw [toNat?, if_neg positive, value, Option.bind_some, if_pos fits, Int.toNat_natCast]

/-! ## Binary64 numbers -/

theorem ofDecimal_isLiteral {d : Decimal} (plain : d.Plain) (negative : Bool) :
    (ofDecimal negative d).IsLiteral := by
  unfold ofDecimal
  split
  · obtain ⟨whole, fraction⟩ := Decimal.allDigits_positional d
    refine ⟨whole, Decimal.positional_whole_ne_nil d, Decimal.positional_noLeadingZero plain, ?_, ?_⟩
    · show AllDigits (if d.positional.2.isEmpty then ['0'] else d.positional.2)
      split
      · exact allDigits_zeros 1
      · exact fraction
    · intro part member
      cases member
  · next scientific =>
      have all := allDigits_digits d.coefficient
      obtain ⟨c, others, begins⟩ := List.exists_cons_of_ne_nil (digits_ne_nil d.coefficient)
      refine ⟨fun c member => all c (List.mem_of_mem_take member), ?_, ?_,
        fun c member => all c (List.mem_of_mem_drop member), ?_⟩
      · show (digits d.coefficient).take 1 ≠ []
        rw [begins]
        exact List.cons_ne_nil c []
      · intro leading
        change ((digits d.coefficient).take 1).head? = some '0' at leading
        show (digits d.coefficient).take 1 = ['0']
        rw [begins] at leading ⊢
        cases leading
        rfl
      · intro part member
        cases member
        exact ⟨allDigits_digits _, digits_ne_nil _⟩

theorem ofFloat?_isLiteral {x : Float} {n : Numeral} (written : ofFloat? x = some n) :
    n.IsLiteral := by
  unfold ofFloat? at written
  split at written
  · next negative mantissa exponent decoded =>
      cases written
      have canonical := Binary64.canonical_of_ofBits decoded
      exact ofDecimal_isLiteral (Decimal.ofBinary_plain .even canonical.least) negative
  · cases written

end Numeral

end Montage.Json
