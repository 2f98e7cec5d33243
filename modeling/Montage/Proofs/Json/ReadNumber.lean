import Montage.Json.Record
import Montage.Proofs.Number.Finite

/-!
Contract: numbers that are read are numbers of the program.

A literal becomes a significand of 64 bits, which is finite as a binary64
number, and powers of ten are applied to it one after another. A product that
leaves the finite numbers is refused and a quotient does not leave them.

Owns: finiteness of read numbers and the range of read counts.
-/

namespace Montage.Json

open Montage.Number
open Montage.Number.Binary64 (isFinite_mul isFinite_div isFinite_neg isFinite_ofNat)

namespace Numeral

theorem gather_le {significand : Nat} (within : significand ≤ significandLimit) (cs : List Char) :
    (gather significand cs).1 ≤ significandLimit := by
  induction cs generalizing significand with
  | nil => exact within
  | cons c cs inductionHypothesis =>
      unfold gather
      simp only
      split
      · next fits => exact inductionHypothesis fits
      · exact within

/-- A full mantissa over no more places than the mantissa has. -/
def isAtLeastOne (x : Float) : Bool :=
  match Binary64.ofFloat x with
  | .finite false mantissa exponent => Binary64.hiddenBit ≤ mantissa && -52 ≤ exponent
  | _ => false

theorem ge_one_of_isAtLeastOne {x : Float} (checked : isAtLeastOne x = true) :
    ∃ m e, Binary64.ofFloat x = .finite false m e ∧ (1 : Rat) ≤ m * 2 ^ e := by
  unfold isAtLeastOne at checked
  split at checked
  · next mantissa exponent decoded =>
      simp only [Bool.and_eq_true, decide_eq_true_eq] at checked
      exact ⟨mantissa, exponent, decoded, Binary64.one_le_of_full checked.1 checked.2⟩
  · cases checked

theorem tenTo_room {power : Nat} (small : power ≤ largestPower) :
    1 * 10 ^ power ≤ (2 ^ 53 - 1) * 2 ^ 971 := by
  have largest : 10 ^ largestPower ≤ (2 ^ 53 - 1) * 2 ^ 971 := by decide +kernel
  rw [Nat.one_mul]
  exact le_trans (Nat.pow_le_pow_right (by decide) small) largest

theorem powerOfTen_ge_one {power : Nat} (small : power ≤ largestPower) :
    ∃ m e, Binary64.ofFloat (powerOfTen power) = .finite false m e ∧ (1 : Rat) ≤ m * 2 ^ e := by
  by_cases short : power ≤ 22
  · have exact : ∀ power ≤ 22, isAtLeastOne (powerOfTen power) = true := by decide +kernel
    exact ge_one_of_isAtLeastOne (exact power short)
  · obtain ⟨m, e, decoded, atLeastOne, -⟩ :=
      Binary64.ofScientific_near one_ne_zero (fun quick => short quick.2)
        (le_trans small (by decide)) (tenTo_room small)
    exact ⟨m, e, decoded, atLeastOne⟩

theorem applyPower_isFinite {fuel : Nat} {x y : Float} {power : Int} (finite : x.isFinite = true)
    (applied : applyPower fuel x power = some y) : y.isFinite = true := by
  induction fuel generalizing x power with
  | zero =>
      cases applied
      exact finite
  | succ fuel inductionHypothesis =>
      unfold applyPower at applied
      split at applied
      · next small =>
          obtain ⟨m, e, decoded, atLeastOne⟩ := powerOfTen_ge_one small
          split at applied
          · simp only [Option.ite_none_left_eq_some, Bool.not_eq_true, Option.some.injEq] at applied
            obtain ⟨bounded, rfl⟩ := applied
            exact isFinite_mul finite (Binary64.isFinite_of_decoded decoded) bounded
          · cases applied
            exact isFinite_div finite decoded atLeastOne
      · split at applied
        · cases applied
          exact finite
        · split at applied
          · cases applied
          · obtain ⟨m, e, decoded, atLeastOne⟩ := powerOfTen_ge_one (Nat.le_refl largestPower)
            exact inductionHypothesis (isFinite_div finite decoded atLeastOne) applied

theorem scaled?_isFinite {significand : Nat} (within : significand ≤ significandLimit)
    {places : Int} {exponent : Option (Bool × List Char)} {x : Float}
    (scaled : scaled? significand places exponent = some x) : x.isFinite = true := by
  have whole : (Float.ofNat significand).isFinite = true :=
    isFinite_ofNat (Nat.lt_succ_of_le within)
  cases exponent with
  | none => exact applyPower_isFinite whole scaled
  | some written =>
      simp only [scaled?] at scaled
      split at scaled
      · split at scaled
        · cases scaled
        · cases scaled
          decide
      · exact applyPower_isFinite whole scaled

theorem toFloat?_isFinite {n : Numeral} {x : Float} (read : n.toFloat? = some x) :
    x.isFinite = true := by
  unfold toFloat? at read
  simp only [Option.map_eq_some_iff] at read
  obtain ⟨magnitude, scaled, rfl⟩ := read
  have within := gather_le (gather_le (Nat.zero_le _) n.whole) n.fraction
  have finite := scaled?_isFinite within scaled
  split
  · exact isFinite_neg finite
  · exact finite

theorem toNat?_le {n : Numeral} {limit value : Nat} (read : n.toNat? limit = some value) :
    value ≤ limit := by
  unfold toNat? at read
  split at read
  · cases read
  · simp only [Option.bind_eq_some_iff, Option.ite_none_right_eq_some, Option.some.injEq] at read
    obtain ⟨whole, -, within, rfl⟩ := read
    omega

end Numeral

/-! ## Readers -/

/-- All values that a reader accepts are read as something with a property. -/
def ReadsOnly {α β : Type} (read : β → Option α) (P : α → Prop) : Prop :=
  ∀ v x, read v = some x → P x

theorem float?_readsOnly : ReadsOnly float? fun x => x.isFinite = true := by
  intro v x read
  cases v with
  | number n => exact Numeral.toFloat?_isFinite read
  | _ => cases read

theorem nat?_readsOnly (limit : Nat) : ReadsOnly (nat? limit) (· ≤ limit) := by
  intro v n read
  cases v with
  | number numeral => exact Numeral.toNat?_le read
  | _ => cases read

namespace ReadsOnly

variable {α β : Type} {P : α → Prop}

theorem nullable {read : Json → Option α} (only : ReadsOnly read P) :
    ReadsOnly (Json.nullable read) fun value => ∀ x ∈ value, P x := by
  intro v value found
  unfold Json.nullable at found
  split at found
  · cases found
    simp
  · obtain ⟨x, valued, rfl⟩ := Option.map_eq_some_iff.mp found
    intro y isValue
    cases isValue
    exact only v x valued

theorem mapM {read : β → Option α} (only : ReadsOnly read P) :
    ReadsOnly (List.mapM read) fun values => ∀ x ∈ values, P x := by
  intro items values found
  induction items generalizing values with
  | nil =>
      cases found
      simp
  | cons item items inductionHypothesis =>
      simp only [List.mapM_cons, Option.bind_eq_bind, Option.bind_eq_some_iff] at found
      obtain ⟨first, head, others, tail, same⟩ := found
      cases same
      exact List.forall_mem_cons.mpr ⟨only item first head, inductionHypothesis others tail⟩

theorem list? {item : Json → Option α} (only : ReadsOnly item P) :
    ReadsOnly (Json.list? item) fun values => ∀ x ∈ values, P x := by
  intro v values found
  cases v with
  | array items => exact only.mapM items values found
  | _ => cases found

variable {read : Json → Option α} {slot : Slot} {value default : α}

theorem required (only : ReadsOnly read P) (found : slot.required read = some value) :
    P value := by
  cases slot with
  | given v => exact only v value found
  | _ => cases found

theorem withDefault (only : ReadsOnly read P)
    (found : slot.withDefault default read = some value) (byDefault : P default) : P value := by
  cases slot with
  | given v => exact only v value found
  | _ =>
      cases found
      exact byDefault

end ReadsOnly

end Montage.Json
