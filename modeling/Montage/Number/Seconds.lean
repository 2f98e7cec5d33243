import Montage.Number.Binary64

/-!
Contract: the arithmetic that timelines are measured in.

Placement, gaps, speeds and durations are written once over `Seconds`. The
program runs them on binary64 numbers; the laws of timeline geometry are stated
on exact rationals, where sums and quotients lose nothing.

Owns: the operations geometry needs, and the two kinds of number.
Does not own: how a number is written.
-/

namespace Montage.Number

/-- A number that can measure time. -/
class Seconds (α : Type) extends
    Add α, Sub α, Mul α, Div α, Neg α, LT α, LE α, BEq α, OfScientific α where
  decidableLT : DecidableLT α
  decidableLE : DecidableLE α
  /-- Neither infinite nor undefined. -/
  isFinite : α → Bool
  /-- Position in the total order used for sorting, as a comparison. -/
  notAfter : α → α → Bool
  /-- Nearest whole number, a half going away from zero. -/
  round : α → α
  /-- Whole part, zero for negative and undefined numbers. -/
  wholePart : α → Nat
  /-- Enough doublings or halvings to bring any positive number between a half and two. -/
  octaves : α → Nat

instance ltDecidable {α : Type} [Seconds α] : DecidableLT α := Seconds.decidableLT

instance leDecidable {α : Type} [Seconds α] : DecidableLE α := Seconds.decidableLE

/-- Place of a binary64 number in the order that puts `-0` before `0` and `NaN` last. -/
def totalRank (x : Float) : Int :=
  let bits := x.toBits.toNat
  if bits < Binary64.signBit then (bits : Int) else (Binary64.signBit : Int) - 1 - bits

instance : Seconds Float where
  decidableLT := fun _ _ => inferInstance
  decidableLE := fun _ _ => inferInstance
  isFinite := Float.isFinite
  notAfter x y := totalRank x ≤ totalRank y
  round := roundHalfAway
  wholePart x := x.toUInt64.toNat
  octaves _ := 1100

/-- Nearest whole number to a rational, a half going away from zero. -/
def roundRat (x : Rat) : Rat :=
  if x < 0 then -(((-x) + 1 / 2).floor : Int) else ((x + 1 / 2).floor : Int)

instance : Seconds Rat where
  decidableLT := fun _ _ => inferInstance
  decidableLE := fun _ _ => inferInstance
  isFinite _ := true
  notAfter x y := x ≤ y
  round := roundRat
  wholePart x := x.floor.toNat
  octaves x := x.num.natAbs.log2 + x.den.log2 + 2

def magnitude {α : Type} [Seconds α] (x : α) : α :=
  if x < 0.0 then -x else x

/-- The larger of two numbers; an undefined second number is ignored. -/
def larger {α : Type} [Seconds α] (x y : α) : α :=
  if x < y then y else x

end Montage.Number
