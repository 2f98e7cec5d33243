import Montage.Number.Fixed

/-!
Contract: the fewest decimal digits that read back as the same number.

A number owns the interval of reals that round to it, its ends included when
the mantissa is even. For one digit, two digits and so on the two decimal
neighbours of the value are tried; the first length with a neighbour inside the
interval wins, and of two neighbours the nearer one.

Owns: the choice of digits and the plain and scientific layouts.
Does not own: when a text uses which layout; `shortest` never uses an exponent.
-/

namespace Montage.Number

structure Decimal where
  coefficient : Nat
  exponent : Int
deriving DecidableEq, Repr

/-- Where an exact tie between two equally short decimals goes. -/
inductive Tie where
  | up
  | even
deriving DecidableEq, Repr

namespace Decimal

/-- Moves trailing zeros of the coefficient into the exponent; `fuel` bounds their number. -/
def strip : Nat → Decimal → Decimal
  | 0, d => d
  | fuel + 1, d =>
    if d.coefficient ≠ 0 ∧ d.coefficient % 10 = 0 then
      strip fuel ⟨d.coefficient / 10, d.exponent + 1⟩
    else d

/-- The least `p` with value below `10 ^ p`; `scale` lifts every positive number above one. -/
def magnitude (r : Ratio) : Int :=
  let scale : Nat := 350
  ((digits (r.num * tenTo scale / r.den)).length : Int) - scale

/-- Half the width of the interval around a mantissa, in quarters of its last bit: below, above. -/
def halfGaps (mantissa : Nat) (exponent : Int) : Nat × Nat :=
  if mantissa = Binary64.hiddenBit ∧ Binary64.leastExponent < exponent then (1, 2) else (2, 2)

/-- A decimal on the grid of `10 ^ power`, and a number in quarters of its last bit. -/
structure Grid where
  mantissa : Nat
  exponent : Int
  power : Int

namespace Grid

/-- The grid point `k`, as a ratio in quarters of the last bit. -/
def point (g : Grid) (k : Nat) : Ratio :=
  let quarter := g.exponent - 2
  let scaled := (Ratio.mk k 1).timesPowerOfTen g.power
  if 0 ≤ quarter then ⟨scaled.num, scaled.den * twoTo quarter.toNat⟩
  else ⟨scaled.num * twoTo (-quarter).toNat, scaled.den⟩

/-- True when grid point `k` lies in the interval that rounds to the number. -/
def contains (g : Grid) (k : Nat) : Bool :=
  let p := g.point k
  let low := 4 * g.mantissa - (halfGaps g.mantissa g.exponent).1
  let high := 4 * g.mantissa + (halfGaps g.mantissa g.exponent).2
  if g.mantissa % 2 = 0 then
    low * p.den ≤ p.num && p.num ≤ high * p.den
  else
    low * p.den < p.num && p.num < high * p.den

/-- The largest grid point not above the number. -/
def below (g : Grid) : Nat :=
  let scaled := (Ratio.ofBinary g.mantissa g.exponent).timesPowerOfTen (-g.power)
  scaled.num / scaled.den

/-- Chooses between the neighbours `k` and `k + 1` when both read back. -/
def nearer (tie : Tie) (g : Grid) (k : Nat) : Nat :=
  let scaled := (Ratio.ofBinary g.mantissa g.exponent).timesPowerOfTen (-g.power)
  let twice := 2 * (scaled.num % scaled.den)
  if twice < scaled.den then k
  else if scaled.den < twice then k + 1
  else match tie with
    | .up => k + 1
    | .even => k + k % 2

/-- The neighbour of the number on this grid that reads back, if there is one. -/
def hit? (tie : Tie) (g : Grid) : Option Nat :=
  let k := g.below
  match g.contains k, g.contains (k + 1) with
  | true, true => some (g.nearer tie k)
  | true, false => some k
  | false, true => some (k + 1)
  | false, false => none

end Grid

/-- Tries `count` more digit lengths on finer and finer grids; seventeen digits always suffice. -/
def search (tie : Tie) (mantissa : Nat) (exponent : Int) : Nat → Int → Decimal
  | 0, power =>
    let g : Grid := ⟨mantissa, exponent, power⟩
    ⟨g.nearer tie g.below, power⟩
  | count + 1, power =>
    let g : Grid := ⟨mantissa, exponent, power⟩
    match g.hit? tie with
    | some k => ⟨k, power⟩
    | none => search tie mantissa exponent count (power - 1)

/-- The shortest decimal of `mantissa * 2 ^ exponent`. -/
def ofBinary (tie : Tie) (mantissa : Nat) (exponent : Int) : Decimal :=
  if mantissa = 0 then ⟨0, 0⟩
  else
    strip 17
      (search tie mantissa exponent 16 (magnitude (Ratio.ofBinary mantissa exponent) - 1))

/-- Position of the first digit: the value is `d.ddd * 10 ^ leading`. -/
def leading (d : Decimal) : Int :=
  (digits d.coefficient).length - 1 + d.exponent

/-- Layout without an exponent: whole part and fraction digits. -/
def positional (d : Decimal) : List Char × List Char :=
  let ds := digits d.coefficient
  if 0 ≤ d.exponent then (ds ++ List.replicate d.exponent.toNat '0', [])
  else
    let places := (-d.exponent).toNat
    let all := List.replicate (places + 1 - ds.length) '0' ++ ds
    (all.take (all.length - places), all.drop (all.length - places))

end Decimal

/-- Joins a whole part and a fraction, leaving the point out before an empty fraction. -/
def joinPoint (parts : List Char × List Char) : List Char :=
  if parts.2.isEmpty then parts.1 else parts.1 ++ '.' :: parts.2

/-- Shortest text of a number without an exponent; a whole number has no point. -/
def shortestChars (x : Float) : List Char :=
  match Binary64.ofFloat x with
  | .nan => nanText
  | .infinite negative => infinityText negative
  | .finite negative mantissa exponent =>
    (if negative then ['-'] else []) ++
      joinPoint (Decimal.ofBinary .up mantissa exponent).positional

def shortest (x : Float) : String :=
  String.ofList (shortestChars x)

end Montage.Number
