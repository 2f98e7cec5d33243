import Montage.Number.Numeral
import Montage.Number.Shortest

/-!
Contract: number literals of JSON text.

A literal keeps its digits, so that skipping a value needs no arithmetic and a
reader can refuse `1.0` where a whole number is due.

Owns: the literal, its text, the literal of a binary64 number, and the two
readings of a literal as a whole number and as a binary64 number.
-/

namespace Montage.Json

open Montage.Number

/-- A literal: sign, whole digits, fraction digits and an exponent with its sign. -/
structure Numeral where
  negative : Bool
  whole : List Char
  fraction : List Char
  exponent : Option (Bool × List Char)
deriving DecidableEq, Repr

namespace Numeral

/-- Text of the exponent part; the sign is always written. -/
def exponentText : Option (Bool × List Char) → List Char
  | none => []
  | some (negative, ds) => 'e' :: (if negative then '-' else '+') :: ds

def text (n : Numeral) : List Char :=
  (if n.negative then ['-'] else []) ++
    joinPoint (n.whole, n.fraction) ++ exponentText n.exponent

/-! ## Reading literals -/

/-- Takes a fraction: nothing without a point, and one digit at least after it. -/
def takeFraction? : List Char → Option (List Char × List Char)
  | '.' :: rest =>
    let (ds, after) := spanDigits rest
    if ds.isEmpty then none else some (ds, after)
  | cs => some ([], cs)

def takeExponent? : List Char → Option (Option (Bool × List Char) × List Char)
  | [] => some (none, [])
  | c :: rest =>
    if c = 'e' ∨ c = 'E' then
      let (negative, body) := splitSign rest
      let (ds, after) := spanDigits body
      if ds.isEmpty then none else some (some (negative, ds), after)
    else some (none, c :: rest)

/-- Takes the whole digits: a leading zero stands alone. -/
def takeWhole? (cs : List Char) : Option (List Char × List Char) :=
  let (ds, after) := spanDigits cs
  match ds with
  | [] => none
  | '0' :: _ :: _ => none
  | _ => some (ds, after)

def take? (cs : List Char) : Option (Numeral × List Char) := do
  let (negative, unsigned) :=
    match cs with
    | '-' :: rest => (true, rest)
    | _ => (false, cs)
  let (whole, afterWhole) ← takeWhole? unsigned
  let (fraction, afterFraction) ← takeFraction? afterWhole
  let (exponent, rest) ← takeExponent? afterFraction
  pure (⟨negative, whole, fraction, exponent⟩, rest)

/-! ## Whole numbers -/

/-- The value of a literal that is written as a whole number. -/
def toInt? (n : Numeral) : Option Int :=
  if n.fraction.isEmpty ∧ n.exponent.isNone then
    some (if n.negative then -(wholeValue n.whole : Int) else wholeValue n.whole)
  else none

/-- A count up to `limit`; a minus sign is refused even before zero. -/
def toNat? (limit : Nat) (n : Numeral) : Option Nat :=
  if n.negative then none
  else n.toInt?.bind fun value => if value ≤ limit then some value.toNat else none

/-- A signed 64-bit number; `-0` is not one. -/
def toInt64? (n : Numeral) : Option Int :=
  n.toInt?.bind fun value =>
    if n.negative && value == 0 then none
    else if -9223372036854775808 ≤ value ∧ value ≤ 9223372036854775807 then some value
    else none

def ofNat (n : Nat) : Numeral := ⟨false, digits n, [], none⟩

/-! ## Binary64 numbers

The digits are gathered into a whole significand of 64 bits as long as they
fit, later digits only count as places, and the significand is then multiplied
or divided by one power of ten. Each of the two steps rounds once. -/

def significandLimit : Nat := 18446744073709551615

/-- Appends digits while the significand fits; the rest is returned. -/
def gather : Nat → List Char → Nat × List Char
  | significand, [] => (significand, [])
  | significand, c :: rest =>
    let next := significand * 10 + digitValue c
    if next ≤ significandLimit then gather next rest else (significand, c :: rest)

def powerOfTen (n : Nat) : Float := Float.ofScientific 1 false n

def largestPower : Nat := 308

/-- Applies a power of ten, in steps of the largest one; a result beyond all numbers is refused. -/
def applyPower : Nat → Float → Int → Option Float
  | 0, x, _ => some x
  | fuel + 1, x, power =>
    if power.natAbs ≤ largestPower then
      if 0 ≤ power then
        let scaled := x * powerOfTen power.natAbs
        if scaled.isInf then none else some scaled
      else some (x / powerOfTen power.natAbs)
    else if x == 0.0 then some x
    else if 0 ≤ power then none
    else applyPower fuel (x / powerOfTen largestPower) (power + largestPower)

def exponentLimit : Nat := 2147483647

/-- The significand scaled by the places and the written exponent. -/
def scaled? (significand : Nat) (places : Int) : Option (Bool × List Char) → Option Float
  | none => applyPower 4 (Float.ofNat significand) places
  | some (negative, ds) =>
    let power := wholeValue ds
    if exponentLimit < power then
      if significand ≠ 0 ∧ negative = false then none else some 0.0
    else
      applyPower 4 (Float.ofNat significand) (if negative then places - power else places + power)

/-- The number a literal stands for, or nothing when it is too large. -/
def toFloat? (n : Numeral) : Option Float :=
  let (whole, skipped) := gather 0 n.whole
  let (significand, dropped) := gather whole n.fraction
  let places : Int := skipped.length - (n.fraction.length - dropped.length : Nat)
  (scaled? significand places n.exponent).map fun x => if n.negative then -x else x

/-- Numbers whose first digit stands between these powers of ten are written without an exponent. -/
def isPositional (leading : Int) : Bool := -5 ≤ leading && leading < 16

/-- The literal of a non-negative decimal; a whole number gets the fraction `0`. -/
def ofDecimal (negative : Bool) (d : Decimal) : Numeral :=
  if isPositional d.leading then
    let (whole, fraction) := d.positional
    ⟨negative, whole, if fraction.isEmpty then ['0'] else fraction, none⟩
  else
    let ds := digits d.coefficient
    ⟨negative, ds.take 1, ds.drop 1, some (d.leading < 0, digits d.leading.natAbs)⟩

/-- The shortest literal that reads back as `x`; there is none unless `x` is finite. -/
def ofFloat? (x : Float) : Option Numeral :=
  match Binary64.ofFloat x with
  | .finite negative mantissa exponent =>
    some (ofDecimal negative (Decimal.ofBinary .even mantissa exponent))
  | _ => none

end Numeral

end Montage.Json
