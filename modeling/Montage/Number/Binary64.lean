/-!
Contract: the exact value of a 64-bit floating-point number.

A finite number is a sign, a whole mantissa and a power of two; everything the
library prints or rounds starts from these three, so no printed digit depends
on floating-point arithmetic.

Owns: the decoding of the bit pattern and the exact rational value.
Does not own: decimal text, which is in `Number.Shortest` and `Number.Fixed`.
-/

namespace Montage.Number

def twoTo (n : Nat) : Nat := Nat.pow 2 n

def tenTo (n : Nat) : Nat := Nat.pow 10 n

/-- What the bits of a number stand for. -/
inductive Binary64 where
  | nan
  | infinite (negative : Bool)
  | finite (negative : Bool) (mantissa : Nat) (exponent : Int)
deriving DecidableEq, Repr

namespace Binary64

/-- Mantissas of normal numbers have this weight on top. -/
def hiddenBit : Nat := 4503599627370496

def signBit : Nat := 9223372036854775808

/-- Power of two of the last mantissa bit of a subnormal number. -/
def leastExponent : Int := -1074

/-- Decodes sign, biased exponent and fraction. -/
def ofBits (bits : Nat) : Binary64 :=
  let negative := bits / signBit % 2 == 1
  let biased := bits / hiddenBit % 2048
  let fraction := bits % hiddenBit
  if biased = 2047 then
    if fraction = 0 then .infinite negative else .nan
  else if biased = 0 then
    .finite negative fraction leastExponent
  else
    .finite negative (hiddenBit + fraction) ((biased : Int) - 1075)

def ofFloat (x : Float) : Binary64 :=
  ofBits x.toBits.toNat

end Binary64

/-- A non-negative quotient of whole numbers. -/
structure Ratio where
  num : Nat
  den : Nat
deriving DecidableEq, Repr

namespace Ratio

/-- The exact value of `mantissa * 2 ^ exponent`. -/
def ofBinary (mantissa : Nat) (exponent : Int) : Ratio :=
  if 0 ≤ exponent then ⟨mantissa * twoTo exponent.toNat, 1⟩
  else ⟨mantissa, twoTo (-exponent).toNat⟩

def timesPowerOfTen (r : Ratio) (power : Int) : Ratio :=
  if 0 ≤ power then ⟨r.num * tenTo power.toNat, r.den⟩
  else ⟨r.num, r.den * tenTo (-power).toNat⟩

/-- Nearest whole number, a half going away from zero. -/
def roundHalfUp (r : Ratio) : Nat :=
  (2 * r.num + r.den) / (2 * r.den)

/-- Nearest whole number, a half going to the even neighbour. -/
def roundHalfEven (r : Ratio) : Nat :=
  let whole := r.num / r.den
  let twice := 2 * (r.num % r.den)
  if twice < r.den then whole
  else if r.den < twice then whole + 1
  else whole + whole % 2

end Ratio

/-- Rounds to a whole number, a half going away from zero; the sign stays, also on zero. -/
def roundHalfAway (x : Float) : Float :=
  match Binary64.ofFloat x with
  | .finite negative mantissa exponent =>
    if 0 ≤ exponent then x
    else
      let whole := Float.ofNat (Ratio.ofBinary mantissa exponent).roundHalfUp
      if negative then -whole else whole
  | _ => x

end Montage.Number
