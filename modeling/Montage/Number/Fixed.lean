import Montage.Number.Binary64

/-!
Contract: decimal text with a fixed number of places.

The exact binary value is rounded once, a half going to the even digit, and the
sign is kept even when every digit is zero.
-/

namespace Montage.Number

/-- Text of a number that is not finite. -/
def infinityText (negative : Bool) : List Char :=
  if negative then "-inf".toList else "inf".toList

def nanText : List Char := "NaN".toList

def digits (n : Nat) : List Char := Nat.toDigits 10 n

/-- Digits filled with zeros on the left up to `width`. -/
def paddedDigits (width : Nat) (n : Nat) : List Char :=
  List.replicate (width - (digits n).length) '0' ++ digits n

/-- Writes `scaled / 10 ^ places`. -/
def pointText (places scaled : Nat) : List Char :=
  let all := paddedDigits (places + 1) scaled
  let whole := all.take (all.length - places)
  if places = 0 then whole else whole ++ '.' :: all.drop (all.length - places)

/-- Text of `x` with exactly `places` digits after the point. -/
def fixedChars (places : Nat) (x : Float) : List Char :=
  match Binary64.ofFloat x with
  | .nan => nanText
  | .infinite negative => infinityText negative
  | .finite negative mantissa exponent =>
    let scaled := ((Ratio.ofBinary mantissa exponent).timesPowerOfTen places).roundHalfEven
    (if negative then ['-'] else []) ++ pointText places scaled

def fixed (places : Nat) (x : Float) : String :=
  String.ofList (fixedChars places x)

end Montage.Number
