import Montage.Number.Fixed

/-!
Contract: reading a decimal numeral as the nearest binary64 number.

A numeral is an optional sign and either one of the words `inf`, `infinity`
and `nan` in any case, or digits with an optional point and an optional
exponent. Blanks and separators are refused; only ASCII digits count.
-/

namespace Montage.Number

def digitValue (c : Char) : Nat := c.toNat - '0'.toNat

/-- The whole number that a run of digits spells. -/
def wholeValue (ds : List Char) : Nat :=
  ds.foldl (fun n c => 10 * n + digitValue c) 0

def spanDigits (cs : List Char) : List Char × List Char :=
  (cs.takeWhile Char.isDigit, cs.dropWhile Char.isDigit)

/-- Beyond these powers of ten every numeral is infinite, or zero. -/
def highestPower : Int := 310

def lowestPower : Int := -345

/-- The number nearest to `coefficient * 10 ^ exponent`. -/
def nearest (coefficient : Nat) (exponent : Int) : Float :=
  let magnitude := ((digits coefficient).length : Int) + exponent
  if coefficient = 0 then 0.0
  else if highestPower < magnitude then 1.0 / 0.0
  else if magnitude < lowestPower then 0.0
  else if 0 ≤ exponent then Float.ofScientific coefficient false exponent.toNat
  else Float.ofScientific coefficient true (-exponent).toNat

/-- Splits an optional sign off; `true` stands for a minus. -/
def splitSign : List Char → Bool × List Char
  | '-' :: rest => (true, rest)
  | '+' :: rest => (false, rest)
  | cs => (false, cs)

/-- Reads an exponent that must fill the rest of the text. -/
def readExponent? : List Char → Option Int
  | [] => some 0
  | c :: rest =>
    if c = 'e' ∨ c = 'E' then
      let (negative, ds) := splitSign rest
      if ds.isEmpty || !ds.all Char.isDigit then none
      else some (if negative then -(wholeValue ds : Int) else wholeValue ds)
    else none

/-- Reads digits, point, digits and exponent; one digit at least must stand before the exponent. -/
def readUnsigned? (cs : List Char) : Option Float :=
  let (whole, rest) := spanDigits cs
  let (fraction, tail) :=
    match rest with
    | '.' :: after => spanDigits after
    | _ => ([], rest)
  if whole.isEmpty && fraction.isEmpty then none
  else
    (readExponent? tail).map fun power =>
      nearest (wholeValue (whole ++ fraction)) (power - fraction.length)

/-- The words that stand for numbers without digits. -/
def readWord? (cs : List Char) : Option Float :=
  let word := cs.map Char.toLower
  if word = "inf".toList ∨ word = "infinity".toList then some (1.0 / 0.0)
  else if word = "nan".toList then some (0.0 / 0.0)
  else none

def readFloat? (cs : List Char) : Option Float :=
  let (negative, body) := splitSign cs
  (readWord? body <|> readUnsigned? body).map fun x => if negative then -x else x

end Montage.Number
