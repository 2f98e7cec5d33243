import Montage.Number.Fixed

/-!
Contract: byte counts in the fitting binary unit.

Below 1024 the count is shown as it is; above, with two places, in KiB, MiB or
GiB. The unit is chosen on the count, the number is rounded afterwards.
-/

namespace Montage.Text

open Montage.Number

/-- The units from the largest down, each with the number of bytes in it. -/
def byteUnits : List (Float × String) :=
  [(1073741824.0, "GiB"), (1048576.0, "MiB"), (1024.0, "KiB")]

/-- The first unit that does not exceed the count. -/
def fittingUnit? (bytes : Float) : Option (Float × String) :=
  byteUnits.find? fun unit => unit.1 ≤ bytes

def formatBytes (count : UInt64) : String :=
  let bytes := count.toFloat
  match fittingUnit? bytes with
  | some (unit, name) => fixed 2 (bytes / unit) ++ " " ++ name
  | none => String.ofList (digits count.toNat) ++ " B"

end Montage.Text
