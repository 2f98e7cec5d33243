/-!
Contract: sums of words of 32 bits.

A sum need not fit into a word. A release build keeps its low 32 bits, and a
build that checks its sums stops.
-/

namespace Montage

/-- The largest word; sizes and track numbers are words. -/
def wordLimit : Nat := 4294967295

/-- A sum as a release build has it. -/
def wordOf (sum : Nat) : Nat := sum % (wordLimit + 1)

theorem wordOf_of_le {sum : Nat} (fits : sum ≤ wordLimit) : wordOf sum = sum :=
  Nat.mod_eq_of_lt (Nat.lt_succ_of_le fits)

theorem wordOf_le (sum : Nat) : wordOf sum ≤ wordLimit :=
  Nat.le_of_lt_succ (Nat.mod_lt sum (Nat.succ_pos wordLimit))

/-- How a program was built. -/
inductive Build where
  | release
  | checked
deriving DecidableEq, Repr

/-- A sum as a build has it, unless the build stops. -/
def Build.word? : Build → Nat → Option Nat
  | .release, sum => some (wordOf sum)
  | .checked, sum => if sum ≤ wordLimit then some sum else none

theorem Build.word?_checked_of_le {sum : Nat} (fits : sum ≤ wordLimit) :
    Build.checked.word? sum = some (wordOf sum) := by
  rw [wordOf_of_le fits]
  exact if_pos fits

theorem Build.word?_checked_of_not_le {sum : Nat} (outgrown : ¬ sum ≤ wordLimit) :
    Build.checked.word? sum = none := if_neg outgrown

end Montage
