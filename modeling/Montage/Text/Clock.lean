import Montage.Number.Numeral
import Montage.Text.Blank

/-!
Contract: clock texts `HH:MM:SS` and the `time=` marker of an engine status line.

Owns: writing whole seconds as a clock, reading a clock back, and finding the
leftmost marker whose value can be read.
-/

namespace Montage.Text

open Montage.Number

/-- Shown for a length that is negative or not finite. -/
def unknownClock : String := "??:??:??"

def clockChars (total : Nat) : List Char :=
  paddedDigits 2 (total / 3600) ++ ':' ::
    (paddedDigits 2 (total % 3600 / 60) ++ ':' :: paddedDigits 2 (total % 60))

/-- A length in seconds as a clock, fractions cut off. -/
def formatDuration (seconds : Float) : String :=
  if seconds < 0.0 || !seconds.isFinite then unknownClock
  else String.ofList (clockChars seconds.toUInt64.toNat)

/-- Reads three numerals separated by colons as hours, minutes and seconds. -/
def readClock? (text : List Char) : Option Float :=
  match splitAt ':' text with
  | [hours, minutes, seconds] => do
    let h ← readFloat? hours
    let m ← readFloat? minutes
    let s ← readFloat? seconds
    pure (h * 3600.0 + m * 60.0 + s)
  | _ => none

/-- What stands before a position in a status line. -/
def marker : List Char := "time=".toList

/-- The token after a marker: everything up to the next blank. -/
def markedToken (after : List Char) : List Char :=
  after.takeWhile fun c => !isBlank c

/-- The position a line reports: the leftmost marker whose token is a clock. -/
def findMarker? : List Char → Option Float
  | [] => none
  | c :: rest =>
    match (stripStart? marker (c :: rest)).bind fun after => readClock? (markedToken after) with
    | some position => some position
    | none => findMarker? rest

end Montage.Text
