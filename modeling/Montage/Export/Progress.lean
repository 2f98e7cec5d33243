import Montage.Export.Diagnostics
import Montage.Number.Seconds
import Montage.Text.Clock

/-!
Contract: from engine events to a percentage and a failure excerpt.

The percentage is that of the furthest position reported so far, with one
decimal, and stays below a hundred while the engine works. The last lines are
kept for the case of failure.

Owns: the tracker, the tail of diagnostic lines, and the monitor made of both.
-/

namespace Montage.Export

open Montage.Number
open Montage.Text

/-- Keeps the largest percentage of an expected length. -/
structure Tracker where
  total : Float
  percent : Float
deriving DecidableEq, Repr

namespace Tracker

/-- The highest percentage before the engine has ended. -/
def cap : Float := 99.0

def start (total : Float) : Tracker := ⟨total, 0.0⟩

def clamp (x : Float) : Float :=
  if x < 0.0 then 0.0 else if cap < x then cap else x

def roundTenth (x : Float) : Float := roundHalfAway (x * 10.0) / 10.0

def percentAt (total position : Float) : Float :=
  roundTenth (clamp (position / total * 100.0))

def isMeasurable (total : Float) : Bool :=
  total.isFinite && decide (0.0 < total)

/-- Takes a position; answers with the percentage when it is a new maximum. -/
def update (tracker : Tracker) (position : Float) : Option Float × Tracker :=
  if isMeasurable tracker.total && position.isFinite then
    let percent := percentAt tracker.total position
    if tracker.percent < percent then (some percent, { tracker with percent := percent })
    else (none, tracker)
  else (none, tracker)

def updateIfSome (tracker : Tracker) : Option Float → Option Float × Tracker
  | some position => tracker.update position
  | none => (none, tracker)

end Tracker

/-- The last lines the engine wrote, oldest first. -/
structure Tail where
  lines : List String
deriving DecidableEq, Repr

namespace Tail

def empty : Tail := ⟨[]⟩

/-- Lines that are kept, and characters of them that are shown. -/
def capacity : Nat := 20

def excerptLength : Nat := 200

def isEmpty (tail : Tail) : Bool := tail.lines.isEmpty

def trimmed (line : String) : String := String.ofList (trimEnd line.toList)

/-- Keeps a line that is not blank; the oldest line makes room. -/
def push (tail : Tail) (line : String) : Tail :=
  let text := trimmed line
  if text.isEmpty then tail
  else if tail.lines.length = capacity then ⟨tail.lines.drop 1 ++ [text]⟩
  else ⟨tail.lines ++ [text]⟩

def excerpt (tail : Tail) : String :=
  String.ofList (lastChars excerptLength (joinWith ['\n'] (tail.lines.map String.toList)))

end Tail

/-- Follows the events of one export. -/
structure Monitor where
  tracker : Tracker
  tail : Tail
deriving DecidableEq, Repr

namespace Monitor

def start (total : Float) : Monitor := ⟨.start total, .empty⟩

/-- Notices that the engine reports as errors although the export goes on. -/
def harmlessNotices : List String :=
  ["No streams found", "deprecated pixel format", "automatically inserted filter",
   "Timestamps are unset", "Queue input is backward"]

def isHarmless (line : String) : Bool :=
  harmlessNotices.any fun notice => occursIn notice.toList line.toList

/-- The line an event adds to the tail. -/
def lineOf? : EngineEvent → Option String
  | .progress _ line => some line
  | .log _ line => some line
  | .error line => if isHarmless line then none else some line
  | .other _ => none

def positionOf? : EngineEvent → Option Float
  | .progress time line => readClock? time.toList <|> findMarker? line.toList
  | .log _ line => findMarker? line.toList
  | .error line => if isHarmless line then none else findMarker? line.toList
  | .other _ => none

/-- Takes an event; answers with the percentage when it rises. -/
def handle (monitor : Monitor) (event : EngineEvent) : Option Float × Monitor :=
  let tail :=
    match lineOf? event with
    | some line => monitor.tail.push line
    | none => monitor.tail
  let (risen, tracker) := monitor.tracker.updateIfSome (positionOf? event)
  (risen, ⟨tracker, tail⟩)

end Monitor

end Montage.Export
