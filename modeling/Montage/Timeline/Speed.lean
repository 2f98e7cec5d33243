import Montage.Graph.Filter

/-!
Contract: playback speeds as stages that the engine accepts.

A tempo stage takes factors from a half to two. A slower or faster speed is
split into halves or doubles and a rest. Speeds next to one count as one and
need no stage.
-/

namespace Montage.Speed

open Montage.Number
open Montage.Graph

variable {α : Type} [Seconds α]

/-- Speeds nearer to one than this are one. -/
def tolerance : α := 0.001

def isUnity (speed : α) : Bool := decide (magnitude (speed - 1.0) < (tolerance : α))

/-- The slowest and fastest factor of a stage. -/
def slowest : α := 0.5

def fastest : α := 2.0

/-- Takes a factor out of a speed while it is out of bounds; returns the factors and the rest. -/
def takeOut (factor : α) (isOut : α → Bool) : Nat → α → List α × α
  | 0, rest => ([], rest)
  | fuel + 1, rest =>
    if isOut rest then
      let (stages, final) := takeOut factor isOut fuel (rest / factor)
      (factor :: stages, final)
    else ([], rest)

/-- The factors of a speed; their product is the speed. -/
def stages (speed : α) : List α :=
  if isUnity speed then []
  else
    let bound := Seconds.octaves speed
    let (halves, notSlow) := takeOut slowest (fun s => decide (s < (slowest : α))) bound speed
    let (doubles, rest) := takeOut fastest (fun s => decide ((fastest : α) < s)) bound notSlow
    halves ++ doubles ++ [rest]

def filters (speed : α) : List (Graph.Filter α) :=
  (stages speed).map .tempo

end Montage.Speed
