import Montage.Error
import Montage.Number.Fixed
import Montage.Text.Blank

/-!
Contract: the status of the current or last export.

An export runs until it succeeds, fails or is given up; the outcome stays until
another export begins. While one runs no other can begin.

Owns: the status and the steps that change it, each of them whole.
-/

namespace Montage.Export

open Montage.Number
open Montage.Text

inductive Phase where
  | idle
  | running
  | succeeded
  | failed
deriving DecidableEq, Repr

def Phase.isTerminal : Phase → Bool
  | .succeeded | .failed => true
  | .idle | .running => false

structure Status where
  phase : Phase
  running : Bool
  /-- Percentage with one decimal. -/
  progress : Float
  message : String
  path : Option String
deriving DecidableEq, Repr

namespace Status

def initial : Status := ⟨.idle, false, 0.0, "", none⟩

def begun (destination : String) : Status :=
  ⟨.running, true, 0.0, "Starting...", some destination⟩

def tryBegin (status : Status) (destination : String) : Except Error Status :=
  if status.running then .error .exportInProgress else .ok (begun destination)

def setMessage (status : Status) (message : String) : Status :=
  { status with message := message }

def setProgress (status : Status) (percent : Float) : Status :=
  { status with progress := percent, message := "Encoding... " ++ fixed 1 percent ++ "%" }

def succeed (status : Status) : Status :=
  { status with phase := .succeeded, running := false, progress := 100.0, message := "Done!" }

def fail (status : Status) (message : String) : Status :=
  { status with phase := .failed, running := false, message := message }

/-- Shown for an export that was given up without an outcome. -/
def abandonedMessage : String := "Error: export worker stopped unexpectedly"

/-- Gives an export up: one that has no outcome yet has failed. -/
def release (status : Status) : Status :=
  if status.phase = .running then status.fail abandonedMessage
  else { status with running := false }

/-- Stands in front of the message of a failure that is none of the engine's. -/
def failureMark : String := "Error: "

/-- The failure that a failed export reports; the mark is left to who shows it. -/
def failure (status : Status) : Error :=
  .exportFailed <|
    match stripStart? failureMark.toList status.message.toList with
    | some rest => String.ofList rest
    | none => status.message

end Status

end Montage.Export
