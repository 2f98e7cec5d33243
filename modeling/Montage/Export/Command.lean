import Montage.Compile.Basic
import Montage.Error

/-!
Contract: command lines of the engine.

Every command begins with the options that make the engine's diagnostics
readable. An export names its inputs in order, the filter graph, one map per
output stream, the length and the destination last.
-/

namespace Montage.Export

open Montage.Number
open Montage.Graph

/-- A program to run, by path or by name, and its arguments. -/
structure Command where
  /-- The engine found by name when absent. -/
  program : Option String
  arguments : List String
deriving DecidableEq, Repr

namespace Command

/-- Options that come first in every command. -/
def leadingArguments : List String := ["-loglevel", "level+info"]

def start (program : Option String) (hideBanner overwrite : Bool) : Command :=
  ⟨program,
    leadingArguments ++ (if hideBanner then ["-hide_banner"] else []) ++
      (if overwrite then ["-y"] else [])⟩

def append (command : Command) (arguments : List String) : Command :=
  ⟨command.program, command.arguments ++ arguments⟩

def withInputs (command : Command) (paths : List String) : Command :=
  command.append (paths.flatMap fun path => ["-i", path])

def withGraph (command : Command) (graph : String) (outputs : List Label) : Command :=
  command.append
    (["-filter_complex", graph] ++ outputs.flatMap fun label => ["-map", label.text])

def withOutput (command : Command) (seconds : Float) (destination : String) : Command :=
  command.append ["-t", fixed 6 seconds, destination]

end Command

/-- A compiled timeline with the file it is exported to. -/
structure Plan where
  compiled : Compiled Float
  destination : String
deriving DecidableEq, Repr

namespace Plan

/-- Expected length of the output, which progress is measured against. -/
def duration (plan : Plan) : Float := plan.compiled.duration

def command (plan : Plan) (program : Option String) : Except Error Command :=
  match plan.compiled.graph.text? with
  | none => .error .noOutputStreams
  | some graph =>
    let outputs := plan.compiled.outputLabels
    if outputs.isEmpty then .error .noOutputStreams
    else
      .ok
        ((((Command.start program true true).withInputs plan.compiled.inputs).withGraph graph
          outputs).withOutput plan.duration plan.destination)

end Plan

end Montage.Export
