import Montage.Files.OsError
import Montage.Files.Path
import Montage.Timeline.Placement

/-!
Contract: every failure the program reports, as a cause, with its wording.

Failures of a timeline can be mended by editing it; the others come from a
running export, from external tools, or from files.
-/

namespace Montage

open Montage.Files
open Montage.Graph (natText)
open Montage.Media

inductive Error where
  | noClips
  | unknownFile (index : Nat) (id : FileId)
  | invalidClip (index : Nat) (reason : String)
  | noOutputStreams
  | exportInProgress
  | commandStart (tool : String) (cause : OsError)
  | commandWait (tool : String) (cause : OsError)
  | commandFailed (tool : String) (status : ExitStatus) (diagnostics : String)
  /-- The prober answered with something that is not a probe report. -/
  | probeReport (text : String)
  /-- The prober's report cannot be read as JSON; the tool's context is kept. -/
  | probeSyntax (context : String)
  | unsupportedMedia (text : String)
  | files (cause : OsError)
  /-- A document is not the JSON form of what it should hold. -/
  | syntaxFault
  | projectVersion (version : Nat)
  | path (text : String)
  | worker (text : String)
  /-- An export that ended as failed, with its status message. -/
  | exportFailed (text : String)
deriving DecidableEq, Repr

namespace Error

def message : Error → String
  | .noClips => "No clips supplied"
  | .unknownFile index id =>
    "Clip " ++ natText index ++ " references unknown file id '" ++ id.text ++ "'"
  | .invalidClip index reason => "Clip " ++ natText index ++ " is invalid: " ++ reason
  | .noOutputStreams => "Timeline produces neither a video nor an audio output stream"
  | .exportInProgress => "An export is already running"
  | .commandStart tool cause => "Failed to start " ++ tool ++ ": " ++ cause.message
  | .commandWait tool cause => "Failed waiting for " ++ tool ++ ": " ++ cause.message
  | .commandFailed tool status diagnostics =>
    tool ++ " exited with " ++ status.text ++ ": " ++ diagnostics
  | .probeReport text => "ffprobe output could not be interpreted: " ++ text
  | .probeSyntax context =>
    "ffprobe output could not be interpreted: ffprobe " ++ context ++ " output deserialization"
  | .unsupportedMedia text => "Media rejected: " ++ text
  | .files cause => "IO error: " ++ cause.message
  | .syntaxFault => "JSON error: the document cannot be read"
  | .projectVersion version => "Unsupported project version " ++ natText version
  | .path text => "Path error: " ++ text
  | .worker text => "Export worker failed: " ++ text
  | .exportFailed text => text

def isConfiguration : Error → Bool
  | .noClips | .unknownFile .. | .invalidClip .. | .noOutputStreams => true
  | _ => false

end Error

/-- The failure as it is reported, numbers spelled out. -/
def CompileError.toError : CompileError Float → Error
  | .noClips => .noClips
  | .unknownFile index id => .unknownFile index id
  | .invalidClip index fault => .invalidClip index fault.text
  | .noOutputStreams => .noOutputStreams

/-- The last name of a path, or why there is none. -/
def Files.Path.requireFileName (path : String) : Except Error String :=
  match Path.fileName? path with
  | some name => .ok name
  | none => .error (.path ("Failed to get filename for " ++ path))

end Montage
