import Montage.Export.Exporter
import Montage.Files.FileSystem
import Montage.Media.Probe
import Montage.Project.Instant

/-!
Contract: what commands need of the place they run in.

Besides files a command needs a terminal, a clock, the prober and the engine.
Commands are written against these, so that they run on a machine and on a
`Session` alike.
-/

namespace Montage.CommandLine

open Montage.Export
open Montage.Files
open Montage.Media

class Host (m : Type → Type) extends FileSystem m where
  print : String → m Unit
  now : m Instant
  /-- The local date and time in fifteen characters. -/
  stamp : m String
  /-- The facts of a media file. -/
  probe : String → m (Except Error (Probed Float))
  runEngine : Command → m Behaviour

end Montage.CommandLine
