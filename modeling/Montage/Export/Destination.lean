import Montage.Files.Path
import Montage.Text.Blank
import Montage.Timeline.Basic

/-!
Contract: where an export is written.

A destination that is asked for is taken as it is. Without one the file stands
in the export directory, under a name or under the time the export began.
-/

namespace Montage.Export

open Montage.Files
open Montage.Text

namespace Destination

/-- The name without blanks around it, or one made from the time. -/
def baseName (name : Option String) (stamp : String) : String :=
  match (name.map fun n => String.ofList (trim n.toList)).filter fun n => !n.isEmpty with
  | some given => given
  | none => "export_" ++ stamp

/-- The file an export of a format goes to; `stamp` names the time it began. -/
def resolve (output : Option String) (dir : String) (name : Option String) (format : OutputFormat)
    (stamp : String) : String :=
  match output with
  | some path => path
  | none => Path.join dir (baseName name stamp ++ "." ++ format.extension)

end Destination

end Montage.Export
