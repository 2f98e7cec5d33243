import Montage.Files.FileSystem
import Montage.Json.Text
import Montage.Project.Settings

/-!
Contract: settings on disk.

Settings are never in the way: a file that is missing or cannot be read counts
as one that says nothing.

Owns: loading, saving, and making the directories that settings name.
-/

namespace Montage.Settings

open Montage.Files

def filePath (workspace : String) : String := Path.join workspace fileName

/-- The settings of a workspace as the text of its file has them. -/
def ofText (workspace text : String) : Settings :=
  match (Json.read? text).bind Overlay.ofJson? with
  | some overlay => overlay.apply (defaults workspace)
  | none => defaults workspace

section

variable {m : Type → Type} [Monad m] [FileSystem m]

def load (path workspace : String) : m Settings := do
  match ← (FileSystem.readText path : m (Except OsError String)) with
  | .ok text => pure (ofText workspace text)
  | .error _ => pure (defaults workspace)

def save (path : String) (settings : Settings) : ExceptT Error m Unit := do
  ensureParent path
  orFail (FileSystem.writeText path settings.toJson.indented)

def ensureDirectories (settings : Settings) : ExceptT Error m Unit := do
  orFail (FileSystem.ensureDirectory settings.projectDir)
  orFail (FileSystem.ensureDirectory settings.exportDir)

end

end Montage.Settings
