import Montage.Error

/-!
Contract: what the program asks of files.

Programs are written against these operations, whatever carries them out: the
machine's files, or a `Disk` held as a value.

Owns: the operations, and the failure of a computation that uses them.
-/

namespace Montage.Files

/-- Operations on files by path. -/
class FileSystem (m : Type → Type) where
  readText : String → m (Except OsError String)
  writeText : String → String → m (Except OsError Unit)
  /-- Makes a directory and those above it unless they are there. -/
  ensureDirectory : String → m (Except OsError Unit)
  namesIn : String → m (Except OsError (List String))
  isPresent : String → m Bool
  isDirectory : String → m Bool
  size? : String → m (Option Nat)
  /-- The path from the root of something that exists, without `..`. -/
  canonical? : String → m (Option String)
  /-- Where relative paths begin. -/
  workingDirectory : m String

/-- Carries a failure of a file operation into a failure of the program. -/
def orFail {m : Type → Type} [Monad m] {β : Type} (operation : m (Except OsError β)) :
    ExceptT Error m β :=
  ExceptT.mk do
    match ← operation with
    | .ok value => pure (.ok value)
    | .error cause => pure (.error (.files cause))

section

variable {m : Type → Type} [Monad m] [FileSystem m]

/-- Where a file is kept: its one path from the root, or the written path made absolute. -/
def storagePath (path : String) : ExceptT Error m String := do
  match ← (FileSystem.canonical? path : m (Option String)) with
  | some canonical => pure canonical
  | none =>
    if path.isEmpty then throw (.files .emptyPath)
    else pure (Path.absolute (← (FileSystem.workingDirectory : m String)) path)

/-- Makes the directory that a file is to stand in. -/
def ensureParent (path : String) : ExceptT Error m Unit :=
  match (Path.parent? path).filter fun dir => !dir.isEmpty with
  | some dir => orFail (FileSystem.ensureDirectory dir)
  | none => pure ()

end

end Montage.Files
