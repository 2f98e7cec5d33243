import Montage.Files.FileSystem
import Montage.Json.Text
import Montage.Media.Catalog
import Montage.Project.Document

/-!
Contract: projects on disk.

A project is one document named after it. Opening a project brings back the
files that are still there and tells the names of the others. Listing passes
over whatever is not a project.

Owns: saving, reading, opening and listing.
-/

namespace Montage.Project

open Montage.Files
open Montage.Media
open Montage.Text

def extension : String := "spliceproj"

def isFileName (name : String) : Bool :=
  !name.isEmpty && !(name.toList.contains '/') && !(name.toList.contains '\\')

def documentPath (dir name : String) : String :=
  Path.join dir (name ++ "." ++ extension)

def document (project : Project) : String := project.toJson.indented

/-- Reads the text of a document of the current version. -/
def ofDocument (now : Instant) (text : String) : Except Error Project :=
  match (Json.read? text).bind (ofJson? now) with
  | none => .error .syntaxFault
  | some project =>
    if project.version = currentVersion then .ok project
    else .error (.projectVersion project.version)

/-- A project that has been opened. -/
structure Opened where
  name : String
  timeline : Timeline Float
  tracks : Nat
  /-- The files that are still there. -/
  catalog : Catalog Float
  /-- Names of the files that are gone. -/
  missing : List String
deriving DecidableEq, Repr

/-- Opens a project given which paths there still are. -/
def openWith (isPresent : String → Bool) (project : Project) : Opened :=
  let files := Catalog.assets project.files
  { name := project.name
    timeline := project.timeline
    tracks := project.tracks
    catalog := Catalog.ofAssets (files.filter fun file => isPresent file.path)
    missing := (files.filter fun file => !isPresent file.path).map Asset.name }

structure Summary where
  name : String
  fileName : String
  tracks : Nat
  clips : Nat
  files : Nat
deriving DecidableEq, Repr

def summary (fileName : String) (project : Project) : Summary :=
  ⟨project.name, fileName, project.tracks, project.timeline.clips.length, project.files.length⟩

/-- Puts summaries in order of their file names. -/
def sorted (summaries : List Summary) : List Summary :=
  summaries.mergeSort fun a b => decide (a.fileName ≤ b.fileName)

section

variable {m : Type → Type} [Monad m] [FileSystem m]

/-- Writes a project into a directory, which is made if need be; answers with the path. -/
def save (dir : String) (project : Project) : ExceptT Error m String := do
  let name := trimmedName project.name
  if isFileName name then
    orFail (FileSystem.ensureDirectory dir)
    let path := documentPath dir name
    orFail (FileSystem.writeText path project.document)
    pure path
  else
    throw (.path ("'" ++ project.name ++ "' is not usable as a project file name"))

/-- Reads a document without looking for its files. -/
def read (now : Instant) (path : String) : ExceptT Error m Project := do
  let text ← orFail (FileSystem.readText path)
  ofDocument now text

def load (now : Instant) (path : String) : ExceptT Error m Opened := do
  let project ← read now path
  let paths := (Catalog.assets project.files).map Asset.path
  let present ← paths.filterM fun file => (FileSystem.isPresent file : m Bool)
  pure (project.openWith fun file => present.contains file)

/-- The summary of one file of a directory, if it is a readable project. -/
def summaryOf? (now : Instant) (dir fileName : String) : ExceptT Error m (Option Summary) :=
  if Path.extension? fileName = some extension then
    ExceptT.mk do
      match ← (read now (Path.join dir fileName) : ExceptT Error m Project).run with
      | .ok project => pure (.ok (some (project.summary fileName)))
      | .error _ => pure (.ok none)
  else pure none

/-- The projects of a directory in order of their file names; none if there is no directory. -/
def list (now : Instant) (dir : String) : ExceptT Error m (List Summary) := do
  if ← (FileSystem.isDirectory dir : m Bool) then
    let names ← orFail (FileSystem.namesIn dir)
    let found ← names.mapM (summaryOf? now dir)
    pure (sorted (found.filterMap id))
  else pure []

end

end Montage.Project
