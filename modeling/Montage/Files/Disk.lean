import Montage.Files.FileSystem

/-!
Contract: a tree of directories and files as a value.

Everything stands at a location, the names that lead to it from the root. A
path is followed name by name from the root or from the home directory; what it
passes through must be a directory, and `..` goes up from where the path has
come to.

Owns: locations, following paths, and the file operations on a disk.
Does not own: links and permissions, which no disk has.
-/

namespace Montage.Files

open Montage.Text

inductive Entry where
  | directory
  | file (content : ByteArray) (executable : Bool)

/-- The names from the root. -/
abbrev Location := List String

structure Disk where
  /-- Where relative paths begin. -/
  home : Location
  /-- What stands where; the root always is a directory and not listed. -/
  entries : List (Location × Entry)

namespace Disk

/-! ## Locations -/

def entryAt? (disk : Disk) (location : Location) : Option Entry :=
  if location = [] then some .directory
  else (disk.entries.find? fun entry => entry.1 == location).map Prod.snd

def place (disk : Disk) (location : Location) (entry : Entry) : Disk :=
  { disk with
    entries := (location, entry) :: disk.entries.filter fun other => other.1 != location }

def clear (disk : Disk) (location : Location) : Disk :=
  { disk with entries := disk.entries.filter fun entry => !(location.isPrefixOf entry.1) }

/-- The name under which a location stands right below another. -/
def nameBelow? (dir : Location) (location : Location) : Option String :=
  match location.getLast? with
  | some name => if location = dir ++ [name] then some name else none
  | none => none

def namesBelow (disk : Disk) (dir : Location) : List String :=
  disk.entries.filterMap fun entry => nameBelow? dir entry.1

def pathOf (location : Location) : String :=
  if location = [] then "/"
  else String.ofList (location.flatMap fun name => '/' :: name.toList)

/-! ## Following paths -/

/-- The longest name, and the longest path, in bytes. -/
def longestName : Nat := 255

def longestPath : Nat := 4095

def pieces (path : String) : List String :=
  ((splitAt Path.slash path.toList).filter fun piece => !piece.isEmpty).map String.ofList

/-- Goes one step on from a location, which must be a directory. -/
def enter (disk : Disk) (here : Location) (piece : String) : Except OsError Location :=
  match disk.entryAt? here with
  | none => .error .notFound
  | some (.file ..) => .error .notDirectory
  | some .directory =>
    if piece = "." then .ok here
    else if piece = ".." then .ok here.dropLast
    else if longestName < piece.utf8ByteSize then .error .nameTooLong
    else .ok (here ++ [piece])

def walk (disk : Disk) : Location → List String → Except OsError Location
  | here, [] => .ok here
  | here, piece :: rest =>
    match disk.enter here piece with
    | .ok next => disk.walk next rest
    | .error cause => .error cause

/-- Where a path leads, whether or not something stands there. -/
def locate (disk : Disk) (path : String) : Except OsError Location :=
  if path.isEmpty then .error .notFound
  else if path.toList.contains '\x00' then .error .invalidName
  else if longestPath < path.utf8ByteSize then .error .nameTooLong
  else disk.walk (if Path.isAbsolute path then [] else disk.home) (pieces path)

/-- True for a path that can only name a directory. -/
def namesDirectory (path : String) : Bool :=
  path.toList.getLast? == some Path.slash

/-- What stands under a path, and where. -/
def find (disk : Disk) (path : String) : Except OsError (Location × Entry) :=
  match disk.locate path with
  | .error cause => .error cause
  | .ok location =>
    match disk.entryAt? location with
    | none => .error .notFound
    | some .directory => .ok (location, .directory)
    | some (.file content executable) =>
      if namesDirectory path then .error .notDirectory
      else .ok (location, .file content executable)

/-! ## Operations -/

def isDirectory (disk : Disk) (path : String) : Bool :=
  match disk.find path with
  | .ok (_, .directory) => true
  | _ => false

def isPresent (disk : Disk) (path : String) : Bool :=
  match disk.find path with
  | .ok _ => true
  | .error _ => false

def canonical? (disk : Disk) (path : String) : Option String :=
  match disk.find path with
  | .ok (location, _) => some (pathOf location)
  | .error _ => none

def size? (disk : Disk) (path : String) : Option Nat :=
  match disk.find path with
  | .ok (_, .file content _) => some content.size
  | _ => none

def readText (disk : Disk) (path : String) : Except OsError String :=
  match disk.find path with
  | .error cause => .error cause
  | .ok (_, .directory) => .error .isDirectory
  | .ok (_, .file content _) =>
    match String.fromUTF8? content with
    | some text => .ok text
    | none => .error .notText

def namesIn (disk : Disk) (path : String) : Except OsError (List String) :=
  match disk.find path with
  | .error cause => .error cause
  | .ok (_, .file ..) => .error .notDirectory
  | .ok (location, .directory) => .ok (disk.namesBelow location)

/-- Makes bytes the content of a file; a new file is executable only if asked for. -/
def writeBytes (disk : Disk) (path : String) (content : ByteArray) (executable : Bool) :
    Except OsError Disk :=
  match disk.locate path with
  | .error cause => .error cause
  | .ok location =>
    if namesDirectory path then .error .isDirectory
    else
      match disk.entryAt? location with
      | some .directory => .error .isDirectory
      | some (.file _ wasExecutable) =>
        .ok (disk.place location (.file content (executable || wasExecutable)))
      | none => .ok (disk.place location (.file content executable))

def createDirectory (disk : Disk) (path : String) : Except OsError Disk :=
  match disk.locate path with
  | .error cause => .error cause
  | .ok location =>
    match disk.entryAt? location with
    | some _ => .error .alreadyExists
    | none => .ok (disk.place location .directory)

/-- A directory that could not be made may be there all the same. -/
def accept (disk : Disk) (path : String) (cause : OsError) : Except OsError Unit × Disk :=
  if disk.isDirectory path then (.ok (), disk) else (.error cause, disk)

/-- Makes the first of some paths, each the parent of the one before it. -/
def ensureFirst (disk : Disk) : List String → Except OsError Unit × Disk
  | [] => (.error (.other "failed to create whole tree"), disk)
  | path :: above =>
    if path.isEmpty then (.ok (), disk)
    else
      match disk.createDirectory path with
      | .ok made => (.ok (), made)
      | .error .notFound =>
        match ensureFirst disk above with
        | (.error cause, kept) => (.error cause, kept)
        | (.ok (), ready) =>
          match ready.createDirectory path with
          | .ok made => (.ok (), made)
          | .error cause => ready.accept path cause
      | .error cause => disk.accept path cause

/-- Makes a directory and those above it; what was made stays if a later one fails. -/
def ensureDirectory (disk : Disk) (path : String) : Except OsError Unit × Disk :=
  disk.ensureFirst (Path.ancestors path)

def settle (disk : Disk) : Except OsError Disk → Except OsError Unit × Disk
  | .ok changed => (.ok (), changed)
  | .error cause => (.error cause, disk)

instance : FileSystem (StateM Disk) where
  readText path := fun disk => (disk.readText path, disk)
  writeText path text := fun disk => disk.settle (disk.writeBytes path text.toUTF8 false)
  ensureDirectory path := fun disk => disk.ensureDirectory path
  namesIn path := fun disk => (disk.namesIn path, disk)
  isPresent path := fun disk => (disk.isPresent path, disk)
  isDirectory path := fun disk => (disk.isDirectory path, disk)
  size? path := fun disk => (disk.size? path, disk)
  canonical? path := fun disk => (disk.canonical? path, disk)
  workingDirectory := fun disk => (pathOf disk.home, disk)

end Disk

end Montage.Files
