import Montage.Text.Blank

/-!
Contract: path texts.

A path is a text of components between slashes. Empty components and dots
inside a path name nothing; a dot in front of a relative path is kept as a
component. Operations cut the given text and never normalise what they keep.

Owns: components, file name, parent, extension and joining.
Does not own: what exists under a path, in `Files.Disk`.
-/

namespace Montage.Files

open Montage.Text

inductive Step where
  | root
  | here
  | up
  | name (text : String)
deriving DecidableEq, Repr

namespace Path

def slash : Char := '/'

def isAbsolute (path : String) : Bool :=
  path.toList.head? == some slash

/-- The step a piece between slashes stands for; `first` marks the front of a relative path. -/
def stepOf? (first : Bool) (piece : List Char) : Option Step :=
  if piece.isEmpty then none
  else if piece = ['.'] then if first then some .here else none
  else if piece = ['.', '.'] then some .up
  else some (.name (String.ofList piece))

def steps (path : String) : List Step :=
  let pieces := splitAt slash path.toList
  if isAbsolute path then .root :: pieces.filterMap (stepOf? false)
  else
    match pieces with
    | [] => []
    | first :: rest => (stepOf? true first).toList ++ rest.filterMap (stepOf? false)

/-- The last name, unless the path ends in `..` or has no name at all. -/
def fileName? (path : String) : Option String :=
  match (steps path).getLast? with
  | some (.name text) => some text
  | _ => none

/-! ## Parent

The text is cut from its end, kept reversed: empty and dot pieces go, then one
piece, then empty and dot pieces again. -/

/-- Drops slashes and lone dots from the end of a reversed text, but not the front of the path. -/
def dropIdle : Nat → List Char → List Char
  | 0, back => back
  | fuel + 1, back =>
    match back with
    | '/' :: c :: rest => dropIdle fuel (c :: rest)
    | '.' :: '/' :: c :: rest => dropIdle fuel (c :: rest)
    | ['.', '/'] => ['/']
    | _ => back

/-- The path without its last component; a root and an empty path have none. -/
def parent? (path : String) : Option String :=
  let back := path.toList.reverse
  let trimmed := dropIdle back.length back
  match trimmed with
  | [] => none
  | ['/'] => none
  | _ =>
    let rest := trimmed.dropWhile fun c => c != slash
    some (String.ofList (dropIdle rest.length rest).reverse)

/-- At most `count` paths: the path, its parent, and so on. -/
def chain : Nat → String → List String
  | 0, _ => []
  | count + 1, path =>
    path :: match parent? path with
      | some above => chain count above
      | none => []

/-- The path and the paths above it; each parent is shorter than what it is the parent of. -/
def ancestors (path : String) : List String := chain (path.length + 1) path

/-- Splits a name at its last dot; a name that only begins with a dot has no extension. -/
def extension? (path : String) : Option String :=
  (fileName? path).bind fun name =>
    let back := name.toList.reverse
    let after := back.takeWhile fun c => c != '.'
    match back.dropWhile fun c => c != '.' with
    | _ :: _ :: _ => some (String.ofList after.reverse)
    | _ => none

def join (dir path : String) : String :=
  if isAbsolute path then path
  else if dir.isEmpty || dir.toList.getLast? == some slash then dir ++ path
  else dir ++ "/" ++ path

/-! ## Absolute form -/

def pushStep (dir : String) : Step → String
  | .root => "/"
  | .here => join dir "."
  | .up => join dir ".."
  | .name text => join dir text

/-- Two slashes in front are kept; three or more count as one. -/
def hasDoubleRoot (path : String) : Bool :=
  match path.toList with
  | '/' :: '/' :: '/' :: _ => false
  | '/' :: '/' :: _ => true
  | _ => false

/-- The steps without a dot in front. -/
def stepsWithoutDot (path : String) : List Step :=
  match steps path with
  | .here :: rest => rest
  | all => all

/-- The path seen from the root without dots and repeated slashes; `..` and a trailing slash stay. -/
def absolute (cwd path : String) : String :=
  let start :=
    if isAbsolute path then if hasDoubleRoot path then "//" else ""
    else cwd
  let below := if hasDoubleRoot path then (steps path).drop 1 else stepsWithoutDot path
  let whole := below.foldl pushStep start
  if path.toList.getLast? == some slash then join whole "" else whole

end Path

end Montage.Files
