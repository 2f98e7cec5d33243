import Montage.Text.Blank

/-!
Contract: what the engine says while it works.

The engine writes lines to its diagnostic stream. Lines that describe inputs,
outputs and streams are told apart from the rest, which is kept for failure
reports, and status lines are told apart by their entries.

Owns: the events, the splitting of a stream into lines, and the kinds of line.
-/

namespace Montage.Export

open Montage.Text

inductive LogLevel where
  | info
  | warning
  | error
  | fatal
  | unknown
deriving DecidableEq, Repr

inductive EngineEvent where
  /-- A status line and the position found in it. -/
  | progress (time line : String)
  | log (level : LogLevel) (line : String)
  | error (line : String)
  /-- Descriptions of files and streams with the line that tells them, and the end of the stream. -/
  | other (line : String := "")
deriving DecidableEq, Repr

namespace EngineEvent

/-! ## Lines -/

/-- Cuts a stream at line feeds and carriage returns; lines lose the blanks around them. -/
def linesOf (stream : List Char) : List (List Char) :=
  ((splitAt '\n' stream).flatMap (splitAt '\r')).map trim

/-- A line without the mark of an informational message. -/
def plainLine (line : List Char) : List Char :=
  trim ((stripStart? "[info]".toList line).getD line)

/-- The part of the stream that a line belongs to. -/
inductive Section where
  | other
  | input
  | output
  | mapping
deriving DecidableEq, Repr

def beginsWith (start : String) (line : List Char) : Bool :=
  (stripStart? start.toList line).isSome

/-- A line `Input #3, …`: the word, and a number up to a comma or blank. -/
def isNumbered (word : String) (line : List Char) : Bool :=
  match stripStart? word.toList line with
  | some rest =>
    let token := (trimStart rest).takeWhile fun c => !isBlank c && c != ','
    !token.isEmpty && token.all Char.isDigit
  | none => false

def sectionOf? (line : List Char) : Option Section :=
  let plain := plainLine line
  if isNumbered "Input #" plain then some .input
  else if isNumbered "Output #" plain && occursIn " to '".toList plain then some .output
  else none

/-- A line that describes a stream: `Stream #0:1…`. -/
def isStream (line : List Char) : Bool :=
  match stripStart? "Stream #".toList (plainLine line) with
  | some rest =>
    match rest.dropWhile Char.isDigit with
    | ':' :: c :: _ => c.isDigit && rest.head?.any Char.isDigit && occursIn ": ".toList rest
    | _ => false
  | none => false

/-- The text behind the first occurrence of `mark`. -/
def after? (mark : List Char) : List Char → Option (List Char)
  | [] => stripStart? mark []
  | c :: rest => stripStart? mark (c :: rest) <|> after? mark rest

/-- The first run without blanks behind a mark. -/
def wordAfter? (mark : String) (line : List Char) : Option (List Char) :=
  (after? mark.toList line).map fun rest => (trimStart rest).takeWhile fun c => !isBlank c

/-- A size as status lines give it: a number of kibibytes, or none at all. -/
def isSize (word : List Char) : Bool :=
  let digits := word.takeWhile Char.isDigit
  let unit := word.drop digits.length
  !digits.isEmpty && (unit == "kB".toList || unit == "KiB".toList) ||
    (stripStart? "A/N".toList word.reverse).isSome

/-- The entries of a status line that are always there. -/
def statusEntries : List String := ["frame=", "fps=", "q=", "bitrate=", "speed="]

/-- The position that a status line reports, as a text. -/
def statusTime? (line : List Char) : Option String :=
  let plain := plainLine line
  if (statusEntries.all fun entry => occursIn entry.toList plain) &&
      (wordAfter? "size=" plain).any isSize then
    ((wordAfter? "time=" plain).filter fun word => !word.isEmpty).map String.ofList
  else none

def levelOf (line : List Char) : LogLevel :=
  if occursIn "[info]".toList line then .info
  else if occursIn "[warning]".toList line then .warning
  else if occursIn "[error]".toList line then .error
  else if occursIn "[fatal]".toList line then .fatal
  else .unknown

/-- The event of a line inside a section, and the section after it. -/
def ofLine (current : Section) (line : List Char) : EngineEvent × Section :=
  match sectionOf? line with
  | some begun => (.other (String.ofList line), begun)
  | none =>
    let here := if occursIn "Stream mapping:".toList line then .mapping else current
    let plain := plainLine line
    let isHeader := beginsWith "ffmpeg version " plain || beginsWith "configuration: " plain
    let isDuration := here == .input && beginsWith "Duration:" plain
    let isMapped := here == .mapping && occursIn "  Stream #".toList line
    let isDescribed := (here == .input || here == .output) && isStream line
    if isHeader || isDuration || isMapped || isDescribed then (.other (String.ofList line), here)
    else
      match statusTime? line with
      | some time => (.progress time (String.ofList line), .other)
      | none => (.log (levelOf line) (String.ofList line), here)

def ofLines (current : Section) : List (List Char) → List EngineEvent
  | [] => []
  | line :: rest =>
    let (event, next) := ofLine current line
    event :: ofLines next rest

def ofStream (stream : String) : List EngineEvent :=
  ofLines .other (linesOf stream.toList)

end EngineEvent

end Montage.Export
