/-!
Contract: blank characters and the trimming of text.

A character is blank when Unicode gives it the White_Space property.

Owns: the class of blanks and the trims built on it.
-/

namespace Montage.Text

/-- The ranges of characters with the White_Space property. -/
def blankRanges : List (Nat × Nat) :=
  [(0x09, 0x0D), (0x20, 0x20), (0x85, 0x85), (0xA0, 0xA0), (0x1680, 0x1680),
   (0x2000, 0x200A), (0x2028, 0x2029), (0x202F, 0x202F), (0x205F, 0x205F),
   (0x3000, 0x3000)]

def isBlank (c : Char) : Bool :=
  blankRanges.any fun range => range.1 ≤ c.toNat && c.toNat ≤ range.2

def trimStart (cs : List Char) : List Char :=
  cs.dropWhile isBlank

/-- Drops blanks from the end: a blank goes when only blanks follow it. -/
def trimEnd : List Char → List Char
  | [] => []
  | c :: rest =>
    match trimEnd rest with
    | [] => if isBlank c then [] else [c]
    | kept => c :: kept

def trim (cs : List Char) : List Char :=
  trimEnd (trimStart cs)

def lastChars (count : Nat) (cs : List Char) : List Char :=
  cs.drop (cs.length - count)

/-- Cuts at every occurrence of `mark`; there is always one piece more than marks. -/
def splitAt (mark : Char) : List Char → List (List Char)
  | [] => [[]]
  | c :: rest =>
    match splitAt mark rest with
    | [] => [[c]]
    | piece :: pieces => if c = mark then [] :: piece :: pieces else (c :: piece) :: pieces

/-- Drops `start` from the front of a text that begins with it. -/
def stripStart? : List Char → List Char → Option (List Char)
  | [], text => some text
  | _ :: _, [] => none
  | s :: start, c :: text => if s = c then stripStart? start text else none

def occursIn (part : List Char) : List Char → Bool
  | [] => part.isEmpty
  | c :: rest => (stripStart? part (c :: rest)).isSome || occursIn part rest

/-- Pieces between `separator`s, put back together. -/
def joinWith (separator : List Char) : List (List Char) → List Char
  | [] => []
  | [piece] => piece
  | piece :: pieces => piece ++ separator ++ joinWith separator pieces

end Montage.Text
