/-!
Contract: quoted strings of JSON text.

Between quotes a string is a run of pieces: plain characters, short escapes and
`\u` escapes, which name 16-bit units. Two units may form one character; a half
of such a pair that stands alone makes the string well formed but unreadable.

Owns: the pieces, their decoding, and the escaping of written text.
-/

namespace Montage.Json

/-- What one step of a quoted string contributes. -/
inductive Piece where
  | char (c : Char)
  | unit (value : Nat)
deriving DecidableEq, Repr

/-- Contents of a quoted string; nothing when half of a pair stands alone. -/
abbrev Quoted := Option String

namespace Quoted

def isHighHalf (unit : Nat) : Bool := 0xD800 ≤ unit && unit < 0xDC00

def isLowHalf (unit : Nat) : Bool := 0xDC00 ≤ unit && unit < 0xE000

/-- Joins pairs of units and turns the other units into characters. -/
def decodePieces : List Piece → Option (List Char)
  | [] => some []
  | .char c :: rest => (decodePieces rest).map (c :: ·)
  | .unit high :: .unit low :: rest =>
    if isHighHalf high && isLowHalf low then
      (decodePieces rest).map
        (Char.ofNat (0x10000 + (high - 0xD800) * 0x400 + (low - 0xDC00)) :: ·)
    else if isHighHalf high || isLowHalf high then none
    else (decodePieces (.unit low :: rest)).map (Char.ofNat high :: ·)
  | .unit single :: rest =>
    if isHighHalf single || isLowHalf single then none
    else (decodePieces rest).map (Char.ofNat single :: ·)

def hexValue? (c : Char) : Option Nat :=
  if '0' ≤ c ∧ c ≤ '9' then some (c.toNat - '0'.toNat)
  else if 'a' ≤ c ∧ c ≤ 'f' then some (c.toNat - 'a'.toNat + 10)
  else if 'A' ≤ c ∧ c ≤ 'F' then some (c.toNat - 'A'.toNat + 10)
  else none

/-- The 16-bit unit that four hexadecimal digits name. -/
def unitValue? (a b c d : Char) : Option Nat := do
  let w ← hexValue? a
  let x ← hexValue? b
  let y ← hexValue? c
  let z ← hexValue? d
  pure (((w * 16 + x) * 16 + y) * 16 + z)

def shortEscape? : Char → Option Char
  | '"' => some '"'
  | '\\' => some '\\'
  | '/' => some '/'
  | 'b' => some '\x08'
  | 'f' => some '\x0c'
  | 'n' => some '\n'
  | 'r' => some '\r'
  | 't' => some '\t'
  | _ => none

/-- Characters below the blank must be escaped. -/
def isControl (c : Char) : Bool := c.toNat < 0x20

/-- Takes pieces up to the closing quote. -/
def takePieces? : List Char → Option (List Piece × List Char)
  | [] => none
  | '"' :: rest => some ([], rest)
  | '\\' :: 'u' :: a :: b :: c :: d :: rest => do
    let unit ← unitValue? a b c d
    let (pieces, after) ← takePieces? rest
    pure (.unit unit :: pieces, after)
  | '\\' :: e :: rest => do
    let c ← shortEscape? e
    let (pieces, after) ← takePieces? rest
    pure (.char c :: pieces, after)
  | c :: rest =>
    if isControl c || c == '\\' then none
    else do
      let (pieces, after) ← takePieces? rest
      pure (.char c :: pieces, after)

def take? (cs : List Char) : Option (Quoted × List Char) :=
  (takePieces? cs).map fun taken => ((decodePieces taken.1).map String.ofList, taken.2)

def escape (c : Char) : List Char :=
  if c = '"' then ['\\', '"']
  else if c = '\\' then ['\\', '\\']
  else if c = '\x08' then ['\\', 'b']
  else if c = '\t' then ['\\', 't']
  else if c = '\n' then ['\\', 'n']
  else if c = '\x0c' then ['\\', 'f']
  else if c = '\r' then ['\\', 'r']
  else if isControl c then
    ['\\', 'u', '0', '0', Nat.digitChar (c.toNat / 16), Nat.digitChar (c.toNat % 16)]
  else [c]

/-- The written form; an unreadable string is written as one half of a pair. -/
def text : Quoted → List Char
  | some s => '"' :: (s.toList.flatMap escape ++ ['"'])
  | none => "\"\\ud800\"".toList

end Quoted

end Montage.Json
