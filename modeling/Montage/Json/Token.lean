import Montage.Json.Numeral
import Montage.Json.Quoted

/-!
Contract: JSON text as tokens.

Owns: the tokens, their texts, and the scanner. Blank characters between tokens
are space, tab, line feed and carriage return.
Does not own: which sequences of tokens form a value, in `Json.Tree`.
-/

namespace Montage.Json

inductive Token where
  | openArray
  | closeArray
  | openObject
  | closeObject
  | comma
  | colon
  | null
  | bool (value : Bool)
  | number (value : Numeral)
  | string (value : Quoted)
deriving DecidableEq, Repr

namespace Token

def isSpace (c : Char) : Bool :=
  c == ' ' || c == '\t' || c == '\n' || c == '\r'

def single? : Char → Option Token
  | '[' => some .openArray
  | ']' => some .closeArray
  | '{' => some .openObject
  | '}' => some .closeObject
  | ',' => some .comma
  | ':' => some .colon
  | _ => none

/-- Takes one token off the front of a text that does not begin with a blank. -/
def take? : List Char → Option (Token × List Char)
  | 'n' :: 'u' :: 'l' :: 'l' :: rest => some (.null, rest)
  | 't' :: 'r' :: 'u' :: 'e' :: rest => some (.bool true, rest)
  | 'f' :: 'a' :: 'l' :: 's' :: 'e' :: rest => some (.bool false, rest)
  | '"' :: rest => (Quoted.take? rest).map fun taken => (.string taken.1, taken.2)
  | c :: rest =>
    match single? c with
    | some token => some (token, rest)
    | none => (Numeral.take? (c :: rest)).map fun taken => (.number taken.1, taken.2)
  | [] => none

/-- Scans with a bound on the number of steps; every step takes a character or more. -/
def scanWithin : Nat → List Char → Option (List Token)
  | _, [] => some []
  | 0, _ :: _ => none
  | fuel + 1, c :: rest =>
    if isSpace c then scanWithin fuel rest
    else
      match take? (c :: rest) with
      | none => none
      | some (token, after) => (scanWithin fuel after).map (token :: ·)

def scan (cs : List Char) : Option (List Token) :=
  scanWithin cs.length cs

def text : Token → List Char
  | .openArray => ['[']
  | .closeArray => [']']
  | .openObject => ['{']
  | .closeObject => ['}']
  | .comma => [',']
  | .colon => [':']
  | .null => "null".toList
  | .bool true => "true".toList
  | .bool false => "false".toList
  | .number n => n.text
  | .string q => q.text

end Token

end Montage.Json
