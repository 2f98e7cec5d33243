import Montage.Json.Tree

/-!
Contract: JSON text in two layouts, and its reading.

The compact layout has no blanks. The indented layout puts every entry on a
line of its own, two blanks deeper than what holds it, and a blank after each
colon; an empty array or object stays closed up.

Owns: `read?`, `compact` and `indented`.
-/

namespace Montage.Json

/-- Reads a text that holds one value and blanks around it. -/
def read? (text : String) : Option Json :=
  (Token.scan text.toList).bind ofTokens?

def compact (v : Json) : String :=
  String.ofList ((tokens v).flatMap Token.text)

/-- A new line and the blanks of a nesting depth. -/
def newLine (depth : Nat) : List Char :=
  '\n' :: List.replicate (2 * depth) ' '

mutual

def indentedChars (depth : Nat) : Json → List Char
  | .array [] => "[]".toList
  | .array (v :: rest) =>
    '[' :: (newLine (depth + 1) ++ indentedItems (depth + 1) (v :: rest) ++ newLine depth ++ [']'])
  | .object [] => ['{', '}']
  | .object (member :: rest) =>
    '{' :: (newLine (depth + 1) ++ indentedMembers (depth + 1) (member :: rest) ++
      newLine depth ++ ['}'])
  | .null => Token.text .null
  | .bool b => Token.text (.bool b)
  | .number n => Token.text (.number n)
  | .string q => Token.text (.string q)

def indentedItems (depth : Nat) : List Json → List Char
  | [] => []
  | [v] => indentedChars depth v
  | v :: w :: rest =>
    indentedChars depth v ++ ',' :: (newLine depth ++ indentedItems depth (w :: rest))

def indentedMembers (depth : Nat) : List (Quoted × Json) → List Char
  | [] => []
  | [(key, v)] => key.text ++ ':' :: ' ' :: indentedChars depth v
  | (key, v) :: next :: rest =>
    key.text ++ ':' :: ' ' :: (indentedChars depth v ++
      ',' :: (newLine depth ++ indentedMembers depth (next :: rest)))

end

def indented (v : Json) : String :=
  String.ofList (indentedChars 0 v)

end Montage.Json
