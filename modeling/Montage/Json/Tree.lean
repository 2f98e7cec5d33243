import Montage.Json.Token

/-!
Contract: JSON values, and the reading of one from its tokens.

Reading keeps a stack of the arrays and objects that are still open and takes
one token at a time, so it recurses on the tokens alone whatever the nesting.

Owns: the value type, the token reader, and the tokens of a value.
-/

namespace Montage

/-- A JSON value. Objects keep their members in written order, repeated keys included. -/
inductive Json where
  | null
  | bool (value : Bool)
  | number (value : Json.Numeral)
  | string (value : Json.Quoted)
  | array (items : List Json)
  | object (members : List (Json.Quoted × Json))
deriving Repr, Inhabited

namespace Json

/-- An array or object that is still open, latest entry first. -/
inductive Level where
  | array (items : List Json)
  | object (members : List (Quoted × Json)) (key : Quoted)

/-- What may come next. -/
inductive Reading where
  /-- A value; the flag allows a closing bracket instead, right after the opening one. -/
  | value (mayClose : Bool) (outer : List Level)
  /-- A key; the flag allows a closing brace instead, right after the opening one. -/
  | key (mayClose : Bool) (members : List (Quoted × Json)) (outer : List Level)
  | colon (members : List (Quoted × Json)) (key : Quoted) (outer : List Level)
  /-- A comma or the bracket that closes the innermost level. -/
  | separator (inner : Level) (outer : List Level)
  | done (value : Json)

namespace Reading

def start : Reading := .value false []

def deliver (v : Json) : List Level → Reading
  | [] => .done v
  | .array items :: outer => .separator (.array (v :: items)) outer
  | .object members k :: outer => .separator (.object ((k, v) :: members) k) outer

def takeValue (outer : List Level) : Token → Option Reading
  | .null => some (deliver .null outer)
  | .bool b => some (deliver (.bool b) outer)
  | .number n => some (deliver (.number n) outer)
  | .string q => some (deliver (.string q) outer)
  | .openArray => some (.value true (.array [] :: outer))
  | .openObject => some (.key true [] outer)
  | _ => none

def step : Reading → Token → Option Reading
  | .value true (.array [] :: outer), .closeArray => some (deliver (.array []) outer)
  | .value _ outer, token => takeValue outer token
  | .key true members outer, .closeObject => some (deliver (.object members.reverse) outer)
  | .key _ members outer, .string q => some (.colon members q outer)
  | .colon members k outer, .colon => some (.value false (.object members k :: outer))
  | .separator (.array items) outer, .comma => some (.value false (.array items :: outer))
  | .separator (.object members _) outer, .comma => some (.key false members outer)
  | .separator (.array items) outer, .closeArray => some (deliver (.array items.reverse) outer)
  | .separator (.object members _) outer, .closeObject =>
    some (deliver (.object members.reverse) outer)
  | _, _ => none

def run : Reading → List Token → Option Reading
  | reading, [] => some reading
  | reading, token :: rest => (reading.step token).bind fun next => next.run rest

end Reading

/-- The value that a token sequence spells from its first to its last token. -/
def ofTokens? (tokens : List Token) : Option Json :=
  match Reading.start.run tokens with
  | some (.done v) => some v
  | _ => none

mutual

def tokens : Json → List Token
  | .null => [.null]
  | .bool b => [.bool b]
  | .number n => [.number n]
  | .string q => [.string q]
  | .array items => .openArray :: (itemTokens items ++ [.closeArray])
  | .object members => .openObject :: (memberTokens members ++ [.closeObject])

def itemTokens : List Json → List Token
  | [] => []
  | [v] => tokens v
  | v :: w :: rest => tokens v ++ .comma :: itemTokens (w :: rest)

def memberTokens : List (Quoted × Json) → List Token
  | [] => []
  | [(key, v)] => .string key :: .colon :: tokens v
  | (key, v) :: next :: rest =>
    .string key :: .colon :: (tokens v ++ .comma :: memberTokens (next :: rest))

end

end Json

end Montage
