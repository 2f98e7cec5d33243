import Montage.Json.Tree

/-!
Contract: records in JSON form.

A record is an object with known keys, in any order, or an array of its fields
in declared order. Unknown keys are passed over, a known key may stand only
once, and an array may stop early but not run on.

Owns: finding the fields of a record, and reading the kinds of value they hold.
-/

namespace Montage.Json

/-! ## Values -/

def text? : Json → Option String
  | .string q => q
  | _ => none

def float? : Json → Option Float
  | .number n => n.toFloat?
  | _ => none

def nat? (limit : Nat) : Json → Option Nat
  | .number n => n.toNat? limit
  | _ => none

def int64? : Json → Option Int
  | .number n => n.toInt64?
  | _ => none

def bool? : Json → Option Bool
  | .bool b => some b
  | _ => none

def list? {α : Type} (item : Json → Option α) : Json → Option (List α)
  | .array items => items.mapM item
  | _ => none

def nullable {α : Type} (read : Json → Option α) : Json → Option (Option α)
  | .null => some none
  | v => (read v).map some

/-! ## Written values -/

def ofText (s : String) : Json := .string (some s)

def ofNat (n : Nat) : Json := .number (.ofNat n)

/-- A finite number; the others have no literal and are written as `null`. -/
def ofFloat (x : Float) : Json :=
  match Numeral.ofFloat? x with
  | some n => .number n
  | none => .null

def member (key : String) (value : Json) : Quoted × Json := (some key, value)

/-- A member that is left out when there is no value. -/
def memberIfSome (key : String) (value : Option Json) : List (Quoted × Json) :=
  value.toList.map (member key)

/-! ## Fields -/

/-- What a record holds for one of its fields. -/
inductive Slot where
  | given (value : Json)
  /-- An object without the key. -/
  | absent
  /-- An array that stops before the field. -/
  | beyondEnd

namespace Slot

def required {α : Type} (read : Json → Option α) : Slot → Option α
  | .given v => read v
  | _ => none

def withDefault {α : Type} (default : α) (read : Json → Option α) : Slot → Option α
  | .given v => read v
  | _ => some default

/-- A field that may be `null` or, in an object, missing; an array must reach it. -/
def optional {α : Type} (read : Json → Option α) : Slot → Option (Option α)
  | .given v => nullable read v
  | .absent => some none
  | .beyondEnd => none

end Slot

/-- The one member with a key; two of them make the record unreadable. -/
def slotNamed? (members : List (Quoted × Json)) (name : String) : Option Slot :=
  match members.filter fun m => m.1 == some name with
  | [] => some .absent
  | [m] => some (.given m.2)
  | _ => none

/-- The fields of an object whose keys are all readable. -/
def objectSlots? (names : List String) (members : List (Quoted × Json)) : Option (List Slot) :=
  if members.all fun m => m.1.isSome then names.mapM (slotNamed? members) else none

/-- The fields of a record with these names, in the order of the names. -/
def slots? (names : List String) : Json → Option (List Slot)
  | .object members => objectSlots? names members
  | .array items =>
    if items.length ≤ names.length then
      some (items.map .given ++ List.replicate (names.length - items.length) .beyondEnd)
    else none
  | _ => none

/-! ## Buffered values

Some readers keep a value before they know what it is for. Such a value must be
readable in full: no half pairs, no number beyond all numbers, and no deeper
nesting than the reader allows. -/

/-- True when a value nests at most `depth` levels and all its texts and numbers can be read. -/
def isReadable : Nat → Json → Bool
  | _, .null => true
  | _, .bool _ => true
  | _, .number n => n.toFloat?.isSome
  | _, .string q => q.isSome
  | 0, .array _ => false
  | 0, .object _ => false
  | depth + 1, .array items => items.all (isReadable depth)
  | depth + 1, .object members =>
    members.all fun m => m.1.isSome && isReadable depth m.2

end Montage.Json
