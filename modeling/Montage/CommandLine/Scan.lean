import Montage.CommandLine.Grammar
import Montage.Text.Blank

/-!
Contract: reading the words of one level of a command line.

Words are taken from left to right. What a word gives is held back until the
next one shows that it is complete, and only then checked, so that of several
faults the one that is met first is reported. After a lone `--` every word is
an operand.

Owns: the state between words, taking a word, and the end of a level.
-/

namespace Montage.CommandLine

open Montage.Text

inductive Pending where
  | nothing
  /-- An option whose value has not come yet. -/
  | waiting (spec : OptionSpec)
  | valued (spec : OptionSpec) (value : String)
  | operands (values : List String)
deriving DecidableEq, Repr

structure Scan where
  /-- Options that have been checked, by name; a flag has an empty value. -/
  given : List (String × String)
  /-- Operands that have been checked. -/
  operands : List String
  pending : Pending
  /-- True when every further word is an operand. -/
  trailing : Bool
  /-- True once an operand has been met. -/
  hasOperand : Bool
deriving DecidableEq, Repr

namespace Scan

def start : Scan := ⟨[], [], .nothing, false, false⟩

def has (scan : Scan) (name : String) : Bool := scan.given.any fun entry => entry.1 == name

def value? (scan : Scan) (name : String) : Option String := scan.given.lookup name

def record (scan : Scan) (spec : OptionSpec) (value : String) : Except Refusal Scan :=
  if scan.has spec.name then .error .argumentConflict
  else
    match spec.kind.check value with
    | .error refusal => .error refusal
    | .ok () => .ok { scan with given := (spec.name, value) :: scan.given }

/-- Every operand is a path. -/
def checkOperands : List String → Except Refusal Unit
  | [] => .ok ()
  | value :: rest =>
    match OptionKind.check .path value with
    | .ok () => checkOperands rest
    | .error refusal => .error refusal

def resolve (scan : Scan) : Except Refusal Scan :=
  let clear := { scan with pending := .nothing }
  match scan.pending with
  | .nothing => .ok clear
  | .waiting _ => .error .invalidValue
  | .valued spec value => clear.record spec value
  | .operands values =>
    match checkOperands values with
    | .error refusal => .error refusal
    | .ok () => .ok { clear with operands := scan.operands ++ values }

/-- Takes an option that stands without a value. -/
def takeFlag (scan : Scan) (spec : OptionSpec) : Except Refusal Scan :=
  match scan.resolve with
  | .error refusal => .error refusal
  | .ok ready =>
    match spec.kind with
    | .help => .error .displayHelp
    | .version => .error .displayVersion
    | _ => ready.record spec ""

/-- Takes an option with a value that is attached to it or comes as the next word. -/
def takeOption (scan : Scan) (spec : OptionSpec) (attached : Option String) :
    Except Refusal Scan :=
  match scan.resolve with
  | .error refusal => .error refusal
  | .ok ready =>
    match attached with
    | some value => ready.record spec value
    | none => .ok { ready with pending := .waiting spec }

def splitEquals (word : List Char) : String × Option String :=
  let name := word.takeWhile fun c => c != '='
  match word.drop name.length with
  | [] => (String.ofList name, none)
  | _ :: value => (String.ofList name, some (String.ofList value))

def takeNamed (level : Level) (scan : Scan) (word : List Char) : Except Refusal Scan :=
  let (name, value) := splitEquals word
  match level.named? name with
  | none => .error .unknownArgument
  | some spec =>
    if spec.kind.takesValue then scan.takeOption spec value
    else if value.isSome then .error .tooManyValues
    else scan.takeFlag spec

/-- What is attached to a letter; an equals sign in front of it does not count. -/
def attached? : List Char → Option String
  | [] => none
  | '=' :: rest => some (String.ofList rest)
  | rest => some (String.ofList rest)

/-- Takes options by their letters; one that takes a value takes the rest of the word. -/
def takeLetters (level : Level) (scan : Scan) : List Char → Except Refusal Scan
  | [] => .ok scan
  | letter :: rest =>
    match level.lettered? letter with
    | none => .error .unknownArgument
    | some spec =>
      if spec.kind.takesValue then scan.takeOption spec (attached? rest)
      else
        match scan.takeFlag spec with
        | .ok next => takeLetters level next rest
        | .error refusal => .error refusal

/-- Why a word is refused as an operand; before the command it is taken for the name of one. -/
def strayOperand (level : Level) (scan : Scan) (word : String) : Refusal :=
  let isCommand := word == helpWord || (CommandName.ofText? word).isSome
  if level = topLevel && !(scan.trailing && isCommand) then .invalidSubcommand
  else .unknownArgument

/-- Takes the first operand, or another one. -/
def takeOperand (level : Level) (scan : Scan) (word : String) : Except Refusal Scan :=
  let begun (ready : Scan) : Scan :=
    { ready with pending := .operands [word], hasOperand := true }
  match level.operands with
  | .none => .error (strayOperand level scan word)
  | .one =>
    if scan.hasOperand then .error .unknownArgument else scan.resolve.map begun
  | .oneOrMore =>
    match scan.pending with
    | .operands values => .ok { scan with pending := .operands (values ++ [word]) }
    | _ => scan.resolve.map begun

/-- What a word looks like. -/
inductive Shape where
  /-- A lone `--`. -/
  | divider
  | named (word : List Char)
  | letters (word : List Char)
  | plain
deriving DecidableEq, Repr

def shapeOf (word : String) : Shape :=
  match word.toList with
  | ['-', '-'] => .divider
  | '-' :: '-' :: rest => .named rest
  | ['-'] => .plain
  | '-' :: rest => .letters rest
  | _ => .plain

/-- Takes a word that is neither option nor divider: the value that is due, or an operand. -/
def takePlain (level : Level) (scan : Scan) (word : String) : Except Refusal Scan :=
  match scan.pending with
  | .waiting spec => .ok { scan with pending := .valued spec word }
  | _ => scan.takeOperand level word

def takeWord (level : Level) (scan : Scan) (word : String) : Except Refusal Scan :=
  if scan.trailing then scan.takeOperand level word
  else
    match shapeOf word with
    | .divider => .ok { scan with trailing := true }
    | .named rest => scan.takeNamed level rest
    | .letters rest => scan.takeLetters level rest
    | .plain => scan.takePlain level word

def takeWords (level : Level) : Scan → List String → Except Refusal Scan
  | scan, [] => .ok scan
  | scan, word :: rest =>
    match scan.takeWord level word with
    | .ok next => takeWords level next rest
    | .error refusal => .error refusal

/-! ## The end of a level -/

def substitute? (environment : List (String × String)) (scan : Scan) (spec : OptionSpec) :
    Option String :=
  if scan.has spec.name then none
  else spec.variableName.bind fun name => List.lookup name environment

/-- Checks the variables that stand in for options that were not given. -/
def takeVariables (environment : List (String × String)) : Scan → List OptionSpec →
    Except Refusal Scan
  | scan, [] => .ok scan
  | scan, spec :: rest =>
    match substitute? environment scan spec with
    | none => takeVariables environment scan rest
    | some value =>
      match scan.record spec value with
      | .ok next => takeVariables environment next rest
      | .error refusal => .error refusal

/-- Checks what is held back, and then the environment. -/
def finish (level : Level) (environment : List (String × String)) (scan : Scan) :
    Except Refusal Scan :=
  match scan.resolve with
  | .ok ready => takeVariables environment ready level.options
  | .error refusal => .error refusal

end Scan

end Montage.CommandLine
