import Montage.Number.Numeral
import Montage.Timeline.Basic

/-!
Contract: the options and operands that each command takes.

An option takes no value or one; its values have a kind that they are checked
for. Options that are global may stand before the command or after it. A global
option may have a variable of the environment that stands in for it.

Owns: option specifications, the commands, and why a command line is refused.
-/

namespace Montage.CommandLine

open Montage.Number

/-- Why a command line is not carried out; asking for help or the version is one reason. -/
inductive Refusal where
  /-- An option without its value, or a path without a name. -/
  | invalidValue
  | unknownArgument
  /-- A value of the wrong kind. -/
  | valueValidation
  | argumentConflict
  | missingRequiredArgument
  | invalidSubcommand
  /-- A value for an option that takes none. -/
  | tooManyValues
  | missingSubcommand
  | displayHelp
  | displayVersion
  /-- Nothing was asked for at all. -/
  | displayHelpOnMissing
deriving DecidableEq, Repr

inductive OptionKind where
  | flag
  | help
  | version
  | path
  | text
  | format
  | seconds
deriving DecidableEq, Repr

namespace OptionKind

def takesValue : OptionKind → Bool
  | .flag | .help | .version => false
  | .path | .text | .format | .seconds => true

def check (kind : OptionKind) (value : String) : Except Refusal Unit :=
  match kind with
  | .path => if value.isEmpty then .error .invalidValue else .ok ()
  | .format =>
    match OutputFormat.read value with
    | .ok _ => .ok ()
    | .error _ => .error .valueValidation
  | .seconds => if (readFloat? value.toList).isSome then .ok () else .error .valueValidation
  | .text | .flag | .help | .version => .ok ()

end OptionKind

structure OptionSpec where
  name : String
  letter : Option Char
  kind : OptionKind
  /-- The variable that stands in for the option. -/
  variableName : Option String
deriving DecidableEq, Repr

inductive Operands where
  | none
  | one
  | oneOrMore
deriving DecidableEq, Repr

/-- What may stand at one level of a command line. -/
structure Level where
  options : List OptionSpec
  operands : Operands
deriving DecidableEq, Repr

namespace Level

def named? (level : Level) (name : String) : Option OptionSpec :=
  level.options.find? fun spec => spec.name == name

def lettered? (level : Level) (letter : Char) : Option OptionSpec :=
  level.options.find? fun spec => spec.letter == some letter

end Level

/-! ## Options -/

namespace OptionSpec

def ofName (name : String) (kind : OptionKind) : OptionSpec := ⟨name, none, kind, none⟩

def help : OptionSpec := ⟨"help", some 'h', .help, none⟩

def version : OptionSpec := ⟨"version", some 'V', .version, none⟩

def verbose : OptionSpec := ⟨"verbose", some 'v', .flag, none⟩

def workspace : OptionSpec := ⟨"workspace", none, .path, some "SPLICE_WORKSPACE"⟩

def output : OptionSpec := ⟨"output", some 'o', .path, none⟩

def exportDir : OptionSpec := ⟨"export-dir", none, .path, some "SPLICE_EXPORT_DIR"⟩

end OptionSpec

def globalOptions : List OptionSpec := [.help, .verbose, .workspace]

def timelineOptions : List OptionSpec := [.ofName "format" .format, .ofName "duration" .seconds]

/-- What may stand before the command. -/
def topLevel : Level := ⟨globalOptions ++ [.version], .none⟩

/-! ## Commands -/

inductive CommandName where
  | probe
  | graph
  | exportMedia
  | projects
  | settings
deriving DecidableEq, Repr

namespace CommandName

def text : CommandName → String
  | .probe => "probe"
  | .graph => "graph"
  | .exportMedia => "export"
  | .projects => "projects"
  | .settings => "settings"

def all : List CommandName := [.probe, .graph, .exportMedia, .projects, .settings]

def ofText? (text : String) : Option CommandName := all.find? fun name => name.text == text

def ownOptions : CommandName → List OptionSpec
  | .probe => [.ofName "json" .flag, .ofName "project" .text]
  | .graph => timelineOptions
  | .exportMedia =>
    timelineOptions ++ [.output, .ofName "name" .text, .exportDir, .ofName "ffmpeg" .path]
  | .projects => []
  | .settings =>
    [.ofName "project-dir" .path, .ofName "export-dir" .path, .ofName "ffmpeg" .path]

def operands : CommandName → Operands
  | .probe => .oneOrMore
  | .graph | .exportMedia => .one
  | .projects | .settings => .none

def level (name : CommandName) : Level := ⟨globalOptions ++ name.ownOptions, name.operands⟩

end CommandName

def helpWord : String := "help"

end Montage.CommandLine
