/-!
Contract: failures of file and process operations, with their wording.
-/

namespace Montage.Files

inductive OsError where
  | notFound
  | permissionDenied
  | alreadyExists
  | notDirectory
  | isDirectory
  | nameTooLong
  | notExecutable
  | invalidName
  | notText
  | emptyPath
  /-- A failure known only by its wording. -/
  | other (text : String)
deriving DecidableEq, Repr

namespace OsError

/-- Wording of a failure that the operating system reports by number. -/
def numbered (text : String) (number : String) : String :=
  text ++ " (os error " ++ number ++ ")"

def message : OsError → String
  | .notFound => numbered "No such file or directory" "2"
  | .permissionDenied => numbered "Permission denied" "13"
  | .alreadyExists => numbered "File exists" "17"
  | .notDirectory => numbered "Not a directory" "20"
  | .isDirectory => numbered "Is a directory" "21"
  | .nameTooLong => numbered "File name too long" "36"
  | .notExecutable => numbered "Exec format error" "8"
  | .invalidName => "file name contained an unexpected NUL byte"
  | .notText => "stream did not contain valid UTF-8"
  | .emptyPath => "cannot make an empty path absolute"
  | .other text => text

end OsError

/-- The word that waiting for a process gives. Its low seven bits tell the signal that ended the
process, zero if it ended by itself with the code in the second byte; a process that is only stopped
has all of them set. -/
structure ExitStatus where
  word : BitVec 32
deriving DecidableEq, Repr

namespace ExitStatus

/-- A process that ended by itself. -/
def code (value : Nat) : ExitStatus := ⟨BitVec.ofNat 32 (value * 256)⟩

/-- A process that a signal ended, and that left no dump of its memory. -/
def signal (number : Nat) : ExitStatus := ⟨BitVec.ofNat 32 number⟩

def dumpFlag : BitVec 32 := 128

def lowBits (status : ExitStatus) : Nat := status.word.toNat % 128

def secondByte (status : ExitStatus) : Nat := status.word.toNat / 256 % 256

def isSuccess (status : ExitStatus) : Bool := status.word == 0

def code? (status : ExitStatus) : Option Nat :=
  if status.lowBits = 0 then some status.secondByte else none

/-- The signal that ended the process. -/
def signal? (status : ExitStatus) : Option Nat :=
  if status.lowBits = 0 ∨ status.lowBits = 127 then none else some status.lowBits

/-- True when the memory of a process was dumped that a signal ended. -/
def isDumped (status : ExitStatus) : Bool :=
  status.signal?.isSome && status.word &&& dumpFlag != 0

/-- The signal that stopped the process for now. -/
def stopSignal? (status : ExitStatus) : Option Nat :=
  if status.word.toNat % 256 = 127 then some status.secondByte else none

def isContinued (status : ExitStatus) : Bool := status.word == 0xffff

def signalName? : Nat → Option String
  | 1 => some "SIGHUP"
  | 2 => some "SIGINT"
  | 3 => some "SIGQUIT"
  | 4 => some "SIGILL"
  | 5 => some "SIGTRAP"
  | 6 => some "SIGABRT"
  | 7 => some "SIGBUS"
  | 8 => some "SIGFPE"
  | 9 => some "SIGKILL"
  | 10 => some "SIGUSR1"
  | 11 => some "SIGSEGV"
  | 12 => some "SIGUSR2"
  | 13 => some "SIGPIPE"
  | 14 => some "SIGALRM"
  | 15 => some "SIGTERM"
  | 16 => some "SIGSTKFLT"
  | 17 => some "SIGCHLD"
  | 18 => some "SIGCONT"
  | 19 => some "SIGSTOP"
  | 20 => some "SIGTSTP"
  | 21 => some "SIGTTIN"
  | 22 => some "SIGTTOU"
  | 23 => some "SIGURG"
  | 24 => some "SIGXCPU"
  | 25 => some "SIGXFSZ"
  | 26 => some "SIGVTALRM"
  | 27 => some "SIGPROF"
  | 28 => some "SIGWINCH"
  | 29 => some "SIGIO"
  | 30 => some "SIGPWR"
  | 31 => some "SIGSYS"
  | _ => none

/-- A signal by its number, and by its name if it has one. -/
def signalText (number : Nat) : String :=
  match signalName? number with
  | some name => toString number ++ " (" ++ name ++ ")"
  | none => toString number

def text (status : ExitStatus) : String :=
  match status.code?, status.signal?, status.stopSignal? with
  | some value, _, _ => "exit status: " ++ toString value
  | none, some number, _ =>
    "signal: " ++ signalText number ++ if status.isDumped then " (core dumped)" else ""
  | none, none, some number => "stopped (not terminated) by signal: " ++ signalText number
  | none, none, none =>
    if status.isContinued then "continued (WIFCONTINUED)"
    else
      "unrecognised wait status: " ++ toString status.word.toInt ++ " 0x" ++
        String.ofList (Nat.toDigits 16 status.word.toNat)

end ExitStatus

end Montage.Files
