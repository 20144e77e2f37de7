import Elevation.Run
import Elevation.Shell.Perform

/-! An invocation of the command line program: what it is given, and how it ends. The command it
runs is followed as a script. A signal that is sent to the program while the command runs either has
a listener, or does what signals do to a process. -/

namespace Elevation

structure Invocation where
  argv : List String
  env : Variables
  files : FileSystem
  input : String
  signal : Option Signal

structure Conclusion where
  code : Option Int
  signal : Option Signal
  output : List UInt8
  errors : List UInt8
  records : List Record

def Conclusion.status (c : Conclusion) : Nat :=
  match c.code, c.signal with
  | some code, _ => (code % 256).toNat
  | none, some signal => 128 + signal.number?.getD 0
  | none, none => 1

namespace Invocation

def homeVariable : String := "HOME"

def home (i : Invocation) : String := (i.env.get? homeVariable).getD ""

def level (i : Invocation) : Level :=
  Level.ofRequest (i.env.get? LaunchEnvironment.logLevelVariable)

def program? (i : Invocation) (command : Command) : Except Errno Program :=
  Program.find i.files (i.env.get? LaunchEnvironment.searchPathVariable) command.file command.args

def heard (i : Invocation) : Option Signal := i.signal.filter Signal.forwarded.contains

def shared (i : Invocation) : Shell.Shared where
  files := i.files
  input := i.input.toList
  output := []
  errors := []
  arriving := i.heard.bind Signal.number?

def follow (i : Invocation) (program : Program) : Shell.Ending × Shell.Shared :=
  Shell.follow i.shared i.env program

def obstacle (command : Command) (errno : Errno) : Thrown :=
  .error ("spawn " ++ command.file ++ " " ++ errno.name) (some errno.name)

/-- Errors that are reported by the child; the others are met before there is one. -/
def isReported (errno : Errno) : Bool := errno = .noEntry || errno = .accessDenied

def child : Child := ⟨none, false⟩

/-- A signal without a name leaves a code of zero. -/
def reports : Shell.Ending → List Report
  | .exited code => [.exit (some code) none]
  | .killed number =>
    match Signal.ofNumber? number with
    | some signal => [.exit none (some signal)]
    | none => [.exit (some 0) none]
  | .never => []

/-- The course of a command. A signal is passed on if it found the command still running. -/
def course (i : Invocation) (command : Command) : Course :=
  match i.program? command with
  | .ok program =>
    let (ending, shared) := i.follow program
    ⟨.ok child, if shared.arriving.isNone then i.heard.toList else [], reports ending⟩
  | .error errno =>
    let thrown := obstacle command errno
    if isReported errno then ⟨.ok child, [], [.error thrown]⟩ else ⟨.error thrown, [], []⟩

def setting (i : Invocation) : Setting where
  files := i.files
  home := i.home
  terminalAttached := false
  probe := fun name searchPath => .ok (SearchPath.find i.files name searchPath)
  course := i.course

def run (i : Invocation) : Run := Elevation.run i.setting i.argv i.env

def written (i : Invocation) (r : Run) : List UInt8 × List UInt8 :=
  match r.session.calls.map fun call => i.program? call.command with
  | [.ok program] =>
    let (_, shared) := i.follow program
    (shared.output, shared.errors)
  | _ => ([], [])

def ignored : List Signal :=
  [⟨"SIGPIPE"⟩, ⟨"SIGXFSZ"⟩, ⟨"SIGCHLD"⟩, ⟨"SIGCONT"⟩, ⟨"SIGURG"⟩, ⟨"SIGWINCH"⟩]

/-- The effects of control calls. The code that is there at the start is the one that the program
ends with if nothing else ends it. -/
def perform (c : Conclusion) : List ControlCall → Conclusion
  | [] => c
  | .exit code :: _ => { c with code := some code }
  | .setExitCode code :: rest => perform { c with code := code.map Int.ofNat } rest
  | .raise signal :: rest =>
    if ignored.contains signal then perform c rest
    else { c with code := none, signal := some signal }
  | .writeError text :: rest =>
    perform { c with errors := c.errors ++ Text.Utf8.encode text.toList } rest

def isFatal (output : List UInt8) (signal : Signal) : Bool :=
  Shell.Shared.holds Shell.Shared.readyMark output && !Signal.forwarded.contains signal &&
    !ignored.contains signal

/-- Runs the program to its end. One that dies of a signal does not see the end of its command, and
one that cannot report what was thrown ends with 1. -/
def conclude (i : Invocation) : Conclusion :=
  let r := i.run
  let (output, errors) := i.written r
  match i.signal.filter (isFatal output) with
  | some signal =>
    let seen := r.records.filter fun record => !(record matches .terminated _ _)
    ⟨none, some signal, output, errors, Record.written i.level seen⟩
  | none =>
    let ended (code : Option Int) : Conclusion :=
      ⟨code, none, output, errors, Record.written i.level r.records⟩
    match r.answer.map ControlCall.ofAnswer with
    | some (.ok calls) => perform (ended (some 0)) calls
    | some (.error _) => ended (some 1)
    | none => ended none

end Invocation

end Elevation
