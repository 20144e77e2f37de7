import Elevation.Environment
import Elevation.Program
import Elevation.Shell.Expansion

/-! A process that runs a script, and what it shares with its children: the files, the standard
streams and the signal that is still to arrive. An action of a process may end it. -/

namespace Elevation.Shell

inductive Ending where
  | exited (code : Nat)
  | killed (number : Nat)
  | never
  deriving DecidableEq, Repr

def Ending.status : Ending → Nat
  | exited code => code
  | killed number => 128 + number
  | never => 0

inductive Sink where
  | output
  | errors
  | nowhere
  deriving DecidableEq, Repr

structure Streams where
  reads : Bool
  output : Sink
  errors : Sink
  deriving Repr

structure Shared where
  files : FileSystem
  input : List Char
  output : List UInt8
  errors : List UInt8
  /-- The number of a signal that arrives as soon as the output says that all is ready. -/
  arriving : Option Nat

namespace Shared

def readyMark : List UInt8 := Text.Utf8.encode "ready\n".toList

def holds (mark : List UInt8) : List UInt8 → Bool
  | [] => mark.isEmpty
  | byte :: rest => mark.isPrefixOf (byte :: rest) || holds mark rest

def isReady (s : Shared) : Bool := holds readyMark s.output

def write (s : Shared) (sink : Sink) (bytes : List UInt8) : Shared :=
  match sink with
  | .output => { s with output := s.output ++ bytes }
  | .errors => { s with errors := s.errors ++ bytes }
  | .nowhere => s

end Shared

structure Job where
  number : Nat
  ending : Ending
  deriving Repr

structure Process where
  shared : Shared
  name : String
  args : List String
  bindings : Variables
  exported : List String
  streams : Streams
  status : Nat
  line : Nat
  /-- Actions for signals, by number; an empty action ignores its signal. -/
  traps : List (Nat × String)
  pending : List Nat
  jobs : List Job
  hears : Bool

abbrev Action := ExceptT Ending (StateM Process)

namespace Process

/-- The number by which a process knows itself; its jobs have the numbers that follow. -/
def ownNumber : Nat := 100

def separatorsVariable : String := "IFS"

def standardSeparators : String := " \t\n"

def standardSearchPath : String := "/usr/local/sbin:/usr/local/bin:/usr/sbin:/usr/bin:/sbin:/bin"

def setVariable (p : Process) (name value : String) : Process :=
  { p with bindings := (name, value) :: p.bindings.filter (·.1 ≠ name) }

def exportVariable (p : Process) (name : String) : Process :=
  { p with exported := name :: p.exported.filter (· ≠ name) }

def unsetVariable (p : Process) (name : String) : Process :=
  { p with
    bindings := p.bindings.filter (·.1 ≠ name)
    exported := p.exported.filter (· ≠ name) }

def environment (p : Process) : Variables :=
  p.bindings.filter fun entry => p.exported.contains entry.1

def value (p : Process) (name : String) : String :=
  if name = "#" then toString p.args.length
  else if name = "?" then toString p.status
  else if name = "$" then toString ownNumber
  else if name = "!" then ((p.jobs.head?).map fun job => toString job.number).getD ""
  else if name.toList.all Char.isDigit then
    (name.toNat?.bind fun n => (p.name :: p.args)[n]?).getD ""
  else (p.bindings.get? name).getD ""

def parameters (p : Process) : Parameters :=
  ⟨p.value, p.args, ((p.bindings.get? separatorsVariable).getD standardSeparators).toList⟩

def sink (p : Process) (stream : Nat) : Sink :=
  if stream = 1 then p.streams.output else if stream = 2 then p.streams.errors else .nowhere

def setSink (p : Process) (stream : Nat) (sink : Sink) : Process :=
  if stream = 1 then { p with streams := { p.streams with output := sink } }
  else if stream = 2 then { p with streams := { p.streams with errors := sink } }
  else if stream = 0 then { p with streams := { p.streams with reads := false } }
  else p

/-- Only what leads to other streams is followed; files that are written are not read again. -/
def redirect (p : Process) : Redirect → Process
  | .file stream _ => p.setSink stream .nowhere
  | .duplicate stream source => p.setSink stream (p.sink source)

/-- A process about to run another program. Signals stay ignored; actions are dropped. -/
def renewed (p : Process) : Process :=
  { p with
    bindings := p.environment
    status := 0
    traps := p.traps.filter (·.2 = "")
    pending := []
    jobs := [] }

def child (p : Process) : Process := { p.renewed with hears := false }

end Process

def ignoredByDefault (number : Nat) : Bool :=
  [Signal.mk "SIGCHLD", ⟨"SIGCONT"⟩, ⟨"SIGURG"⟩, ⟨"SIGWINCH"⟩].any fun signal =>
    signal.number? = some number

def stopsByDefault (number : Nat) : Bool :=
  [Signal.mk "SIGSTOP", ⟨"SIGTSTP"⟩, ⟨"SIGTTIN"⟩, ⟨"SIGTTOU"⟩].any fun signal =>
    signal.number? = some number

def isUnstoppable (number : Nat) : Bool :=
  [Signal.mk "SIGKILL", ⟨"SIGSTOP"⟩].any fun signal => signal.number? = some number

def defaultAction (number : Nat) : Action Unit :=
  if number = 0 || ignoredByDefault number then pure ()
  else if stopsByDefault number then throw .never
  else throw (.killed number)

def receive (number : Nat) : Action Unit := do
  match (← get).traps.lookup number with
  | some action =>
    if isUnstoppable number then defaultAction number
    else if action ≠ "" then modify fun p => { p with pending := p.pending ++ [number] }
  | none => defaultAction number

def await : Action Unit := do
  let p ← get
  match p.shared.arriving with
  | some number =>
    if p.hears && p.shared.isReady then
      set { p with shared := { p.shared with arriving := none } }
      receive number
  | none => pure ()

def writeBytes (stream : Nat) (bytes : List UInt8) : Action Unit :=
  modify fun p => { p with shared := p.shared.write (p.sink stream) bytes }

def write (stream : Nat) (text : String) : Action Unit :=
  writeBytes stream (Text.Utf8.encode text.toList)

def setStatus (status : Nat) : Action Unit := modify fun p => { p with status }

def complain (text : String) : Action Unit := do
  let p ← get
  write 2 (p.name ++ ": " ++ toString p.line ++ ": " ++ text ++ "\n")

end Elevation.Shell
