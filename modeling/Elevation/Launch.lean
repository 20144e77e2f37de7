import Elevation.Log

/-! Launching commands. While a launched command runs, the signals of a common source are forwarded
to it; a terminal that is attached delivers its own signals itself. A launch settles once, by the
first report of its child, and from then on it hears no signal. -/

namespace Elevation

inductive Outcome where
  | exited (code : Int)
  | signaled (signal : Signal)
  deriving DecidableEq, Repr

/-- How a launch settled. An error whose text cannot be had settles it too: what was thrown when the
text was asked for goes to whoever reported the error, and the caller is never told anything. -/
inductive Settlement where
  | resolved (outcome : Outcome)
  | rejected (failure : Failure)
  | lost (thrown : Thrown)

def Settlement.answer? : Settlement → Option (Except Thrown Outcome)
  | .resolved outcome => some (.ok outcome)
  | .rejected failure => some (.error (.failure failure))
  | .lost _ => none

inductive Report where
  | exit (code : Option Int) (signal : Option Signal)
  | error (thrown : Thrown)

/-- What a child does while it takes a signal: it may report, and in the end the call may throw. If
a report throws into the child, it is up to the child whether the call throws too. -/
structure Reaction where
  reports : List Report
  thrown : Option Thrown

/-- A child that takes every signal alike. The call that sends one may throw, or else the child may
end at once, inside the call. -/
structure Child where
  killThrows : Option Thrown
  exitsOnKill : Bool

def Child.reaction (c : Child) (signal : Signal) : Reaction :=
  match c.killThrows with
  | some thrown => ⟨[], some thrown⟩
  | none => ⟨if c.exitsOnKill then [.exit none (some signal)] else [], none⟩

structure Command where
  file : String
  args : List String
  deriving DecidableEq, Repr

namespace Command

def ofArgv? : List String → Option Command
  | [] => none
  | file :: args => if file = "" then none else some ⟨file, args⟩

def argv (c : Command) : List String := c.file :: c.args

end Command

inductive EnvironmentSource where
  | given
  | own
  deriving DecidableEq, Repr

inductive Streams where
  | inherited
  | piped
  deriving DecidableEq, Repr

structure SpawnCall where
  command : Command
  streams : Streams
  environment : EnvironmentSource
  deriving DecidableEq, Repr

structure LaunchRequest where
  argv : List String
  environment : EnvironmentSource
  terminalAttached : Bool
  deriving DecidableEq, Repr

structure Launch where
  command : Command
  terminalAttached : Bool
  child : Child
  kills : List Signal
  settled : Option Settlement

namespace Launch

/-- What a report of the child makes of the launch. A child that ends without a code and without a
signal counts as a failure. -/
def settlement (l : Launch) : Report → Settlement
  | .exit _ (some signal) => .resolved (.signaled signal)
  | .exit code none => .resolved (.exited (code.getD 1))
  | .error thrown =>
    match thrown.toFailure l.command.file with
    | .ok failure => .rejected failure
    | .error escaped => .lost escaped

/-- A signal that the terminal has already delivered is not sent again. -/
def absorbs (l : Launch) (signal : Signal) : Bool :=
  l.terminalAttached && Signal.fromTerminal.contains signal

end Launch

/-- Launches that share one source of signals. A launch is known by its number in the list. -/
structure Session where
  launches : List Launch
  listeners : List (Signal × Nat)
  calls : List SpawnCall
  records : List Record

namespace Session

def initial : Session := ⟨[], [], [], []⟩

def log (s : Session) (record : Record) : Session :=
  { s with records := s.records ++ [record] }

def hearers (s : Session) (signal : Signal) : List Nat :=
  (s.listeners.filter (·.1 = signal)).map (·.2)

def addListener (number : Nat) (s : Session) (signal : Signal) : Session :=
  { s with listeners := s.listeners ++ [(signal, number)] }

/-- Removes one listener of a launch; of several equal ones it is the last. -/
def removeListener (number : Nat) (s : Session) (signal : Signal) : Session :=
  { s with listeners := (s.listeners.reverse.erase (signal, number)).reverse }

def listen (s : Session) (number : Nat) : Session :=
  Signal.forwarded.foldl (addListener number) s

def unlisten (s : Session) (number : Nat) : Session :=
  Signal.forwarded.foldl (removeListener number) s

/-- Starts a command. Only a child that was started makes a launch; it gets the next number. -/
def launch (s : Session) (request : LaunchRequest) (spawn : Command → Except Thrown Child) :
    Session × Except Thrown Nat :=
  match Command.ofArgv? request.argv with
  | none => (s, .error (.failure Failure.noCommand))
  | some command =>
    let s := { s with calls := s.calls ++ [⟨command, .inherited, request.environment⟩] }
    match spawn command with
    | .error thrown => (s, .error (thrown.rejection command.file))
    | .ok child =>
      let number := s.launches.length
      let launch : Launch := ⟨command, request.terminalAttached, child, [], none⟩
      let s := { s with launches := s.launches ++ [launch] }
      ((s.log (.launched command.argv)).listen number, .ok number)

def logReport (s : Session) : Report → Session
  | .exit code signal => s.log (.terminated code signal)
  | .error _ => s

/-- The child of a launch reports. Only the first report counts. -/
def report (s : Session) (number : Nat) (report : Report) : Session :=
  match s.launches[number]? with
  | none => s
  | some launch =>
    if launch.settled.isSome then s
    else
      let settled := { launch with settled := some (launch.settlement report) }
      ({ s with launches := s.launches.set number settled }.unlisten number).logReport report

def reportAll (s : Session) (number : Nat) (reports : List Report) : Session :=
  reports.foldl (fun s report => s.report number report) s

def kill (s : Session) (number : Nat) (launch : Launch) (signal : Signal) (reaction : Reaction) :
    Session × Option Thrown :=
  let killed := { launch with kills := launch.kills ++ [signal] }
  let s := { s with launches := s.launches.set number killed }
  (s.reportAll number reaction.reports, reaction.thrown)

abbrev Reactions := Nat → Launch → Reaction

def hear (s : Session) (number : Nat) (signal : Signal) (react : Reactions) :
    Session × Option Thrown :=
  match s.launches[number]? with
  | none => (s, none)
  | some launch =>
    if launch.absorbs signal then (s.log (.alreadyDelivered signal), none)
    else (s.log (.forwarding signal)).kill number launch signal (react number launch)

/-- Delivers a signal to the given launches. The first one that throws ends the delivery. -/
def deliverTo (signal : Signal) (react : Reactions) :
    List Nat → Session → Session × Option Thrown
  | [], s => (s, none)
  | number :: rest, s =>
    match s.hear number signal react with
    | (s, some thrown) => (s, some thrown)
    | (s, none) => deliverTo signal react rest s

/-- Delivers a signal to the listeners that are registered now, whatever the children do. -/
def deliverWith (s : Session) (signal : Signal) (react : Reactions) : Session × Option Thrown :=
  deliverTo signal react (s.hearers signal) s

def deliver (s : Session) (signal : Signal) : Session × Option Thrown :=
  s.deliverWith signal fun _ launch => launch.child.reaction signal

inductive Step where
  | launch (request : LaunchRequest) (spawned : Except Thrown Child)
  | signal (signal : Signal) (react : Reactions)
  | report (number : Nat) (report : Report)

def step (s : Session) : Step → Session
  | .launch request spawned => (s.launch request fun _ => spawned).1
  | .signal signal react => (s.deliverWith signal react).1
  | .report number report => s.report number report

def stepAll (s : Session) (steps : List Step) : Session := steps.foldl step s

def listenerCounts (s : Session) : List (Signal × Nat) :=
  (Signal.forwarded.map fun signal => (signal, (s.hearers signal).length)).filter (0 < ·.2)

end Session

end Elevation
