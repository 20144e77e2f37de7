import Elevation.Config.Load
import Elevation.Launch
import Elevation.FileSystem

/-! One run of a command: its environment says where the configuration is, the configuration and a
probe decide how to run it, and the command that results is launched and followed. What happens to
it is a history, in which signals and reports come in any order; a course is a plain one. This
process then ends as the command ended, with the same exit code or by the same signal, and a command
that could not be run is reported. -/

namespace Elevation

inductive Happening where
  | signal (signal : Signal) (react : Launch → Reaction)
  | report (report : Report)

def Happening.step (number : Nat) : Happening → Session.Step
  | .signal sent react => .signal sent fun _ => react
  | .report made => .report number made

/-- What follows when a command is handed to the system: whether there is a child, and everything
that happens while it is followed. -/
structure History where
  spawned : Except Thrown Child
  happenings : List Happening

structure Course where
  spawned : Except Thrown Child
  signals : List Signal
  reports : List Report

def Course.history (c : Course) : History where
  spawned := c.spawned
  happenings :=
    c.signals.map (fun signal => .signal signal fun launch => launch.child.reaction signal) ++
      c.reports.map .report

structure Setting where
  files : FileSystem
  home : String
  terminalAttached : Bool
  probe : Probe
  course : Command → Course

structure Run where
  /-- Missing as long as the child has reported nothing. -/
  answer : Option (Except Thrown Outcome)
  lookups : List (String × String)
  session : Session
  records : List Record

namespace Run

def answerOf (s : Session) (number : Nat) : Option (Except Thrown Outcome) := do
  let launch ← s.launches[number]?
  (← launch.settled).answer?

def along (history : Command → History) (request : LaunchRequest) :
    Session × Option (Except Thrown Outcome) :=
  match Session.initial.launch request fun command => (history command).spawned with
  | (s, .error thrown) => (s, some (.error thrown))
  | (s, .ok number) =>
    match Command.ofArgv? request.argv with
    | none => (s, none)
    | some command =>
      let s := s.stepAll ((history command).happenings.map (·.step number))
      (s, answerOf s number)

end Run

def runAlong (setting : Setting) (history : Command → History) (invocation : List String)
    (env : Variables) : Run :=
  let environment := LaunchEnvironment.read setting.home env
  let loaded := Config.load setting.files environment.configPath
  let verdict := Decision.decide environment loaded.config.privilege setting.probe
  match verdict.answer with
  | .error thrown => ⟨some (.error thrown), verdict.lookups, Session.initial, [loaded.record]⟩
  | .ok decision =>
    let argv := decision.argv invocation
    let (session, answer) := Run.along history ⟨argv, .given, setting.terminalAttached⟩
    ⟨answer, verdict.lookups, session,
      loaded.record :: decision.records ++ .decided decision argv :: session.records⟩

def run (setting : Setting) (invocation : List String) (env : Variables) : Run :=
  runAlong setting (fun command => (setting.course command).history) invocation env

inductive ControlCall where
  | exit (code : Int)
  | setExitCode (code : Option Nat)
  | raise (signal : Signal)
  | writeError (text : String)
  deriving DecidableEq, Repr

namespace ControlCall

/-- A signal is raised again; the exit code, set before, is for a signal that does not kill. A
signal without a number leaves no exit code. -/
def ofOutcome : Outcome → List ControlCall
  | .exited code => [exit code]
  | .signaled signal => [setExitCode (signal.number?.map (128 + ·)), raise signal]

def diagnostic (message : String) : String := "run-elevated: " ++ message ++ "\n"

/-- A failure has its own exit code; anything else that is thrown ends the process with 1, unless
it cannot be reported. -/
def ofThrown (thrown : Thrown) : Except Thrown (List ControlCall) :=
  match thrown with
  | .failure f => return [writeError (diagnostic f.message), exit f.exitCode]
  | _ => return [writeError (diagnostic (← thrown.text)), exit 1]

def ofAnswer : Except Thrown Outcome → Except Thrown (List ControlCall)
  | .ok outcome => return ofOutcome outcome
  | .error thrown => ofThrown thrown

end ControlCall

def Run.controlCalls (r : Run) : Except Thrown (List ControlCall) :=
  match r.answer with
  | none => return []
  | some answer => ControlCall.ofAnswer answer

end Elevation
