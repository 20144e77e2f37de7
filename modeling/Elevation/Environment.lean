import Elevation.FileSystem

/-! What a process is given from outside: its environment, of which the decision depends on a part,
and signals. Signals go by name; the numbers are those of Linux on x86-64, where a few names are
second names of one number. -/

namespace Elevation

abbrev Variables := List (String × String)

namespace Variables

def get? (env : Variables) (name : String) : Option String := env.lookup name

/-- Reads a list of variables in which each entry is followed by a zero. -/
def ofList (text : List Char) : Variables :=
  ((text.splitOn '\x00').filter (· ≠ [])).map fun entry =>
    let name := entry.takeWhile (· ≠ '=')
    (String.ofList name, String.ofList (entry.drop (name.length + 1)))

end Variables

structure LaunchEnvironment where
  escalationDisabled : Bool
  searchPath : String
  configPath : String
  deriving DecidableEq, Repr

namespace LaunchEnvironment

def disableVariable : String := "RUN_ELEVATED_DISABLE_SUDO"
def configVariable : String := "RUN_ELEVATED_CONFIG"
def logLevelVariable : String := "RUN_ELEVATED_LOG_LEVEL"
def searchPathVariable : String := "PATH"

def defaultConfigPath (home : String) : String :=
  Path.join [home, ".config", "run-elevated", "config.yaml"]

/-- Only the exact text 1 disables escalation, and an empty config variable counts as unset. -/
def read (home : String) (env : Variables) : LaunchEnvironment where
  escalationDisabled := env.get? disableVariable = some "1"
  searchPath := (env.get? searchPathVariable).getD ""
  configPath :=
    match env.get? configVariable with
    | none => defaultConfigPath home
    | some path => if path = "" then defaultConfigPath home else path

end LaunchEnvironment

/-- A signal is known by its name; only some names have a number. -/
structure Signal where
  name : String
  deriving DecidableEq, Repr

namespace Signal

def int : Signal := ⟨"SIGINT"⟩
def term : Signal := ⟨"SIGTERM"⟩
def hup : Signal := ⟨"SIGHUP"⟩
def quit : Signal := ⟨"SIGQUIT"⟩
def usr1 : Signal := ⟨"SIGUSR1"⟩
def usr2 : Signal := ⟨"SIGUSR2"⟩

def forwarded : List Signal := [int, term, hup, quit, usr1, usr2]

/-- The signals that a terminal sends to every process in its foreground group. -/
def fromTerminal : List Signal := [int, quit]

def numbered : List (String × Nat) :=
  [("SIGHUP", 1), ("SIGINT", 2), ("SIGQUIT", 3), ("SIGILL", 4), ("SIGTRAP", 5), ("SIGABRT", 6),
   ("SIGIOT", 6), ("SIGBUS", 7), ("SIGFPE", 8), ("SIGKILL", 9), ("SIGUSR1", 10), ("SIGSEGV", 11),
   ("SIGUSR2", 12), ("SIGPIPE", 13), ("SIGALRM", 14), ("SIGTERM", 15), ("SIGSTKFLT", 16),
   ("SIGCHLD", 17), ("SIGCONT", 18), ("SIGSTOP", 19), ("SIGTSTP", 20), ("SIGTTIN", 21),
   ("SIGTTOU", 22), ("SIGURG", 23), ("SIGXCPU", 24), ("SIGXFSZ", 25), ("SIGVTALRM", 26),
   ("SIGPROF", 27), ("SIGWINCH", 28), ("SIGIO", 29), ("SIGPOLL", 29), ("SIGPWR", 30),
   ("SIGSYS", 31)]

def number? (s : Signal) : Option Nat := numbered.lookup s.name

def ofNumber? (n : Nat) : Option Signal :=
  (numbered.find? fun entry => entry.2 = n).map fun entry => ⟨entry.1⟩

end Signal

end Elevation
