import Elevation.Config
import Elevation.Decision
import Elevation.FileSystem
import Elevation.Environment
import Elevation.Text

/-! The records of a log. A record is a fact about the run; its level and its message follow from
what it says. It is written when its level is at least the current one; nothing is written at the
level `silent`. -/

namespace Elevation

inductive Level where
  | trace
  | debug
  | info
  | warn
  | error
  | fatal
  | silent
  deriving DecidableEq, Repr

namespace Level

def all : List Level := [trace, debug, info, warn, error, fatal, silent]

def name : Level → String
  | trace => "trace"
  | debug => "debug"
  | info => "info"
  | warn => "warn"
  | error => "error"
  | fatal => "fatal"
  | silent => "silent"

def rank : Level → Nat
  | trace => 10
  | debug => 20
  | info => 30
  | warn => 40
  | error => 50
  | fatal => 60
  | silent => 70

def ofName? (name : String) : Option Level := all.find? fun level => level.name = name

/-- The requested level, without regard to case and surrounding white space. A name that is not a
level, like a missing one, means silence. -/
def ofRequest : Option String → Level
  | none => silent
  | some requested => (ofName? (Text.lowerAscii (Text.trim requested))).getD silent

def admits (current record : Level) : Bool :=
  current ≠ silent && current.rank ≤ record.rank

end Level

inductive Unreadable where
  | system (errno : Errno)
  | malformed
  deriving DecidableEq, Repr

inductive Record where
  | configMissing (path : String)
  | configUnreadable (path : String) (cause : Unreadable)
  | configInvalid (path : String) (issues : List Config.Issue)
  | configLoaded (path : String) (config : Config)
  | helperMissing (helper : String)
  | decided (decision : Decision) (argv : List String)
  | launched (argv : List String)
  | forwarding (signal : Signal)
  | alreadyDelivered (signal : Signal)
  | terminated (code : Option Int) (signal : Option Signal)
  deriving DecidableEq, Repr

namespace Record

def level : Record → Level
  | configUnreadable _ _ => .error
  | configInvalid _ _ => .error
  | helperMissing _ => .warn
  | _ => .debug

def message : Record → String
  | configMissing _ => "No config file, using defaults"
  | configUnreadable _ _ => "Failed to read config, using defaults"
  | configInvalid _ _ => "Invalid config, using defaults"
  | configLoaded _ _ => "Config loaded"
  | helperMissing _ => "Escalation helper not found, running command directly"
  | decided _ _ => "Execution decided"
  | launched _ => "Launched"
  | forwarding _ => "Forwarding signal"
  | alreadyDelivered _ => "Terminal signal already delivered to child"
  | terminated _ _ => "Child terminated"

def written (level : Level) (records : List Record) : List Record :=
  records.filter fun record => level.admits record.level

end Record

def Decision.records : Decision → List Record
  | directFallback helper => [.helperMissing helper]
  | _ => []

end Elevation
