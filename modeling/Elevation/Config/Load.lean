import Elevation.FileSystem
import Elevation.Log
import Elevation.Yaml

/-! Loading the configuration. A file that is missing, unreadable, malformed or faulty leaves every
setting at its default. Whatever happens is told by exactly one record. -/

namespace Elevation.Config

structure Overrides where
  helper : Option String
  preserveEnvFlag : Option String
  degradeWithoutHelper : Option Bool
  deriving DecidableEq, Repr

namespace Overrides

def none : Overrides := ⟨.none, .none, .none⟩

def textOf : Option Yaml.Value → Option String
  | some (.string text) => some text
  | _ => .none

def flagOf : Option Yaml.Value → Option Bool
  | some (.boolean flag) => some flag
  | _ => .none

def ofValue (value : Yaml.Value) : Overrides :=
  match ((value.fields?.getD []).lookup privilegeKey).bind Yaml.Value.fields? with
  | .none => none
  | some fields =>
    ⟨textOf (fields.lookup Privilege.helperKey),
      textOf (fields.lookup Privilege.preserveEnvFlagKey),
      flagOf (fields.lookup Privilege.degradeWithoutHelperKey)⟩

end Overrides

def overlay (config : Config) (overrides : Overrides) : Config :=
  ⟨overrides.helper.getD config.privilege.helper,
    overrides.preserveEnvFlag.getD config.privilege.preserveEnvFlag,
    overrides.degradeWithoutHelper.getD config.privilege.degradeWithoutHelper⟩

/-- An empty document overrides nothing. -/
def ofDocument : Yaml.Value → Yaml.Value
  | .null => .object []
  | value => value

structure Loaded where
  config : Config
  configPath : String
  fromFile : Bool
  record : Record
  deriving Repr

namespace Loaded

def defaults (path : String) (record : Record) : Loaded := ⟨standard, path, false, record⟩

def ofValue (path : String) (value : Yaml.Value) : Loaded :=
  match Issue.ofValue (ofDocument value) with
  | [] =>
    let config := standard.overlay (Overrides.ofValue (ofDocument value))
    ⟨config, path, true, .configLoaded path config⟩
  | issues => defaults path (.configInvalid path issues)

end Loaded

def ofContent (path : String) (content : List UInt8) : Loaded :=
  match Yaml.parse (Text.Utf8.decode content) with
  | none => Loaded.defaults path (.configUnreadable path .malformed)
  | some value => Loaded.ofValue path value

def load (fs : FileSystem) (path : String) : Loaded :=
  if fs.pathExists path then
    match fs.read path with
    | .error errno => Loaded.defaults path (.configUnreadable path (.system errno))
    | .ok content => ofContent path content
  else Loaded.defaults path (.configMissing path)

end Elevation.Config
