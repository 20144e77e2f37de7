import Elevation.Yaml.Value

/-! The configuration: which helper runs a command with more rights, which of its flags keeps the
environment, and whether a missing helper may be passed over. The faults of an object that stands
for a configuration are listed in the order of the settings, and its unknown keys come last. -/

namespace Elevation

structure Privilege where
  helper : String
  preserveEnvFlag : String
  degradeWithoutHelper : Bool
  deriving DecidableEq, Repr

namespace Privilege

def standard : Privilege := ⟨"sudo", "-E", true⟩

def helperKey : String := "helper"
def preserveEnvFlagKey : String := "preserve_env_flag"
def degradeWithoutHelperKey : String := "degrade_without_helper"

def keys : List String := [helperKey, preserveEnvFlagKey, degradeWithoutHelperKey]

end Privilege

structure Config where
  privilege : Privilege
  deriving DecidableEq, Repr

namespace Config

def standard : Config := ⟨Privilege.standard⟩

def privilegeKey : String := "privilege"

def keys : List String := [privilegeKey]

open Yaml (Value)

inductive Issue where
  | invalidType (expected received : Value.Kind) (path : List String)
  | tooSmall (path : List String)
  | unrecognizedKeys (keys : List String) (path : List String)
  deriving DecidableEq, Repr

namespace Issue

def message : Issue → String
  | invalidType expected received _ =>
    "Expected " ++ expected.name ++ ", received " ++ received.name
  | tooSmall _ => "String must contain at least 1 character(s)"
  | unrecognizedKeys keys _ =>
    "Unrecognized key(s) in object: " ++ ", ".intercalate (keys.map fun key => "'" ++ key ++ "'")

/-- A setting that is given must be a text, and not the empty one. -/
def ofText (path : List String) : Option Value → List Issue
  | none => []
  | some (.string text) => if text = "" then [tooSmall path] else []
  | some value => [invalidType .string value.kind path]

def ofFlag (path : List String) : Option Value → List Issue
  | none => []
  | some (.boolean _) => []
  | some value => [invalidType .boolean value.kind path]

def ofKeys (known : List String) (path : List String) (names : List String) : List Issue :=
  match names.filter fun key => !known.contains key with
  | [] => []
  | unknown => [unrecognizedKeys unknown path]

def ofPrivilege (path : List String) : Option Value → List Issue
  | none => []
  | some value =>
    match value.fields? with
    | none => [invalidType .object value.kind path]
    | some fields =>
      ofText (path ++ [Privilege.helperKey]) (fields.lookup Privilege.helperKey) ++
      ofText (path ++ [Privilege.preserveEnvFlagKey])
        (fields.lookup Privilege.preserveEnvFlagKey) ++
      ofFlag (path ++ [Privilege.degradeWithoutHelperKey])
        (fields.lookup Privilege.degradeWithoutHelperKey) ++
      ofKeys Privilege.keys path value.names

def ofValue (value : Value) : List Issue :=
  match value.fields? with
  | none => [invalidType .object value.kind []]
  | some fields =>
    ofPrivilege [privilegeKey] (fields.lookup privilegeKey) ++
      ofKeys Config.keys [] value.names

end Issue

end Config

end Elevation
