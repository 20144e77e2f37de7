import Elevation.Log

/-! Log lines. A record is written as one object on one line: its level, the name of the program,
its message, and then the fields that say what it is about. -/

namespace Elevation

inductive LogValue where
  | null
  | flag (value : Bool)
  | number (value : Int)
  | text (value : String)
  | list (items : List LogValue)
  | object (fields : List (String × LogValue))
  deriving Repr

namespace LogValue

def texts (values : List String) : LogValue := list (values.map text)

def ofOption {α : Type} (f : α → LogValue) : Option α → LogValue
  | none => null
  | some value => f value

def quoted (c : Char) : List Char :=
  if c = '"' || c = '\\' then ['\\', c]
  else if c = '\n' then ['\\', 'n']
  else if c = '\r' then ['\\', 'r']
  else if c = '\t' then ['\\', 't']
  else if c.toNat < 32 then "\\u00".toList ++ Text.hexText c.toNat
  else [c]

def quote (s : String) : List Char := '"' :: s.toList.flatMap quoted ++ ['"']

mutual

def write : LogValue → List Char
  | null => "null".toList
  | flag b => (if b then "true" else "false").toList
  | number n => (toString n).toList
  | text s => quote s
  | list items => '[' :: [','].intercalate (writeItems items) ++ [']']
  | object fields => '\x7b' :: [','].intercalate (writeFields fields) ++ ['\x7d']

def writeItems : List LogValue → List (List Char)
  | [] => []
  | item :: rest => write item :: writeItems rest

def writeFields : List (String × LogValue) → List (List Char)
  | [] => []
  | (name, value) :: rest => (quote name ++ ':' :: write value) :: writeFields rest

end

end LogValue

def Decision.logValue : Decision → LogValue
  | .direct => .object [("mode", .text "direct")]
  | .escalated helper path flag =>
    .object [("mode", .text "escalated"), ("helper", .text helper), ("helperPath", .text path),
      ("preserveEnvFlag", .text flag)]
  | .directFallback helper => .object [("mode", .text "direct-fallback"), ("helper", .text helper)]

def Privilege.logValue (p : Privilege) : LogValue :=
  .object [(Privilege.helperKey, .text p.helper),
    (Privilege.preserveEnvFlagKey, .text p.preserveEnvFlag),
    (Privilege.degradeWithoutHelperKey, .flag p.degradeWithoutHelper)]

def Config.logValue (c : Config) : LogValue := .object [(Config.privilegeKey, c.privilege.logValue)]

def Config.Issue.logValue (issue : Config.Issue) : LogValue :=
  let about := match issue with
    | .invalidType expected received path =>
      [("code", LogValue.text "invalid_type"), ("expected", .text expected.name),
        ("received", .text received.name), ("path", .texts path)]
    | .tooSmall path =>
      [("code", .text "too_small"), ("minimum", .number 1), ("type", .text "string"),
        ("inclusive", .flag true), ("exact", .flag false), ("path", .texts path)]
    | .unrecognizedKeys keys path =>
      [("code", .text "unrecognized_keys"), ("keys", .texts keys), ("path", .texts path)]
  .object (about ++ [("message", .text issue.message)])

def Unreadable.logValue : Unreadable → LogValue
  | .system errno => .text ("io:" ++ errno.name)
  | .malformed => .text "yaml"

namespace Record

def programName : String := "run-elevated"

/-- What a record says besides its level and its message. -/
def fields : Record → List (String × LogValue)
  | configMissing path => [("configPath", .text path)]
  | configUnreadable path cause => [("configPath", .text path), ("error", cause.logValue)]
  | configInvalid path issues =>
    [("configPath", .text path), ("issues", .list (issues.map Config.Issue.logValue))]
  | configLoaded path config => [("configPath", .text path), ("config", config.logValue)]
  | helperMissing helper => [("helper", .text helper)]
  | decided decision argv => [("decision", decision.logValue), ("argv", .texts argv)]
  | launched argv => [("argv", .texts argv)]
  | forwarding signal => [("signal", .text signal.name)]
  | alreadyDelivered signal => [("signal", .text signal.name)]
  | terminated code signal =>
    [("code", .ofOption LogValue.number code),
      ("signal", .ofOption (fun s : Signal => LogValue.text s.name) signal)]

def logValue (r : Record) : LogValue :=
  .object ([("level", .number r.level.rank), ("name", .text programName)] ++ r.fields ++
    [("msg", .text r.message)])

def line (r : Record) : String := String.ofList r.logValue.write

end Record

end Elevation
