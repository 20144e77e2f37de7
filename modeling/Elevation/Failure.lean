import Elevation.Number

/-! Failures to start a command. Each kind has the exit code that a shell gives it: 127 when there
is nothing to run, 126 when what there is cannot be run. Anything thrown while starting a command is
to become such a failure. What is thrown may be any value, and then its text is asked for; that may
throw in its turn, and there is no failure. -/

namespace Elevation

inductive FailureKind where
  | noCommand
  | commandNotFound
  | commandNotExecutable
  | helperUnavailable
  deriving DecidableEq, Repr

namespace FailureKind

def all : List FailureKind :=
  [noCommand, commandNotFound, commandNotExecutable, helperUnavailable]

def code : FailureKind → String
  | noCommand => "NO_COMMAND"
  | commandNotFound => "COMMAND_NOT_FOUND"
  | commandNotExecutable => "COMMAND_NOT_EXECUTABLE"
  | helperUnavailable => "HELPER_UNAVAILABLE"

def exitCode : FailureKind → Nat
  | noCommand => 127
  | commandNotFound => 127
  | commandNotExecutable => 126
  | helperUnavailable => 126

def ofCode? (code : String) : Option FailureKind :=
  all.find? fun kind => kind.code = code

end FailureKind

inductive Primitive where
  | undefined
  | null
  | boolean (value : Bool)
  | number (value : Number)
  | bigInt (value : Int)
  | string (value : String)
  | symbol (description : String)
  deriving Repr

mutual

/-- A dynamic value. A function comes with what it answers as a method that is asked for a text,
and an object has among its fields the methods that it inherits, except for those that all objects
have. An array or a function with methods of its own counts as an object. -/
inductive Datum where
  | primitive (value : Primitive)
  | function (source : String) (answer : Except Thrown Datum)
  | array (items : List Datum)
  | object (fields : List (String × Datum))

structure Failure where
  kind : FailureKind
  message : String
  context : Option (List (String × Datum))

/-- Whatever may be thrown: a failure of this library, an ordinary error that may carry the name of
a system error, or a value that is no error at all. -/
inductive Thrown where
  | failure (value : Failure)
  | error (message : String) (errno : Option String)
  | value (datum : Datum)

end

namespace Datum

abbrev undefined : Datum := .primitive .undefined
abbrev null : Datum := .primitive .null
abbrev boolean (value : Bool) : Datum := .primitive (.boolean value)
abbrev number (value : Number) : Datum := .primitive (.number value)
abbrev string (value : String) : Datum := .primitive (.string value)

instance : Inhabited Datum := ⟨undefined⟩

end Datum

def Primitive.text : Primitive → Except Thrown String
  | .undefined => .ok "undefined"
  | .null => .ok "null"
  | .boolean value => .ok (if value then "true" else "false")
  | .number value => .ok value.text
  | .bigInt value => .ok (toString value)
  | .string value => .ok value
  | .symbol _ => .error (.error "Cannot convert a Symbol value to a string" none)

namespace Datum

/-- The text that a method gives; there is none if it is no function, or does not answer with a
primitive value. -/
def answered? : Option Datum → Option (Except Thrown String)
  | some (.function _ (.error thrown)) => some (.error thrown)
  | some (.function _ (.ok (.primitive value))) => some value.text
  | _ => none

/-- An object without a method of its own is reported by its kind. One whose methods give no text
cannot be reported at all. -/
def objectText (fields : List (String × Datum)) : Except Thrown String :=
  match fields.lookup "toString" with
  | none => .ok "[object Object]"
  | method => ((answered? method).or (answered? (fields.lookup "valueOf"))).getD
    (.error (.error "Cannot convert object to primitive value" none))

def isAbsent : Datum → Bool
  | .primitive .undefined => true
  | .primitive .null => true
  | _ => false

mutual

def partText : Datum → Except Thrown String
  | .primitive value => value.text
  | .function source _ => .ok source
  | .array items => return ",".intercalate (← elementTexts items)
  | .object fields => objectText fields

def elementTexts : List Datum → Except Thrown (List String)
  | [] => .ok []
  | item :: rest => do
    if item.isAbsent then return "" :: (← elementTexts rest)
    else return (← partText item) :: (← elementTexts rest)

end

/-- The text of a value that is asked for nothing else: then a symbol has one too. -/
def text : Datum → Except Thrown String
  | .primitive (.symbol description) => .ok ("Symbol(" ++ description ++ ")")
  | value => value.partText

end Datum

namespace Failure

def exitCode (f : Failure) : Nat := f.kind.exitCode

def title (f : Failure) : String :=
  if f.message = "" then "LaunchError" else "LaunchError: " ++ f.message

def noCommand : Failure := ⟨.noCommand, "no command specified", none⟩

def helperUnavailable (helper : String) : Failure :=
  ⟨.helperUnavailable, helper ++ ": escalation helper not found",
    some [("helper", .string helper)]⟩

end Failure

namespace Thrown

/-- The system error name an error carries. The code of a failure counts as one. -/
def errno? : Thrown → Option String
  | .failure f => some f.kind.code
  | .error _ errno => errno
  | .value _ => none

def text : Thrown → Except Thrown String
  | .failure f => .ok f.message
  | .error message _ => .ok message
  | .value datum => datum.text

def told (t : Thrown) (cause : String) : FailureKind × String :=
  match t.errno? with
  | some "ENOENT" => (.commandNotFound, "command not found")
  | some "EACCES" => (.commandNotExecutable, "Permission denied")
  | some errno => (.commandNotExecutable, errno)
  | none => (.commandNotExecutable, cause)

def failureOf (t : Thrown) (file cause : String) : Failure :=
  ⟨(t.told cause).1, file ++ ": " ++ (t.told cause).2,
    some [("file", Datum.string file), ("cause", Datum.string cause)]⟩

/-- The failure to start `file`, or what is thrown when the text of `t` is asked for. -/
def toFailure (file : String) (t : Thrown) : Except Thrown Failure :=
  return t.failureOf file (← t.text)

@[simp] theorem toFailure_failure (file : String) (f : Failure) :
    (failure f).toFailure file = .ok ((failure f).failureOf file f.message) := rfl

@[simp] theorem toFailure_error (file message : String) (errno : Option String) :
    (error message errno).toFailure file = .ok ((error message errno).failureOf file message) :=
  rfl

theorem toFailure_value (file : String) (datum : Datum) :
    (value datum).toFailure file = datum.text.map ((value datum).failureOf file) := rfl

def rejection (file : String) (t : Thrown) : Thrown :=
  match t.toFailure file with
  | .ok f => .failure f
  | .error escaped => escaped

end Thrown

end Elevation
