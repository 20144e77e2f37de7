import Elevation.Shell.Process

/-! The commands that a shell performs itself and that run no other commands. An error ends the
shell in those that are special and makes the status 2 in the others. -/

namespace Elevation.Shell

/-- Commands whose errors end the shell. -/
def specialNames : List String := [":", "exec", "exit", "export", "shift", "trap", "unset"]

def failWith (name text : String) : Action Unit := do
  complain (name ++ ": " ++ text)
  setStatus 2
  if specialNames.contains name then throw (.exited 2)

def isOctal (c : Char) : Bool := '0' ≤ c && c ≤ '7'

def octal (digits : List Char) : Nat := digits.foldl (fun n c => n * 8 + (c.toNat - 48)) 0

def escapes : List (Char × Nat) :=
  [('\\', 92), ('a', 7), ('b', 8), ('f', 12), ('n', 10), ('r', 13), ('t', 9), ('v', 11)]

/-- The bytes that `echo` writes for a text, and whether they end all output. A number has up to
three octal digits, behind a zero that may be left out; an unknown escape stands for itself. -/
def unescape : (fuel : Nat) → List Char → List UInt8 × Bool
  | 0, _ => ([], false)
  | _, [] => ([], false)
  | fuel + 1, '\\' :: rest =>
    match rest with
    | [] => ([92], false)
    | c :: after =>
      if c = 'c' then ([], true)
      else if isOctal c then
        let digits := if c = '0' && (after.head?.map isOctal).getD false then after else rest
        let digits := (digits.takeWhile isOctal).take 3
        let used := if c = '0' && (after.head?.map isOctal).getD false then 1 else 0
        let (more, stop) := unescape fuel (rest.drop (used + digits.length))
        (UInt8.ofNat (octal digits) :: more, stop)
      else
        match escapes.lookup c with
        | some code =>
          let (more, stop) := unescape fuel after
          (UInt8.ofNat code :: more, stop)
        | none =>
          let (more, stop) := unescape fuel rest
          (92 :: more, stop)
  | fuel + 1, c :: rest =>
    let (more, stop) := unescape fuel rest
    (Text.Utf8.encode [c] ++ more, stop)

def echoBytes (newline : Bool) : List String → List UInt8
  | [] => if newline then [10] else []
  | arg :: rest =>
    match unescape (arg.length + 1) arg.toList with
    | (bytes, true) => bytes
    | (bytes, false) => bytes ++ (if rest.isEmpty then [] else [32]) ++ echoBytes newline rest

def echo (args : List String) : Action Unit := do
  match args with
  | "-n" :: args => writeBytes 1 (echoBytes false args)
  | args => writeBytes 1 (echoBytes true args)
  setStatus 0

def number? (text : String) : Option Nat :=
  if text ≠ "" && text.toList.all Char.isDigit then text.toNat? else none

def greatestNumber : Nat := 0x7fffffffffffffff

def exitCode (n : Nat) : Nat := min n greatestNumber % 256

def exit (args : List String) : Action Unit := do
  match args with
  | [] => throw (.exited (← get).status)
  | text :: _ =>
    match number? text with
    | some n => throw (.exited (exitCode n))
    | none => failWith "exit" ("Illegal number: " ++ text)

def shift (args : List String) : Action Unit := do
  let p ← get
  match args with
  | [] => shiftBy p 1
  | text :: _ =>
    match number? text with
    | some n => shiftBy p n
    | none => failWith "shift" ("Illegal number: " ++ text)
where
  shiftBy (p : Process) (n : Nat) : Action Unit :=
    if p.args.length < n then failWith "shift" "can't shift that many"
    else set { p with args := p.args.drop n, status := 0 }

def signalNumber? (text : String) : Option Nat :=
  match number? text with
  | some n => if n < 65 then some n else none
  | none => Signal.number? ⟨"SIG" ++ text.toUpper⟩

def killAll (signal : Nat) (status : Nat) : List String → Action Unit
  | [] => setStatus status
  | target :: rest => do
    match number? target with
    | none =>
      let shown := String.ofList (target.toList.dropWhile (· = '-'))
      failWith "kill" ("Illegal number: " ++ shown)
    | some n =>
      let p ← get
      if n = Process.ownNumber then
        receive signal
        killAll signal status rest
      else if p.jobs.any (·.number = n) then
        let hit (job : Job) : Job :=
          if job.number = n && signal ≠ 0 && !ignoredByDefault signal then
            { job with ending := .killed signal }
          else job
        set { p with jobs := p.jobs.map hit }
        killAll signal status rest
      else
        complain "kill: No such process\n"
        killAll signal 1 rest

def usage : String :=
  "Usage: kill [-s sigspec | -signum | -sigspec] [pid | job]... or\nkill -l [exitstatus]"

def kill (args : List String) : Action Unit :=
  match args with
  | [] => failWith "kill" usage
  | first :: rest =>
    match first.toList with
    | '-' :: spec =>
      match signalNumber? (String.ofList spec), spec, rest with
      | some _, _, [] => failWith "kill" usage
      | some signal, _, targets => killAll signal 0 targets
      | none, [], targets => killAll 15 0 (first :: targets)
      | none, ['-'], [] => failWith "kill" usage
      | none, ['-'], targets => killAll 15 0 targets
      | none, ['s'], name :: targets =>
        match signalNumber? name with
        | some signal => if targets.isEmpty then failWith "kill" usage else killAll signal 0 targets
        | none => failWith "kill" ("invalid signal number or name: " ++ name)
      | none, ['s'], [] => failWith "kill" "No arg for -s option"
      | none, c :: _, _ => failWith "kill" ("Illegal option -" ++ String.ofList [c])
    | _ => killAll 15 0 args

def event? (text : String) : Option Nat :=
  if text.toUpper = "EXIT" then some 0 else signalNumber? text

def trapAll (action : Option String) : List String → Action Unit
  | [] => setStatus 0
  | name :: rest => do
    match event? name with
    | none =>
      write 2 ("trap: " ++ name ++ ": bad trap\n")
      setStatus 1
    | some number =>
      let added := (action.map fun action => (number, action)).toList
      modify fun p => { p with traps := added ++ p.traps.filter (·.1 ≠ number) }
      trapAll action rest

def trap (args : List String) : Action Unit :=
  match (if args.head? = some "--" then args.drop 1 else args) with
  | [] => setStatus 0
  | [event] => trapAll none [event]
  | action :: events =>
    if action = "-" || (number? action).isSome then
      trapAll none (if action = "-" then events else action :: events)
    else trapAll (some action) events

/-- Removes escapes from a line: a line that ends in a backslash goes on. -/
def readEscaped : List Char → List Char × Bool × List Char
  | [] => ([], false, [])
  | '\n' :: rest => ([], true, rest)
  | '\\' :: '\n' :: rest => readEscaped rest
  | '\\' :: c :: rest =>
    let (line, ended, after) := readEscaped rest
    (c :: line, ended, after)
  | c :: rest =>
    let (line, ended, after) := readEscaped rest
    (c :: line, ended, after)

def readRaw : List Char → List Char × Bool × List Char
  | [] => ([], false, [])
  | '\n' :: rest => ([], true, rest)
  | c :: rest =>
    let (line, ended, after) := readRaw rest
    (c :: line, ended, after)

/-- Gives the first fields of a line to the first names and the rest of it to the last one. -/
def distribute (separators line : List Char) : List String → List (String × String)
  | [] => []
  | [name] =>
    let blank (c : Char) : Bool := separators.contains c && (c = ' ' || c = '\t')
    let line := line.dropWhile blank
    [(name, String.ofList (line.reverse.dropWhile blank).reverse)]
  | name :: names =>
    let line := line.dropWhile separators.contains
    let field := line.takeWhile fun c => !separators.contains c
    (name, String.ofList field) ::
      distribute separators ((line.drop field.length).drop 1) names

def readLine (args : List String) : Action Unit := do
  let raw := args.head? = some "-r"
  let names := if raw then args.drop 1 else args
  let p ← get
  let input := if p.streams.reads then p.shared.input else []
  let (line, ended, after) := if raw then readRaw input else readEscaped input
  let line := line.filter (· ≠ '\x00')
  let assigned := (distribute p.parameters.separators line names).foldl
    (fun (p : Process) (name, value) => p.setVariable name value) p
  let shared := if p.streams.reads then { p.shared with input := after } else p.shared
  set { assigned with shared, status := if ended then 0 else 1 }

def assigned? (text : String) : Option (String × String) :=
  let name := text.toList.takeWhile (· ≠ '=')
  match text.toList.drop name.length with
  | '=' :: value => some (String.ofList name, String.ofList value)
  | _ => none

def exportAll (args : List String) : Action Unit :=
  modify fun p => { args.foldl exportOne p with status := 0 }
where
  exportOne (p : Process) (arg : String) : Process :=
    match assigned? arg with
    | some (name, value) => (p.setVariable name value).exportVariable name
    | none => p.exportVariable arg

def compare? (operator : String) (a b : Nat) : Option Bool :=
  match operator with
  | "-eq" => some (a = b)
  | "-ne" => some (a ≠ b)
  | "-lt" => some (a < b)
  | "-le" => some (a ≤ b)
  | "-gt" => some (b < a)
  | "-ge" => some (b ≤ a)
  | _ => none

def test? (files : FileSystem) : List String → Option Bool
  | [] => some false
  | [text] => some (text ≠ "")
  | ["!", text] => some (text = "")
  | ["-n", text] => some (text ≠ "")
  | ["-z", text] => some (text = "")
  | ["-e", path] => some (files.pathExists path)
  | ["-x", path] => some (files.isExecutableFile path)
  | ["-d", path] => some (files.status path matches .ok .directory)
  | ["-f", path] => some (files.status path matches .ok (.file _ _))
  | ["-t", _] => some false
  | [a, "=", b] => some (a = b)
  | [a, "!=", b] => some (a ≠ b)
  | [a, operator, b] => do compare? operator (← number? a) (← number? b)
  | _ => none

def test (name : String) (args : List String) : Action Unit := do
  let args := if name = "[" then args.dropLast else args
  match test? (← get).shared.files args with
  | some answer => setStatus (if answer then 0 else 1)
  | none => failWith name ("unexpected operator")

/-- Waits for jobs. A signal that has an action ends the waiting. -/
def wait (args : List String) : Action Unit := do
  await
  let p ← get
  match p.pending with
  | number :: _ => setStatus (128 + number)
  | [] =>
    match args with
    | [] => set { p with jobs := [], status := 0 }
    | text :: _ =>
      match (number? text).bind fun n => p.jobs.find? (·.number = n) with
      | some job => setStatus job.ending.status
      | none => setStatus 127

def builtin? (name : String) (args : List String) : Option (Action Unit) :=
  match name with
  | ":" => some (setStatus 0)
  | "true" => some (setStatus 0)
  | "false" => some (setStatus 1)
  | "echo" => some (echo args)
  | "exit" => some (exit args)
  | "shift" => some (shift args)
  | "kill" => some (kill args)
  | "trap" => some (trap args)
  | "wait" => some (wait args)
  | "read" => some (readLine args)
  | "export" => some (exportAll args)
  | "unset" => some (modify fun p => { args.foldl Process.unsetVariable p with status := 0 })
  | "test" => some (test name args)
  | "[" => some (test name args)
  | _ => none

end Elevation.Shell
