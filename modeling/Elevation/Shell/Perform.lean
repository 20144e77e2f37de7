import Elevation.Shell.Builtin
import Elevation.Shell.Script

/-! Performing scripts and running programs, with fuel: every loop and every call of another program
uses some of it. `follow` runs a program to its end. -/

namespace Elevation.Shell

def reason : Errno → String × Nat
  | .accessDenied => ("Permission denied", 126)
  | .tooManyLinks => ("Too many levels of symbolic links", 127)
  | .nameTooLong => ("File name too long", 127)
  | .isDirectory => ("Is a directory", 126)
  | .invalidArgument => ("Invalid argument", 126)
  | .noEntry => ("not found", 127)
  | .notDirectory => ("not found", 127)

def notice? (number : Nat) : Option String :=
  [(1, "Hangup"), (3, "Quit"), (4, "Illegal instruction"), (5, "Trace/breakpoint trap"),
   (6, "Aborted"), (7, "Bus error"), (8, "Floating point exception"), (9, "Killed"),
   (10, "User defined signal 1"), (11, "Segmentation fault"), (12, "User defined signal 2"),
   (14, "Alarm clock"), (15, "Terminated"), (16, "Stack fault"), (24, "CPU time limit exceeded"),
   (25, "File size limit exceeded"), (26, "Virtual timer expired"),
   (27, "Profiling timer expired"), (29, "I/O possible"), (30, "Power failure"),
   (31, "Bad system call")].lookup number

/-- Tries every place. Of the reasons why nothing can be run, the last one counts that is not that
something is missing. -/
def tryPlaces (fs : FileSystem) (args : List String) (worst : Errno) :
    List String → Except Errno Program
  | [] => .error worst
  | path :: rest =>
    match Program.load fs Program.interpreterLimit path args with
    | .ok program => .ok program
    | .error .noEntry => tryPlaces fs args worst rest
    | .error .notDirectory => tryPlaces fs args worst rest
    | .error errno => tryPlaces fs args errno rest

def locate (p : Process) (name : String) (args : List String) : Except Errno Program :=
  if SearchPath.hasSlash name then
    Program.load p.shared.files Program.interpreterLimit name args
  else
    let searchPath := (p.bindings.get? LaunchEnvironment.searchPathVariable).getD ""
    tryPlaces p.shared.files args .noEntry
      ((SearchPath.entries searchPath).map (SearchPath.plainCandidate name))

def finish (action : Action Unit) (p : Process) : Ending × Shared :=
  match action.run.run p with
  | (.ok (), q) => (.exited q.status, q.shared)
  | (.error ending, q) => (ending, q.shared)

def withRedirects (redirects : List Redirect) (action : Action Unit) : Action Unit := do
  let before := (← get).streams
  modify fun p => redirects.foldl Process.redirect p
  action
  modify fun p => { p with streams := before }

def assign (assignments : List (String × Word)) : Action Unit :=
  assignments.forM fun (name, word) =>
    modify fun p => p.setVariable name (p.parameters.text word)

def withAssignments (assignments : List (String × Word)) (action : Action Unit) : Action Unit := do
  let before ← get
  assign assignments
  action
  assignments.forM fun (name, _) =>
    modify fun p =>
      match before.bindings.get? name with
      | some value => p.setVariable name value
      | none => { p with bindings := p.bindings.filter (·.1 ≠ name) }

def exportAssigned (assignments : List (String × Word)) (p : Process) : Process :=
  assignments.foldl
    (fun q (name, word) => (q.setVariable name (p.parameters.text word)).exportVariable name) p

def subshell (p : Process) : Process :=
  { p with
    hears := false
    traps := p.traps.filter (·.2 = "")
    pending := []
    jobs := []
    streams := { p.streams with reads := false } }

mutual

def perform : (fuel : Nat) → Command → Action Unit
  | 0, _ => throw .never
  | fuel + 1, command =>
    match command with
    | .simple line assignments words redirects => do
      modify fun p => { p with line }
      let p ← get
      match words.flatMap p.parameters.fields with
      | [] =>
        assign assignments
        setStatus 0
      | name :: args => performNamed fuel assignments redirects name args
      runTraps fuel
    | .group body redirects => withRedirects redirects (body.forM (perform fuel))
    | .forEach name words body => do
      let p ← get
      setStatus 0
      (words.flatMap p.parameters.fields).forM fun value => do
        modify fun p => p.setVariable name value
        body.forM (perform fuel)
    | .loop negated condition body => do
      setStatus 0
      performLoop fuel negated condition body
    | .branch condition body otherwise => do
      condition.forM (perform fuel)
      if (← get).status = 0 then body.forM (perform fuel)
      else
        setStatus 0
        otherwise.forM (perform fuel)
    | .both first second => do
      perform fuel first
      if (← get).status = 0 then perform fuel second
    | .either first second => do
      perform fuel first
      if (← get).status ≠ 0 then perform fuel second
    | .background body => do
      let p ← get
      let (ending, shared) := finish (perform fuel body) (subshell p)
      let job : Job := ⟨Process.ownNumber + 1 + p.jobs.length, ending⟩
      set { p with shared, jobs := job :: p.jobs, status := 0 }

def performLoop : (fuel : Nat) → Bool → List Command → List Command → Action Unit
  | 0, _, _, _ => throw .never
  | fuel + 1, negated, condition, body => do
    let before := (← get).status
    condition.forM (perform fuel)
    if ((← get).status = 0) = !negated then
      body.forM (perform fuel)
      performLoop fuel negated condition body
    else setStatus before

def performNamed : (fuel : Nat) → List (String × Word) → List Redirect → String → List String →
    Action Unit
  | 0, _, _, _, _ => throw .never
  | fuel + 1, assignments, redirects, name, args =>
    match name, args with
    | "exec", [] => do
      assign assignments
      modify fun p => { redirects.foldl Process.redirect p with status := 0 }
    | "exec", name :: args => withRedirects redirects do
      let p := exportAssigned assignments (← get)
      match locate p name args with
      | .ok program =>
        let (ending, shared) := finish (runProgram fuel program) p.renewed
        set { p with shared }
        throw ending
      | .error errno =>
        complain ("exec: " ++ name ++ ": " ++ (reason errno).1)
        throw (.exited (reason errno).2)
    | _, _ => withRedirects redirects do
      match builtin? name args with
      | some action =>
        if specialNames.contains name then
          assign assignments
          action
        else withAssignments assignments action
      | none =>
        let p ← get
        match locate p name args with
        | .ok program =>
          let (ending, shared) :=
            finish (runProgram fuel program) (exportAssigned assignments p).child
          set { p with shared }
          await
          match ending with
          | .never => throw .never
          | .killed number => ((notice? number).toList).forM fun text => write 2 (text ++ "\n")
          | .exited _ => pure ()
          setStatus ending.status
        | .error errno =>
          complain (name ++ ": " ++ (reason errno).1)
          setStatus (reason errno).2

/-- Runs the actions of signals that have come in; they leave the status as it was. -/
def runTraps : (fuel : Nat) → Action Unit
  | 0 => throw .never
  | fuel + 1 => do
    let p ← get
    set { p with pending := [] }
    p.pending.forM fun number => do
      (p.traps.lookup number).toList.forM (performText fuel)
      setStatus p.status

def performText : (fuel : Nat) → String → Action Unit
  | 0, _ => throw .never
  | fuel + 1, text =>
    match script? text.toList with
    | some commands => commands.forM (perform fuel)
    | none => do
      complain "Syntax error"
      throw (.exited 2)

def runScript : (fuel : Nat) → String → Action Unit
  | 0, _ => throw .never
  | fuel + 1, text => do
    let ending ← tryCatch (do performText fuel text; return .exited (← get).status) pure
    match ending with
    | .exited code => do
      setStatus code
      let p ← get
      set { p with traps := p.traps.filter (·.1 ≠ 0) }
      (p.traps.lookup 0).toList.forM (performText fuel)
      setStatus code
    | ending => throw ending

def runProgram : (fuel : Nat) → Program → Action Unit
  | 0, _ => throw .never
  | fuel + 1, program =>
    match program.tool, program.args with
    | "sh", "-c" :: text :: rest => do
      modify fun p => { p with name := rest.headD "sh", args := rest.drop 1 }
      runScript fuel text
    | "sh", path :: args => do
      match (← get).shared.files.read path with
      | .ok content =>
        modify fun p => { p with name := path, args }
        runScript fuel (String.ofList (Text.Utf8.decode content))
      | .error errno =>
        write 2 ("/bin/sh: 0: cannot open " ++ path ++ ": " ++
          (if errno = .noEntry then "No such file" else (reason errno).1) ++ "\n")
        setStatus 2
    | "sleep", _ => await
    | "false", _ => setStatus 1
    | "echo", args => write 1 (" ".intercalate args ++ "\n")
    | "cat", [] => do
      let p ← get
      if p.streams.reads then
        set { p with shared := { p.shared with input := [] } }
        write 1 (String.ofList p.shared.input)
    | "env", name :: args => do
      let p ← get
      match locate p name args with
      | .ok program => runProgram fuel program
      | .error errno =>
        let text :=
          if errno = .accessDenied then "Permission denied" else "No such file or directory"
        write 2 ("env: '" ++ name ++ "': " ++ text ++ "\n")
        setStatus (reason errno).2
    | _, _ => setStatus 0

end

/-- How far loops and calls are followed. -/
def depth (s : Shared) : Nat := s.input.length + 10000

def isName (text : String) : Bool :=
  match text.toList with
  | [] => false
  | c :: rest => isNameStart c && rest.all isNameChar

def startVariables (directory : String) (env : Variables) : Variables :=
  let kept := env.filter fun (name, _) =>
    isName name && name ≠ Process.separatorsVariable && name ≠ "PWD"
  let own := [("PWD", directory), (Process.separatorsVariable, Process.standardSeparators)]
  let missing :=
    if (env.get? LaunchEnvironment.searchPathVariable).isSome then []
    else [(LaunchEnvironment.searchPathVariable, Process.standardSearchPath)]
  own ++ kept ++ missing

def Process.start (shared : Shared) (env : Variables) : Process where
  shared := shared
  name := "sh"
  args := []
  bindings := startVariables ("/" ++ "/".intercalate shared.files.current) env
  exported := "PWD" :: env.map (·.1)
  streams := ⟨true, .output, .errors⟩
  status := 0
  line := 0
  traps := []
  pending := []
  jobs := []
  hears := true

def follow (shared : Shared) (env : Variables) (program : Program) : Ending × Shared :=
  finish (runProgram (depth shared) program) (Process.start shared env)

end Elevation.Shell
