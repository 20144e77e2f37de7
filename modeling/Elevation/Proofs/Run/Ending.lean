import Elevation.Proofs.Failure
import Elevation.Proofs.Run.Escalation

/-! How this process ends after a run. If a child was started and an exit is the first thing it
reports, the process ends as the child did and says nothing. If no child got started, the process
says why in one line and ends with the exit code that a shell gives to such a failure. Nothing else
that happens to the command makes a difference, and neither does the way in which it was run. -/

namespace Elevation

/-- The signals of Linux on x86-64: each number with the names that it has. -/
def Signal.linux : List (Nat × List String) :=
  [(1, ["SIGHUP"]), (2, ["SIGINT"]), (3, ["SIGQUIT"]), (4, ["SIGILL"]), (5, ["SIGTRAP"]),
   (6, ["SIGABRT", "SIGIOT"]), (7, ["SIGBUS"]), (8, ["SIGFPE"]), (9, ["SIGKILL"]),
   (10, ["SIGUSR1"]), (11, ["SIGSEGV"]), (12, ["SIGUSR2"]), (13, ["SIGPIPE"]), (14, ["SIGALRM"]),
   (15, ["SIGTERM"]), (16, ["SIGSTKFLT"]), (17, ["SIGCHLD"]), (18, ["SIGCONT"]),
   (19, ["SIGSTOP"]), (20, ["SIGTSTP"]), (21, ["SIGTTIN"]), (22, ["SIGTTOU"]), (23, ["SIGURG"]),
   (24, ["SIGXCPU"]), (25, ["SIGXFSZ"]), (26, ["SIGVTALRM"]), (27, ["SIGPROF"]),
   (28, ["SIGWINCH"]), (29, ["SIGIO", "SIGPOLL"]), (30, ["SIGPWR"]), (31, ["SIGSYS"])]

theorem Signal.number?_of_linux : ∀ entry ∈ linux, ∀ name ∈ entry.2,
    (Signal.mk name).number? = some entry.1 := by
  decide

namespace Run

variable {setting : Setting} {history : Command → History} {argv : List String} {env : Variables}
  {command : Command} {child : Child} {r : Run}

structure FailsWith (r : Run) (message : String) (code : Nat) : Prop where
  reported : r.controlCalls = .ok [.writeError ("run-elevated: " ++ message ++ "\n"), .exit code]
  silent : r.session.listeners = []

/-- The run tells why no command was started: under the name that was handed to the system, with a
reason and an exit code. Where what was thrown has no text, it cannot tell: then it answers with
what was thrown when the text was asked for, if the spawn call threw, and otherwise never. -/
structure AccountsFor (r : Run) (file : String) (spawned : Except Thrown Child) (thrown : Thrown) :
    Prop where
  silent : r.session.listeners = []
  explained : ∀ reason code, thrown.Explains reason code →
    r.FailsWith (file ++ ": " ++ reason) code
  passedOn : ∀ escaped, thrown.text = .error escaped → spawned = .error thrown →
    r.answer = some (.error escaped)
  lost : ∀ escaped child, thrown.text = .error escaped → spawned = .ok child → r.answer = none

/-- The spawn call throws, or an error is the first thing that its child reports. -/
def Obstructed (request : LaunchRequest) (h : History) (thrown : Thrown) : Prop :=
  h.spawned = .error thrown ∨
    ∃ child, h.spawned = .ok child ∧ (reports request child h).head? = some (.error thrown)

theorem failsWith_of_failure {failure : Failure} {message : String} {code : Nat}
    (hanswer : r.answer = some (.error (.failure failure))) (hlisteners : r.session.listeners = [])
    (hmessage : failure.message = message) (hcode : failure.exitCode = code) :
    r.FailsWith message code := by
  subst hmessage hcode
  refine ⟨?_, hlisteners⟩
  simp only [controlCalls, hanswer, ControlCall.ofAnswer, ControlCall.ofThrown,
    ControlCall.diagnostic]
  rfl

theorem argv_of_ofArgv? {argv : List String} (h : Command.ofArgv? argv = some command) :
    command.argv = argv ∧ command.file ≠ "" := by
  cases argv with
  | nil => cases h
  | cons file args =>
    by_cases hfile : file = ""
    · simp [Command.ofArgv?, hfile] at h
    · obtain rfl : ⟨file, args⟩ = command := by simpa [Command.ofArgv?, hfile] using h
      exact ⟨rfl, hfile⟩

theorem ofArgv?_eq_none_iff {argv : List String} :
    Command.ofArgv? argv = none ↔ argv = [] ∨ argv.head? = some "" := by
  cases argv <;> simp [Command.ofArgv?]

theorem failsWith_of_helperUnavailable {helper : String}
    (h : (verdict setting env).answer = .error (.failure (Failure.helperUnavailable helper)))
    (history : Command → History) (argv : List String) :
    (runAlong setting history argv env).session.calls = [] ∧
      (runAlong setting history argv env).FailsWith (helper ++ ": escalation helper not found")
        126 := by
  obtain ⟨hsession, hanswer⟩ := runAlong_of_error h history argv
  rw [hsession]
  exact ⟨rfl, failsWith_of_failure hanswer (by rw [hsession]; rfl) rfl rfl⟩

theorem failsWith_of_none {decision : Decision} (h : (verdict setting env).answer = .ok decision)
    (hargv : Command.ofArgv? (decision.argv argv) = none) :
    (runAlong setting history argv env).session.calls = [] ∧
      (runAlong setting history argv env).FailsWith "no command specified" 127 := by
  obtain ⟨hsession, hanswer⟩ := runAlong_of_decision h history argv
  rw [along_of_none hargv] at hsession hanswer
  rw [hsession]
  exact ⟨rfl, failsWith_of_failure hanswer (by rw [hsession]; rfl) rfl rfl⟩

theorem answer_of_obstructed {decision : Decision} {thrown : Thrown}
    (h : (verdict setting env).answer = .ok decision)
    (hargv : Command.ofArgv? (decision.argv argv) = some command)
    (hobstructed : Obstructed ⟨command.argv, .given, setting.terminalAttached⟩ (history command)
      thrown) :
    (runAlong setting history argv env).session.listeners = [] ∧
      (runAlong setting history argv env).answer =
        match thrown.toFailure command.file, (history command).spawned with
        | .ok failure, _ => some (.error (.failure failure))
        | .error escaped, .error _ => some (.error escaped)
        | .error _, .ok _ => none := by
  obtain ⟨hsession, hanswer⟩ := runAlong_of_decision h history argv
  rw [(argv_of_ofArgv? hargv).1] at hobstructed
  rw [hsession, hanswer]
  rcases hobstructed with hspawned | ⟨child, hspawned, hfirst⟩
  · rw [along_of_thrown hargv hspawned, hspawned, Thrown.rejection]
    refine ⟨rfl, ?_⟩
    cases thrown.toFailure command.file <;> rfl
  · obtain ⟨htold, hquiet⟩ := along_of_first_report hargv hspawned hfirst
    rw [htold, hspawned, Launch.settlement_error]
    refine ⟨hquiet, ?_⟩
    cases thrown.toFailure command.file <;> rfl

theorem accountsFor_of_obstructed {decision : Decision} {thrown : Thrown}
    (h : (verdict setting env).answer = .ok decision)
    (hargv : Command.ofArgv? (decision.argv argv) = some command)
    (hobstructed : Obstructed ⟨command.argv, .given, setting.terminalAttached⟩ (history command)
      thrown) :
    (runAlong setting history argv env).AccountsFor command.file (history command).spawned
      thrown := by
  obtain ⟨hsilent, hanswer⟩ := answer_of_obstructed h hargv hobstructed
  refine ⟨hsilent, ?_, ?_, ?_⟩
  · intro reason code hexplains
    obtain ⟨failure, hfailure, hmessage, hcode⟩ := hexplains.toFailure command.file
    exact failsWith_of_failure (by rw [hanswer, hfailure]) hsilent hmessage hcode
  · intro escaped hescaped hspawned
    rw [hanswer, Thrown.toFailure_eq_error_iff.2 hescaped, hspawned]
  · intro escaped child hescaped hspawned
    rw [hanswer, Thrown.toFailure_eq_error_iff.2 hescaped, hspawned]

theorem ending_of_decision {decision : Decision} (h : (verdict setting env).answer = .ok decision)
    (history : Command → History) (argv : List String) :
    let words := decision.argv argv
    let r := runAlong setting history argv env
    (words = [] ∨ words.head? = some "" →
      r.session.calls = [] ∧ r.FailsWith "no command specified" 127) ∧
    (¬ (words = [] ∨ words.head? = some "") →
      ∃ command, r.session.calls = [⟨command, .inherited, .given⟩] ∧
        command.argv = words ∧
        ∀ thrown, Obstructed ⟨command.argv, .given, setting.terminalAttached⟩ (history command)
            thrown →
          r.AccountsFor command.file (history command).spawned thrown) := by
  intro words r
  constructor
  · intro hempty
    exact failsWith_of_none h (ofArgv?_eq_none_iff.mpr hempty)
  · intro hgiven
    obtain ⟨command, hargv⟩ :=
      Option.ne_none_iff_exists'.mp fun hnone => hgiven (ofArgv?_eq_none_iff.mp hnone)
    refine ⟨command, ?_, (argv_of_ofArgv? hargv).1, fun _ => accountsFor_of_obstructed h hargv⟩
    rw [(runAlong_of_decision h history argv).1, along_calls hargv]

theorem found_of_not_direct {found : Option String} (hprobed : lookedUp setting env = .ok found)
    (hfree : ¬ (¬ env.get? "RUN_ELEVATED_DISABLE_SUDO" = some "1" ∧
      lookedUp setting env = .ok none ∧ (settings setting env).degradeWithoutHelper = false))
    (hdirect : ¬ (env.get? "RUN_ELEVATED_DISABLE_SUDO" = some "1" ∨
      lookedUp setting env = .ok none ∧ (settings setting env).degradeWithoutHelper = true)) :
    env.get? "RUN_ELEVATED_DISABLE_SUDO" ≠ some "1" ∧
      ∃ path, lookedUp setting env = .ok (some path) := by
  have henabled : env.get? "RUN_ELEVATED_DISABLE_SUDO" ≠ some "1" := fun h => hdirect (.inl h)
  cases found with
  | some path => exact ⟨henabled, path, hprobed⟩
  | none =>
    cases hdegrade : (settings setting env).degradeWithoutHelper with
    | true => exact absurd (.inr ⟨hprobed, hdegrade⟩) hdirect
    | false => exact absurd ⟨henabled, hprobed, hdegrade⟩ hfree

theorem ending_of_found (henabled : env.get? "RUN_ELEVATED_DISABLE_SUDO" ≠ some "1")
    {path : String} (hfound : lookedUp setting env = .ok (some path))
    (history : Command → History) (argv : List String) :
    let r := runAlong setting history argv env
    ∃ command, r.session.calls = [⟨command, .inherited, .given⟩] ∧
      command.argv =
        (settings setting env).helper :: (settings setting env).preserveEnvFlag :: argv ∧
      ∀ thrown, Obstructed ⟨command.argv, .given, setting.terminalAttached⟩ (history command)
          thrown →
        r.AccountsFor command.file (history command).spawned thrown := by
  intro r
  have hend := ending_of_decision (verdict_of_lookedUp henabled hfound) history argv
  have hhelper := (settings_usable setting env).helper_ne_empty
  exact hend.2 (by simpa [Decision.argv] using hhelper)

end Run

/-- For every setting, with any file and any answer of the probe, for every command that a run hands
to the system, whichever way it decided: if there is a child, and an exit is the first thing that it
reports, the process exits with the code of the child, or takes the exit code of the signal that
ended the child and then raises that signal. -/
theorem exit_status_reaches_process (setting : Setting) (history : Command → History)
    (argv : List String) (env : Variables) {command : Command} {child : Child}
    {code : Option Int} {signal : Option Signal}
    (hcall : (runAlong setting history argv env).session.calls = [⟨command, .inherited, .given⟩])
    (hchild : (history command).spawned = .ok child)
    (hfirst : (Run.reports ⟨command.argv, .given, setting.terminalAttached⟩ child
      (history command)).head? = some (.exit code signal)) :
    let calls := (runAlong setting history argv env).controlCalls
    (signal = none → calls = .ok [.exit (code.getD 1)]) ∧
    (∀ number names, (number, names) ∈ Signal.linux → ∀ name ∈ names, signal = some ⟨name⟩ →
      calls = .ok [.setExitCode (some (128 + number)), .raise ⟨name⟩]) := by
  intro calls
  obtain ⟨decision, hverdict, hargv⟩ := Run.decision_of_calls hcall
  rw [(Run.argv_of_ofArgv? hargv).1] at hfirst
  obtain ⟨-, hanswer⟩ := Run.runAlong_of_decision hverdict history argv
  rw [(Run.along_of_first_report hargv hchild hfirst).1] at hanswer
  constructor
  · rintro rfl
    simp only [calls, Run.controlCalls, hanswer]
    rfl
  · rintro number names hnumber name hname rfl
    have hfound : (Signal.mk name).number? = some number :=
      Signal.number?_of_linux _ hnumber name hname
    simp only [calls, Run.controlCalls, hanswer, Launch.settlement, Settlement.answer?,
      ControlCall.ofAnswer, ControlCall.ofOutcome, hfound]
    rfl

theorem exit_status_reaches_process_from_sudo :
    let files : FileSystem := ⟨[(["etc"], .directory), (["etc", "run.yaml"],
      .file (Text.Utf8.encode "privilege: [".toList) 0o644)], []⟩
    let course : Command → Course := fun _ =>
      ⟨.ok ⟨none, false⟩, [.hup], [.exit none (some ⟨"SIGKILL"⟩), .exit (some 0) none]⟩
    let setting : Setting :=
      ⟨files, "/root", false, fun name _ => .ok (some ("/bin/" ++ name)), course⟩
    let env : Variables := [("RUN_ELEVATED_CONFIG", "/etc/run.yaml")]
    (run setting ["id"] env).session.calls = [⟨⟨"sudo", ["-E", "id"]⟩, .inherited, .given⟩] ∧
      (run setting ["id"] env).controlCalls =
        .ok [.setExitCode (some 137), .raise ⟨"SIGKILL"⟩] := by
  intro files course setting env
  have hcall : (run setting ["id"] env).session.calls =
      [⟨⟨"sudo", ["-E", "id"]⟩, .inherited, .given⟩] := by decide +kernel
  refine ⟨hcall, ?_⟩
  rw [run] at hcall ⊢
  have hfirst : (Run.reports ⟨["sudo", "-E", "id"], .given, false⟩ ⟨none, false⟩
      (course ⟨"sudo", ["-E", "id"]⟩).history).head? = some (.exit none (some ⟨"SIGKILL"⟩)) := rfl
  have hkill : (9, ["SIGKILL"]) ∈ Signal.linux := by decide
  exact (exit_status_reaches_process setting _ ["id"] env hcall rfl hfirst).2 9 _ hkill "SIGKILL"
    (List.mem_singleton_self _) rfl

/-- For every probe that does not throw. A missing helper that may not be passed over ends the
process with 126, and so does everything that keeps a command from being started, except that it
does not exist: that ends the process with 127, like a command line without a command. What was
handed to the system is named, the helper if the command was to run through it. All this holds of
whatever is thrown and has a text; a value without one is not accounted for. -/
theorem failure_reaches_process (setting : Setting) (history : Command → History)
    (hprobe : ∀ name searchPath, ∃ found, setting.probe name searchPath = .ok found)
    (argv : List String) (env : Variables) :
    let privilege := Run.settings setting env
    let disabled := env.get? "RUN_ELEVATED_DISABLE_SUDO" = some "1"
    let missing := Run.lookedUp setting env = .ok none
    let barred := ¬ disabled ∧ missing ∧ privilege.degradeWithoutHelper = false
    let direct := disabled ∨ missing ∧ privilege.degradeWithoutHelper = true
    let empty := argv = [] ∨ argv.head? = some ""
    let r := runAlong setting history argv env
    (barred → r.session.calls = [] ∧
      r.FailsWith (privilege.helper ++ ": escalation helper not found") 126) ∧
    (direct ∧ empty → r.session.calls = [] ∧ r.FailsWith "no command specified" 127) ∧
    (¬ barred → ¬ (direct ∧ empty) →
      ∃ command, r.session.calls = [⟨command, .inherited, .given⟩] ∧
        (direct → command.argv = argv) ∧
        (¬ direct → command.argv = privilege.helper :: privilege.preserveEnvFlag :: argv) ∧
        ∀ thrown,
          Run.Obstructed ⟨command.argv, .given, setting.terminalAttached⟩ (history command)
            thrown →
          r.AccountsFor command.file (history command).spawned thrown) := by
  intro privilege disabled missing barred direct empty r
  have hdecision (h : direct) : ∃ decision, (Run.verdict setting env).answer = .ok decision ∧
      ∀ invocation, decision.argv invocation = invocation := by
    apply Run.verdict_of_unescalated
    by_cases hdisabled : disabled
    · exact .inl hdisabled
    · exact .inr ⟨hdisabled, h.resolve_left hdisabled⟩
  refine ⟨?_, ?_, ?_⟩
  · rintro ⟨henabled, hmissing, hstrict⟩
    have hverdict := Run.verdict_of_lookedUp henabled hmissing
    rw [if_neg (by simpa using hstrict)] at hverdict
    exact Run.failsWith_of_helperUnavailable hverdict history argv
  · rintro ⟨hdirect, hempty⟩
    obtain ⟨decision, hverdict, hargv⟩ := hdecision hdirect
    have hend := Run.ending_of_decision hverdict history argv
    rw [hargv] at hend
    exact hend.1 hempty
  · intro hfree hgiven
    by_cases hdirect : direct
    · obtain ⟨decision, hverdict, hargv⟩ := hdecision hdirect
      have hend := Run.ending_of_decision hverdict history argv
      rw [hargv] at hend
      obtain ⟨command, hcalls, hhead, hfails⟩ := hend.2 fun hempty => hgiven ⟨hdirect, hempty⟩
      exact ⟨command, hcalls, fun _ => hhead, fun hnot => absurd hdirect hnot, hfails⟩
    · obtain ⟨found, hprobed⟩ : ∃ found, Run.lookedUp setting env = .ok found := hprobe _ _
      obtain ⟨henabled, path, hfound⟩ := Run.found_of_not_direct hprobed hfree hdirect
      obtain ⟨command, hcalls, hfile, hfails⟩ :=
        Run.ending_of_found henabled hfound history argv
      exact ⟨command, hcalls, fun h => absurd h hdirect, fun _ => hfile, hfails⟩

/-- There is no config file. Spawning the helper that was found throws a value; and where escalation
is disabled, the child of the command reports an error with an empty code. -/
theorem failure_reaches_process_from_sudo :
    let listed : Datum :=
      .array [.number (Number.ofRatio false 3 2), .null, .array [.boolean true], .object []]
    let course : Command → Course := fun command =>
      if command.file = "sudo" then ⟨.error (.value listed), [.term], []⟩
      else ⟨.ok ⟨none, false⟩, [], [.error (.error "spawn id" (some "")), .exit (some 0) none]⟩
    let setting : Setting :=
      ⟨⟨[], []⟩, "/root", false, fun name _ => .ok (some ("/bin/" ++ name)), course⟩
    let disabled : Variables := [("RUN_ELEVATED_DISABLE_SUDO", "1")]
    (∀ name searchPath, ∃ found, setting.probe name searchPath = .ok found) ∧
      (run setting ["id"] []).FailsWith "sudo: 1.5,,true,[object Object]" 126 ∧
      (run setting ["id"] disabled).FailsWith "id: " 126 := by
  intro listed course setting disabled
  have hprobe : ∀ name searchPath, ∃ found, setting.probe name searchPath = .ok found :=
    fun _ _ => ⟨_, rfl⟩
  have hsudo : (Run.settings setting []).helper = "sudo" := by decide +kernel
  have hfound (env : Variables) : Run.lookedUp setting env ≠ .ok none := by
    intro hnone
    cases hnone
  have h (env : Variables) := failure_reaches_process setting
    (fun command => (setting.course command).history) hprobe ["id"] env
  refine ⟨hprobe, ?_, ?_⟩
  · obtain ⟨-, -, hgiven⟩ := h []
    have hescalated : ¬ (Variables.get? [] "RUN_ELEVATED_DISABLE_SUDO" = some "1" ∨
        Run.lookedUp setting [] = .ok none ∧
          (Run.settings setting []).degradeWithoutHelper = true) := by
      rintro (hdisabled | hdirect)
      · cases hdisabled
      · exact hfound [] hdirect.1
    obtain ⟨command, -, -, hargv, haccounts⟩ :=
      hgiven (fun hbarred => hfound [] hbarred.2.1) fun h => hescalated h.1
    have hname : command.file = "sudo" := by
      rw [← hsudo]
      exact List.head_eq_of_cons_eq (hargv hescalated)
    have hspawned : (course command).history.spawned = .error (.value listed) := by
      simp [course, hname, Course.history]
    have hsays : (Thrown.value listed).Says "1.5,,true,[object Object]" :=
      .value (Datum.text_eq_ok_iff.1 rfl)
    have htold := (haccounts _ (.inl hspawned)).explained _ _ (.said (fun _ => nofun) hsays)
    rw [hname] at htold
    exact htold
  · obtain ⟨-, -, hgiven⟩ := h disabled
    obtain ⟨command, -, hargv, -, haccounts⟩ :=
      hgiven (fun hbarred => hfound disabled hbarred.2.1) (by simp)
    obtain rfl : command = ⟨"id", []⟩ := by
      cases command
      simpa [Command.argv] using hargv (.inl rfl)
    have hempty : (Thrown.error "spawn id" (some "")).HasCode "" := .error _ _
    exact (haccounts _ (.inr ⟨_, rfl, rfl⟩)).explained _ _
      (.coded hempty (by decide) (by decide))

/-- A value that cannot be asked for its text is no reason at all: if the spawn call throws it, the
process says what was thrown in its stead and ends with 1, and if the child reports it, the run
never answers, although nothing listens any more. -/
theorem value_without_text_reaches_process :
    let mute : Thrown := .value (.object [("toString", .null)])
    let throws : Command → Course := fun _ => ⟨.error mute, [], []⟩
    let reports : Command → Course := fun _ => ⟨.ok ⟨none, false⟩, [], [.error mute]⟩
    let setting : (Command → Course) → Setting :=
      fun course => ⟨⟨[], []⟩, "/root", false, fun _ _ => .ok none, course⟩
    let disabled : Variables := [("RUN_ELEVATED_DISABLE_SUDO", "1")]
    (run (setting throws) ["id"] disabled).controlCalls =
      .ok [.writeError "run-elevated: Cannot convert object to primitive value\n", .exit 1] ∧
    (run (setting reports) ["id"] disabled).answer = none ∧
    (run (setting reports) ["id"] disabled).session.listeners = [] :=
  ⟨rfl, rfl, rfl⟩

end Elevation
