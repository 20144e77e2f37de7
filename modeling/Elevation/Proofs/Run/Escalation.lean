import Elevation.Proofs.Config.Loading
import Elevation.Proofs.Run.History

/-! When a command runs through the helper. The disabling variable, the answer of the probe and the
setting for a missing helper decide it, in this order and alone, and the command reaches the spawn
call word for word. -/

namespace Elevation

namespace Run

def verdict (setting : Setting) (env : Variables) : Decision.Verdict :=
  let environment := LaunchEnvironment.read setting.home env
  Decision.decide environment (Config.load setting.files environment.configPath).config.privilege
    setting.probe

/-- The run answers with a failure of this kind, with this code, exit code and message. -/
def Rejects (r : Run) (kind : FailureKind) (code : String) (exitCode : Nat) (message : String) :
    Prop :=
  ∃ failure, r.answer = some (.error (.failure failure)) ∧ failure.kind = kind ∧
    failure.kind.code = code ∧ failure.exitCode = exitCode ∧ failure.message = message

def LacksCommand (r : Run) : Prop :=
  r.Rejects .noCommand "NO_COMMAND" 127 "no command specified" ∧ r.session.calls = []

/-- A command line without a file name is no command. Any other is handed to one spawn call, with
the streams of this process and the environment that the run was given. -/
def Spawns (r : Run) : List String → Prop
  | [] => r.LacksCommand
  | file :: args =>
    if file = "" then r.LacksCommand
    else r.session.calls = [⟨⟨file, args⟩, .inherited, .given⟩]

variable {setting : Setting} {history : Command → History} {env : Variables}

theorem runAlong_lookups (setting : Setting) (history : Command → History)
    (invocation : List String) (env : Variables) :
    (runAlong setting history invocation env).lookups = (verdict setting env).lookups := by
  cases h : (verdict setting env).answer <;>
    · unfold verdict at h ⊢
      simp [runAlong, h]

theorem runAlong_of_error {thrown : Thrown} (h : (verdict setting env).answer = .error thrown)
    (history : Command → History) (invocation : List String) :
    (runAlong setting history invocation env).session = Session.initial ∧
      (runAlong setting history invocation env).answer = some (.error thrown) := by
  unfold verdict at h
  simp [runAlong, h]

theorem runAlong_of_decision {decision : Decision} (h : (verdict setting env).answer = .ok decision)
    (history : Command → History) (invocation : List String) :
    let launched := along history ⟨decision.argv invocation, .given, setting.terminalAttached⟩
    (runAlong setting history invocation env).session = launched.1 ∧
      (runAlong setting history invocation env).answer = launched.2 := by
  unfold verdict at h
  simp [runAlong, h]

theorem decision_of_calls {command : Command} {invocation : List String}
    (h : (runAlong setting history invocation env).session.calls =
      [⟨command, .inherited, .given⟩]) :
    ∃ decision, (verdict setting env).answer = .ok decision ∧
      Command.ofArgv? (decision.argv invocation) = some command := by
  cases hverdict : (verdict setting env).answer with
  | error thrown =>
    rw [(runAlong_of_error hverdict history invocation).1] at h
    cases h
  | ok decision =>
    rw [(runAlong_of_decision hverdict history invocation).1] at h
    refine ⟨decision, rfl, ?_⟩
    cases hargv : Command.ofArgv? (decision.argv invocation) with
    | none =>
      rw [along_of_none hargv] at h
      cases h
    | some other =>
      rw [along_calls hargv] at h
      cases h
      rfl

theorem run_lookups (setting : Setting) (invocation : List String) (env : Variables) :
    (run setting invocation env).lookups = (verdict setting env).lookups :=
  runAlong_lookups _ _ _ _

theorem run_of_error {thrown : Thrown} (h : (verdict setting env).answer = .error thrown)
    (invocation : List String) : (run setting invocation env).answer = some (.error thrown) ∧
      (run setting invocation env).session.calls = [] := by
  obtain ⟨hsession, hanswer⟩ :=
    runAlong_of_error h (fun command => (setting.course command).history) invocation
  exact ⟨hanswer, congrArg Session.calls hsession⟩

theorem run_of_decision {decision : Decision} (h : (verdict setting env).answer = .ok decision)
    (invocation : List String) :
    (run setting invocation env).Spawns (decision.argv invocation) := by
  obtain ⟨hsession, hanswer⟩ :=
    runAlong_of_decision h (fun command => (setting.course command).history) invocation
  have hlacks (hnone : Command.ofArgv? (decision.argv invocation) = none) :
      (run setting invocation env).LacksCommand := by
    rw [along_of_none hnone] at hsession hanswer
    rw [LacksCommand, run, hsession]
    exact ⟨⟨_, hanswer, rfl, rfl, rfl, rfl⟩, rfl⟩
  cases hargv : decision.argv invocation with
  | nil => exact hlacks (by rw [hargv]; rfl)
  | cons file args =>
    rw [Spawns]
    split
    next hfile => exact hlacks (by simp [hargv, Command.ofArgv?, hfile])
    next hfile =>
      rw [run, hsession]
      exact along_calls (by simp [hargv, Command.ofArgv?, hfile])

theorem decide_of_lookup {probe : Probe} {lookup : String → String → Option String}
    (hprobe : ∀ name searchPath, probe name searchPath = .ok (lookup name searchPath))
    (environment : LaunchEnvironment) (privilege : Privilege) :
    Decision.decide environment privilege probe =
      if environment.escalationDisabled then ⟨.ok .direct, []⟩
      else
        ⟨match lookup privilege.helper environment.searchPath with
          | some found => .ok (.escalated privilege.helper found privilege.preserveEnvFlag)
          | none =>
            if privilege.degradeWithoutHelper then .ok (.directFallback privilege.helper)
            else .error (.failure (Failure.helperUnavailable privilege.helper)),
          [(privilege.helper, environment.searchPath)]⟩ := by
  unfold Decision.decide
  rw [hprobe]
  split
  · rfl
  · cases lookup privilege.helper environment.searchPath with
    | some found => rfl
    | none => cases privilege.degradeWithoutHelper <;> rfl

theorem read_eq (home : String) (env : Variables) : LaunchEnvironment.read home env =
    ⟨env.get? "RUN_ELEVATED_DISABLE_SUDO" = some "1", (env.get? "PATH").getD "",
      ((env.get? "RUN_ELEVATED_CONFIG").filter (· ≠ "")).getD
        (LaunchEnvironment.defaultConfigPath home)⟩ := by
  unfold LaunchEnvironment.read LaunchEnvironment.configVariable
    LaunchEnvironment.disableVariable LaunchEnvironment.searchPathVariable
  cases env.get? "RUN_ELEVATED_CONFIG" with
  | none => rfl
  | some path => by_cases he : path = "" <;> simp [he, Option.filter]

def settings (setting : Setting) (env : Variables) : Privilege :=
  (Config.load setting.files (LaunchEnvironment.read setting.home env).configPath).config.privilege

/-- What the probe answers when a run looks its helper up. -/
def lookedUp (setting : Setting) (env : Variables) : Except Thrown (Option String) :=
  setting.probe (settings setting env).helper (LaunchEnvironment.read setting.home env).searchPath

theorem settings_usable (setting : Setting) (env : Variables) : (settings setting env).Usable :=
  Config.load_usable _ _

theorem verdict_of_disabled (setting : Setting)
    (h : env.get? "RUN_ELEVATED_DISABLE_SUDO" = some "1") :
    (verdict setting env).answer = .ok .direct := by
  simp [verdict, Decision.decide, LaunchEnvironment.read, LaunchEnvironment.disableVariable, h]

theorem verdict_of_lookedUp (h : env.get? "RUN_ELEVATED_DISABLE_SUDO" ≠ some "1")
    {found : Option String} (hfound : lookedUp setting env = .ok found) :
    (verdict setting env).answer =
      match found with
      | some path =>
        .ok (.escalated (settings setting env).helper path (settings setting env).preserveEnvFlag)
      | none =>
        if (settings setting env).degradeWithoutHelper then
          .ok (.directFallback (settings setting env).helper)
        else .error (.failure (Failure.helperUnavailable (settings setting env).helper)) := by
  have henabled : (LaunchEnvironment.read setting.home env).escalationDisabled = false := by
    simp [LaunchEnvironment.read, LaunchEnvironment.disableVariable, h]
  have hverdict : verdict setting env = Decision.decide
      (LaunchEnvironment.read setting.home env) (settings setting env) setting.probe := rfl
  rw [lookedUp] at hfound
  rw [hverdict, Decision.decide, henabled, hfound]
  cases found with
  | some path => rfl
  | none => cases (settings setting env).degradeWithoutHelper <;> rfl

/-- A command is run as it is if escalation is disabled, and also if the helper is missing and may
be passed over. -/
def Unescalated (setting : Setting) (env : Variables) : Prop :=
  env.get? "RUN_ELEVATED_DISABLE_SUDO" = some "1" ∨
    env.get? "RUN_ELEVATED_DISABLE_SUDO" ≠ some "1" ∧ lookedUp setting env = .ok none ∧
      (settings setting env).degradeWithoutHelper = true

theorem verdict_of_unescalated (h : Unescalated setting env) :
    ∃ decision, (verdict setting env).answer = .ok decision ∧
      ∀ invocation, decision.argv invocation = invocation := by
  rcases h with hdisabled | ⟨henabled, hmissing, hdegrade⟩
  · exact ⟨.direct, verdict_of_disabled setting hdisabled, fun _ => rfl⟩
  · have hverdict := verdict_of_lookedUp henabled hmissing
    simp only [hdegrade, if_true] at hverdict
    exact ⟨_, hverdict, fun _ => rfl⟩

end Run

/-- For every probe that does not throw. A disabled escalation asks no probe and runs the command as
it is. Otherwise the probe is asked once, for the configured helper in the search path: what it
finds, even an empty path, makes the command run through the helper, which is never an empty name;
if it finds nothing, the command runs as it is or not at all, as the configuration says. -/
theorem run_escalates_as_decided (setting : Setting) (lookup : String → String → Option String)
    (hprobe : ∀ name searchPath, setting.probe name searchPath = .ok (lookup name searchPath))
    (invocation : List String) (env : Variables) :
    let configPath := ((env.get? "RUN_ELEVATED_CONFIG").filter (· ≠ "")).getD
      (LaunchEnvironment.defaultConfigPath setting.home)
    let privilege := (Config.load setting.files configPath).config.privilege
    let searchPath := (env.get? "PATH").getD ""
    let r := run setting invocation env
    privilege.helper ≠ "" ∧
    (env.get? "RUN_ELEVATED_DISABLE_SUDO" = some "1" →
      r.lookups = [] ∧ r.Spawns invocation) ∧
    (env.get? "RUN_ELEVATED_DISABLE_SUDO" ≠ some "1" →
      r.lookups = [(privilege.helper, searchPath)] ∧
      (∀ found, lookup privilege.helper searchPath = some found →
        r.session.calls = [⟨⟨privilege.helper, privilege.preserveEnvFlag :: invocation⟩,
          .inherited, .given⟩]) ∧
      (lookup privilege.helper searchPath = none → privilege.degradeWithoutHelper = true →
        r.Spawns invocation) ∧
      (lookup privilege.helper searchPath = none → privilege.degradeWithoutHelper = false →
        r.Rejects .helperUnavailable "HELPER_UNAVAILABLE" 126
          (privilege.helper ++ ": escalation helper not found") ∧
        r.session.calls = [])) := by
  intro configPath privilege searchPath r
  have hrun : Run.verdict setting env = Decision.decide
      ⟨env.get? "RUN_ELEVATED_DISABLE_SUDO" = some "1", searchPath, configPath⟩ privilege
      setting.probe := by
    rw [Run.verdict, Run.read_eq]
  rw [Run.decide_of_lookup hprobe] at hrun
  have hlookups : r.lookups = (Run.verdict setting env).lookups := Run.run_lookups _ _ _
  have hhelper : privilege.helper ≠ "" :=
    (Config.load_usable setting.files configPath).helper_ne_empty
  refine ⟨hhelper, ?_, ?_⟩
  · intro hdisabled
    simp only [hdisabled, decide_true, if_true] at hrun
    exact ⟨by rw [hlookups, hrun], Run.run_of_decision (by rw [hrun]) invocation⟩
  · intro henabled
    simp only [henabled, decide_false, Bool.false_eq_true, if_false] at hrun
    refine ⟨by rw [hlookups, hrun], ?_, ?_, ?_⟩
    · intro found hfound
      have hescalated : (Run.verdict setting env).answer =
          .ok (.escalated privilege.helper found privilege.preserveEnvFlag) := by
        rw [hrun, hfound]
      simpa [Run.Spawns, Decision.argv, hhelper] using
        Run.run_of_decision hescalated invocation
    · intro hmissing hdegrade
      have hfallback : (Run.verdict setting env).answer =
          .ok (.directFallback privilege.helper) := by
        rw [hrun, hmissing, hdegrade]
        rfl
      exact Run.run_of_decision hfallback invocation
    · intro hmissing hstrict
      have hbarred : (Run.verdict setting env).answer =
          .error (.failure (Failure.helperUnavailable privilege.helper)) := by
        rw [hrun, hmissing, hstrict]
        rfl
      obtain ⟨hanswer, hcalls⟩ := Run.run_of_error hbarred invocation
      exact ⟨⟨_, hanswer, rfl, rfl, rfl, rfl⟩, hcalls⟩

/-- A config file names another helper, which is in one search path and not in the other, and may
not be passed over. -/
theorem run_escalates_with_doas :
    let files : FileSystem := ⟨[(["etc"], .directory), (["etc", "run.yaml"], .file (Text.Utf8.encode
      "privilege:\n  helper: doas\n  degrade_without_helper: false\n".toList) 0o644)], []⟩
    let lookup : String → String → Option String := fun name searchPath =>
      if searchPath = "/bin" then some ("/bin/" ++ name) else none
    let setting : Setting := ⟨files, "/root", false,
      fun name searchPath => .ok (lookup name searchPath),
      fun _ => ⟨.ok ⟨none, false⟩, [], []⟩⟩
    let env (searchPath : String) : Variables :=
      [("RUN_ELEVATED_CONFIG", "/etc/run.yaml"), ("PATH", searchPath)]
    (∀ name searchPath, setting.probe name searchPath = .ok (lookup name searchPath)) ∧
      (run setting ["id"] (env "/bin")).lookups = [("doas", "/bin")] ∧
      (run setting ["id"] (env "/bin")).session.calls =
        [⟨⟨"doas", ["-E", "id"]⟩, .inherited, .given⟩] ∧
      (run setting ["id"] (env "/opt")).lookups = [("doas", "/opt")] ∧
      (run setting ["id"] (env "/opt")).Rejects .helperUnavailable "HELPER_UNAVAILABLE" 126
        "doas: escalation helper not found" := by
  intro files lookup setting env
  have hprivilege : (Config.load files "/etc/run.yaml").config.privilege =
      ⟨"doas", "-E", false⟩ := by decide +kernel
  have hprobe : ∀ name searchPath,
      setting.probe name searchPath = .ok (lookup name searchPath) := fun _ _ => rfl
  have hpath (searchPath : String) :
      (((env searchPath).get? "RUN_ELEVATED_CONFIG").filter (· ≠ "")).getD
        (LaunchEnvironment.defaultConfigPath setting.home) = "/etc/run.yaml" := rfl
  have hfiles : setting.files = files := rfl
  have h (searchPath : String) :=
    run_escalates_as_decided setting lookup hprobe ["id"] (env searchPath)
  -- The path has to go first: an unevaluated one makes the loader unfold.
  simp only [hpath, hfiles, hprivilege] at h
  have henabled (searchPath : String) :
      (env searchPath).get? "RUN_ELEVATED_DISABLE_SUDO" ≠ some "1" := by
    intro hdisabled
    cases hdisabled
  obtain ⟨hlookups, hfound, -⟩ := (h "/bin").2.2 (henabled _)
  obtain ⟨hmissed, -, -, hbarred⟩ := (h "/opt").2.2 (henabled _)
  exact ⟨hprobe, hlookups, hfound _ rfl, hmissed, (hbarred rfl trivial).1⟩

end Elevation
