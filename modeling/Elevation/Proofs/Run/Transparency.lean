import Elevation.Proofs.Run.Escalation

/-! A command that is run as it is. The spawn calls that a session has recorded, and with them the
environments that commands were given, are never read again, so two launches that differ in nothing
but the environment go on alike whatever happens. A run that decided against its helper is such a
launch of its command: neither the config file nor the file system nor the probe leaves a trace. -/

namespace Elevation

namespace Session

def withCalls (s : Session) (calls : List SpawnCall) : Session := { s with calls := calls }

@[simp] theorem withCalls_launches (s : Session) (calls : List SpawnCall) :
    (s.withCalls calls).launches = s.launches := rfl

@[simp] theorem withCalls_listeners (s : Session) (calls : List SpawnCall) :
    (s.withCalls calls).listeners = s.listeners := rfl

theorem foldl_removeListener_withCalls (s : Session) (calls : List SpawnCall) (number : Nat)
    (signals : List Signal) : signals.foldl (removeListener number) (s.withCalls calls) =
      (signals.foldl (removeListener number) s).withCalls calls := by
  induction signals generalizing s with
  | nil => rfl
  | cons signal rest ih => exact ih (s.removeListener number signal)

theorem logReport_withCalls (s : Session) (calls : List SpawnCall) (r : Report) :
    (s.withCalls calls).logReport r = (s.logReport r).withCalls calls := by
  cases r <;> rfl

theorem report_withCalls (s : Session) (calls : List SpawnCall) (number : Nat) (r : Report) :
    (s.withCalls calls).report number r = (s.report number r).withCalls calls := by
  unfold report
  rw [withCalls_launches]
  cases hl : s.launches[number]? with
  | none => rfl
  | some launch =>
    by_cases hs : launch.settled.isSome
    · simp [hs]
    · simp only [hs, Bool.false_eq_true, if_false]
      rw [← logReport_withCalls, unlisten, unlisten, ← foldl_removeListener_withCalls]
      rfl

theorem reportAll_withCalls (s : Session) (calls : List SpawnCall) (number : Nat)
    (rs : List Report) : (s.withCalls calls).reportAll number rs =
      (s.reportAll number rs).withCalls calls := by
  induction rs generalizing s with
  | nil => rfl
  | cons r rs ih => rw [reportAll_cons, report_withCalls, ih, reportAll_cons]

theorem hear_withCalls (s : Session) (calls : List SpawnCall) (number : Nat) (signal : Signal)
    (react : Reactions) : (s.withCalls calls).hear number signal react =
      ((s.hear number signal react).1.withCalls calls, (s.hear number signal react).2) := by
  unfold hear
  rw [withCalls_launches]
  cases hl : s.launches[number]? with
  | none => rfl
  | some launch =>
    by_cases ha : launch.absorbs signal
    · simp only [ha, if_true]
      rfl
    · simp only [ha, Bool.false_eq_true, if_false, kill]
      rw [← reportAll_withCalls]
      rfl

theorem deliverTo_withCalls (s : Session) (calls : List SpawnCall) (signal : Signal)
    (react : Reactions) (numbers : List Nat) :
    (deliverTo signal react numbers (s.withCalls calls)).1 =
      (deliverTo signal react numbers s).1.withCalls calls := by
  induction numbers generalizing s with
  | nil => rfl
  | cons number rest ih =>
    rw [deliverTo_cons, deliverTo_cons, hear_withCalls]
    split
    · rfl
    · exact ih _

end Session

namespace Run

theorem stepAll_withCalls (s : Session) (calls : List SpawnCall) (h : History) :
    (s.withCalls calls).stepAll h.steps = (s.stepAll h.steps).withCalls calls := by
  unfold History.steps
  induction h.happenings generalizing s with
  | nil => rfl
  | cons happening rest ih =>
    have hstep : (s.withCalls calls).step (happening.step 0) =
        (s.step (happening.step 0)).withCalls calls := by
      cases happening with
      | signal sent react => exact Session.deliverTo_withCalls s calls sent _ _
      | report made => exact Session.report_withCalls s calls 0 made
    simp only [Session.stepAll, List.map_cons, List.foldl_cons] at ih ⊢
    rw [hstep, ih]

variable {history : Command → History} {argv : List String} {attached : Bool}

theorem begun_withCalls {command : Command} (h : Command.ofArgv? argv = some command)
    (child : Child) (source other : EnvironmentSource) :
    begun ⟨argv, other, attached⟩ child =
      (begun ⟨argv, source, attached⟩ child).withCalls [⟨command, .inherited, other⟩] := by
  simp [begun, Session.step, Session.launch, h, Session.log, Session.listen_eq, Session.initial,
    Session.withCalls]

/-- Whose environment a command is given makes no difference but in its spawn call. -/
theorem along_environment (history : Command → History) (argv : List String) (attached : Bool)
    (source other : EnvironmentSource) :
    let launched := along history ⟨argv, source, attached⟩
    let relaunched := along history ⟨argv, other, attached⟩
    relaunched.2 = launched.2 ∧
      relaunched.1 = launched.1.withCalls relaunched.1.calls ∧
      relaunched.1.calls.map (fun call => (call.command, call.streams)) =
        launched.1.calls.map fun call => (call.command, call.streams) := by
  cases hargv : Command.ofArgv? argv with
  | none =>
    rw [along_of_none hargv, along_of_none hargv]
    exact ⟨rfl, rfl, rfl⟩
  | some command =>
    cases hspawned : (history command).spawned with
    | error thrown =>
      rw [along_of_thrown hargv hspawned, along_of_thrown hargv hspawned]
      exact ⟨rfl, rfl, rfl⟩
    | ok child =>
      have hrun (whose : EnvironmentSource) : along history ⟨argv, whose, attached⟩ =
          ((begun ⟨argv, whose, attached⟩ child).stepAll (history command).steps,
            answerOf ((begun ⟨argv, whose, attached⟩ child).stepAll (history command).steps) 0) :=
        along_of_child hargv hspawned
      have hcalls (whose : EnvironmentSource) : (along history ⟨argv, whose, attached⟩).1.calls =
          [⟨command, .inherited, whose⟩] := along_calls hargv
      have hother : (begun ⟨argv, other, attached⟩ child).stepAll (history command).steps =
          ((begun ⟨argv, source, attached⟩ child).stepAll (history command).steps).withCalls
            [⟨command, .inherited, other⟩] := by
        rw [begun_withCalls hargv child source other, stepAll_withCalls]
      dsimp only
      refine ⟨?_, ?_, ?_⟩
      · rw [hrun, hrun, hother]
        rfl
      · rw [hcalls, hrun, hrun, hother]
      · rw [hcalls, hcalls]
        rfl

end Run

/-- For every command and everything that may happen to it: a run that is not escalated, and a
launch of the command with any environment, come to the same spawn calls, the environments apart,
the same answer, the same launches with the signals that their children received, and the same
listeners. With escalation disabled this goes for every probe, one that throws included. -/
theorem unescalated_run_is_launch (setting : Setting) (history : Command → History)
    (invocation : List String) (env : Variables) (source : EnvironmentSource)
    (h : Run.Unescalated setting env) :
    let r := runAlong setting history invocation env
    let launched := Run.along history ⟨invocation, source, setting.terminalAttached⟩
    r.session.calls.map (fun call => (call.command, call.streams)) =
        launched.1.calls.map (fun call => (call.command, call.streams)) ∧
      r.answer = launched.2 ∧
      r.session.launches = launched.1.launches ∧
      r.session.listeners = launched.1.listeners := by
  intro r launched
  obtain ⟨decision, hverdict, hargv⟩ := Run.verdict_of_unescalated h
  obtain ⟨hsession, hanswer⟩ := Run.runAlong_of_decision hverdict history invocation
  rw [hargv] at hsession hanswer
  obtain ⟨hsame, hagree, hcalls⟩ := Run.along_environment history invocation
    setting.terminalAttached source .given
  refine ⟨by rw [hsession]; exact hcalls, hanswer.trans hsame, ?_, ?_⟩
  · rw [hsession, hagree, Session.withCalls_launches]
  · rw [hsession, hagree, Session.withCalls_listeners]

/-- With escalation disabled neither a config path that is a directory nor a probe that throws comes
into play, and the command dies of the signal that is passed on to it. -/
theorem unescalated_run_is_launch_beside_throwing_probe :
    let files : FileSystem := ⟨[(["etc"], .directory)], []⟩
    let course : Command → Course := fun _ => ⟨.ok ⟨none, true⟩, [.term], [.exit (some 3) none]⟩
    let setting : Setting := ⟨files, "/root", false, fun _ _ => .error (.value .null), course⟩
    let env : Variables := [("RUN_ELEVATED_DISABLE_SUDO", "1"), ("RUN_ELEVATED_CONFIG", "/etc")]
    Run.Unescalated setting env ∧
      (run setting ["sleep", "60"] env).answer = some (.ok (.signaled .term)) ∧
      (run setting ["sleep", "60"] env).session.listeners = [] := by
  intro files course setting env
  have hdisabled : Run.Unescalated setting env := .inl rfl
  let history : Command → History := fun command => (course command).history
  have hended : (Run.along history ⟨["sleep", "60"], .own, false⟩).2 =
      some (.ok (.signaled .term)) := rfl
  have hsilent : (Run.along history ⟨["sleep", "60"], .own, false⟩).1.listeners = [] := rfl
  obtain ⟨-, hanswer, -, hlisteners⟩ := unescalated_run_is_launch setting history ["sleep", "60"]
    env .own hdisabled
  refine ⟨hdisabled, ?_, ?_⟩
  · rw [run]
    exact hanswer.trans hended
  · rw [run]
    exact hlisteners.trans hsilent

end Elevation
