import Elevation.Proofs.Launch.Delivery

/-! What comes of a launch. The signals that its child receives are exactly the delivered ones that
reach it. It is pending until the child reports for the first time, no matter whether in a step of
its own or inside a call that sends it a signal, and nothing that follows changes it again. A child
reports an error when it could not be started, but also when a signal could not be sent to it while
it runs, and a launch does not tell the two apart: a command that runs on after such an error is
followed no longer, and its exit is lost. -/

namespace Elevation

namespace Launch

theorem settlement_eq_rejected_iff (l : Launch) (r : Report) (failure : Failure) :
    l.settlement r = .rejected failure ↔
      ∃ thrown, r = .error thrown ∧ thrown.toFailure l.command.file = .ok failure := by
  cases r with
  | exit code signal => cases signal <;> simp [settlement]
  | error thrown => cases h : thrown.toFailure l.command.file <;> simp [settlement_error, h]

theorem settlement_eq_lost_iff (l : Launch) (r : Report) (escaped : Thrown) :
    l.settlement r = .lost escaped ↔
      ∃ thrown, r = .error thrown ∧ thrown.toFailure l.command.file = .error escaped := by
  cases r with
  | exit code signal => cases signal <;> simp [settlement]
  | error thrown => cases h : thrown.toFailure l.command.file <;> simp [settlement_error, h]

theorem settlement_eq_resolved_iff (l : Launch) (r : Report) (outcome : Outcome) :
    l.settlement r = .resolved outcome ↔ ∃ code signal, r = .exit code signal ∧
      (match signal with
        | some signal => Outcome.signaled signal
        | none => Outcome.exited (code.getD 1)) = outcome := by
  cases r with
  | exit code signal => cases signal <;> simp [settlement]
  | error thrown => cases h : thrown.toFailure l.command.file <;> simp [settlement_error, h]

end Launch

namespace Session

/-! Forwarding. -/

/-- In any session, for any launch that was started in it: its child received the delivered signals
that reach it, once each and in order. None of them was delivered before the launch, and nothing is
received once the launch has settled. -/
theorem kills_eq_reaching_signals (before after : List Step) (request : LaunchRequest)
    (child : Child) {file : String} {args : List String}
    (hargv : request.argv = file :: args) (hfile : file ≠ "") :
    let steps := before ++ .launch request (.ok child) :: after
    let number := (initial.stepAll before).launches.length
    ∃ launch, (initial.stepAll steps).launches[number]? = some launch ∧
      launch.origin = ⟨⟨file, args⟩, request.terminalAttached, child, [], none⟩ ∧
      launch.kills =
        ((initial.deliveries steps).filter (·.Reaches number)).map (·.signal) ∧
      (∀ d ∈ initial.deliveries before, ¬ d.Reaches number) ∧
      (launch.settled.isSome → ∀ more,
        ((initial.stepAll (steps ++ more)).launches[number]?).map (·.kills) =
          some launch.kills) := by
  intro steps number
  have hw : Wired (initial.stepAll before) := wired_stepAll wired_initial before
  have hstart := step_launch_getElem? (initial.stepAll before) hargv hfile child
  have hrun := stepAll_getElem? (wired_step hw _) hstart after
  have hsteps : initial.stepAll steps =
      ((initial.stepAll before).step (.launch request (.ok child))).stepAll after :=
    stepAll_append initial before _
  refine ⟨_, hsteps ▸ hrun, rfl, ?_, fun d hd => not_reaches_before hd (Nat.le_refl _), ?_⟩
  · have hreceived := received_after (Nat.le_refl number)
      (.launch request (.ok child) :: after)
    exact hreceived.symm
  · intro hs more
    rw [stepAll_append, hsteps,
      stepAll_of_settled (wired_stepAll (wired_step hw _) after) hrun hs more]
    rfl

/-- A command beside an editor in a terminal. The first signal passes the editor by, the second is
lost to a throw of the editor's child, the third ends the command, and the fourth comes too late. -/
theorem kills_eq_reaching_signals_beside_editor :
    let quiet : Reactions := fun _ _ => ⟨[], none⟩
    let editorThrows : Reactions := fun number _ =>
      ⟨[], if number = 0 then some (.value .null) else none⟩
    let commandEnds : Reactions := fun number _ =>
      ⟨if number = 1 then [.exit none (some .term)] else [], none⟩
    let before : List Step := [.launch ⟨["vim"], .own, true⟩ (.ok ⟨none, false⟩)]
    let request : LaunchRequest := ⟨["sleep", "60"], .own, false⟩
    let after : List Step := [.signal .int quiet, .signal .hup editorThrows,
      .signal .term commandEnds, .signal .usr1 quiet]
    request.argv = ["sleep", "60"] ∧ "sleep" ≠ "" ∧
    ∃ launch, (initial.stepAll
        (before ++ .launch request (.ok ⟨none, true⟩) :: after)).launches[1]? = some launch ∧
      launch.kills = [.int, .term] := by
  intro quiet editorThrows commandEnds before request after
  obtain ⟨launch, hl, -, hkills, -⟩ :=
    kills_eq_reaching_signals before after request ⟨none, true⟩ rfl (by decide : "sleep" ≠ "")
  refine ⟨rfl, by decide, launch, hl, hkills.trans ?_⟩
  decide

/-! Settling. -/

theorem report_of_settled {s : Session} {number : Nat} {launch : Launch}
    (hl : s.launches[number]? = some launch) (hs : launch.settled.isSome) (r : Report) :
    s.report number r = s := by
  apply report_of_not_live
  rw [isLive_of_some hl]
  simpa [Option.isSome_iff_ne_none] using hs

theorem reportAll_after_report (s : Session) (number : Nat) (r : Report) (further : List Report) :
    (s.report number r).reportAll number further = s.report number r := by
  have hdead : ¬ (s.report number r).isLive number := by rw [isLive_report]; simp
  induction further with
  | nil => rfl
  | cons next rest ih => rw [reportAll_cons, report_of_not_live hdead, ih]

/-- In any session, for any launch that was started in it: it is pending as long as its child has
reported nothing, its first report decides how it settles, and from then on neither its outcome
changes with any step nor anything at all with a report of its child. An error rejects it; only if
what is reported is no error but a value, and one without a text, nothing comes of it. -/
theorem settled_by_first_report (before after : List Step) (request : LaunchRequest)
    (child : Child) {file : String} {args : List String}
    (hargv : request.argv = file :: args) (hfile : file ≠ "") :
    let number := (initial.stepAll before).launches.length
    let started := (initial.stepAll before).step (.launch request (.ok child))
    let s := started.stepAll after
    ∃ launch, s.launches[number]? = some launch ∧
      (match started.reportsOf number after with
        | [] => launch.settled = none
        | .exit _ (some signal) :: _ => launch.settled = some (.resolved (.signaled signal))
        | .exit (some code) none :: _ => launch.settled = some (.resolved (.exited code))
        | .exit none none :: _ => launch.settled = some (.resolved (.exited 1))
        | .error (.error message errno) :: _ =>
          launch.settled = some (.rejected ((Thrown.error message errno).failureOf file message))
        | .error (.failure f) :: _ =>
          launch.settled = some (.rejected ((Thrown.failure f).failureOf file f.message))
        | .error (.value datum) :: _ =>
          (∀ text, datum.text = .ok text →
            launch.settled = some (.rejected ((Thrown.value datum).failureOf file text))) ∧
          (∀ escaped, datum.text = .error escaped → launch.settled = some (.lost escaped))) ∧
      (launch.settled.isSome → ∀ more,
        ((s.stepAll more).launches[number]?).map (·.settled) = some launch.settled) ∧
      (launch.settled.isSome → ∀ r, s.report number r = s) ∧
      (∀ (t : Session) r further,
        (t.report number r).reportAll number further = t.report number r) := by
  intro number started s
  have hw : Wired started := wired_step (wired_stepAll wired_initial before) _
  have hstart := step_launch_getElem? (initial.stepAll before) hargv hfile child
  have hrun := stepAll_getElem? hw hstart after
  refine ⟨_, hrun, ?_, ?_, ?_, fun t => reportAll_after_report t number⟩
  · cases started.reportsOf number after with
    | nil => rfl
    | cons first rest =>
      cases first with
      | error thrown =>
        cases thrown with
        | failure f => rfl
        | error message errno => rfl
        | value datum =>
          have hsettled : ((Launch.mk ⟨file, args⟩ request.terminalAttached child [] none).advance
              (received number (started.deliveries after))
              (.error (.value datum) :: rest)).settled = some (Launch.settlement
                ⟨⟨file, args⟩, request.terminalAttached, child, [], none⟩
                (.error (.value datum))) := rfl
          constructor <;>
            · intro text htext
              rw [hsettled, Launch.settlement_error, Thrown.toFailure_value, htext]
              rfl
      | exit code signal =>
        cases signal with
        | some signal => rfl
        | none => cases code <;> rfl
  · intro hs more
    rw [stepAll_of_settled (wired_stepAll hw after) hrun hs more]
    rfl
  · intro hs r
    exact report_of_settled hrun hs r

theorem settled_by_first_report_inside_kill :
    let dies : Reactions := fun _ _ => ⟨[.exit none (some .term)], none⟩
    let request : LaunchRequest := ⟨["sleep", "60"], .own, false⟩
    let after : List Step := [.signal .term dies, .report 0 (.error (.value .null))]
    let s := (initial.step (.launch request (.ok ⟨none, false⟩))).stepAll after
    request.argv = ["sleep", "60"] ∧ "sleep" ≠ "" ∧
    ∃ launch, s.launches[0]? = some launch ∧
      launch.settled = some (.resolved (.signaled .term)) ∧
      ∀ more, ((s.stepAll more).launches[0]?).map (·.settled) = some launch.settled := by
  intro dies request after s
  obtain ⟨launch, hl, hsettled, hkept, -⟩ :=
    settled_by_first_report [] after request ⟨none, false⟩ rfl (by decide : "sleep" ≠ "")
  have hs : launch.settled = some (.resolved (.signaled .term)) := hsettled
  exact ⟨rfl, by decide, launch, hl, hs, hkept (by rw [hs]; rfl)⟩

/-! Rejection. -/

variable {number : Nat} {launch : Launch}

/-- In any session, for any launch that is pending in it, and whatever signals its child has
received: the steps that follow reject the launch exactly if the first report of its child is an
error, or a value with a text, nothing comes of it exactly if that report is a value without one,
it settles with the status of its child exactly if that report is an exit, and its listeners stay
exactly if there is no report. -/
theorem rejected_iff_error_comes_first (steps after : List Step)
    (hl : (initial.stepAll steps).launches[number]? = some launch)
    (hpending : launch.settled = none) :
    let s := initial.stepAll steps
    let t := s.stepAll after
    let first := (s.reportsOf number after).head?
    ∃ final, t.launches[number]? = some final ∧
      (∀ failure, final.settled = some (.rejected failure) ↔
        ∃ thrown, first = some (.error thrown) ∧
          thrown.toFailure launch.command.file = .ok failure) ∧
      (∀ escaped, final.settled = some (.lost escaped) ↔
        ∃ thrown, first = some (.error thrown) ∧
          thrown.toFailure launch.command.file = .error escaped) ∧
      (∀ outcome, final.settled = some (.resolved outcome) ↔
        ∃ code signal, first = some (.exit code signal) ∧
          (match signal with
            | some signal => Outcome.signaled signal
            | none => Outcome.exited (code.getD 1)) = outcome) ∧
      (∀ signal ∈ Signal.forwarded, number ∈ t.hearers signal ↔ first = none) := by
  intro s t first
  have hw : Wired s := wired_stepAll wired_initial steps
  obtain ⟨final, hfinal, hsettled⟩ := settled_stepAll hw hl hpending after
  refine ⟨final, hfinal, ?_, ?_, ?_, ?_⟩
  · intro failure
    rw [hsettled, Option.map_eq_some_iff]
    simp only [launch.settlement_eq_rejected_iff]
    constructor
    · rintro ⟨r, hr, thrown, rfl, hfailure⟩
      exact ⟨thrown, hr, hfailure⟩
    · rintro ⟨thrown, hr, hfailure⟩
      exact ⟨_, hr, thrown, rfl, hfailure⟩
  · intro escaped
    rw [hsettled, Option.map_eq_some_iff]
    simp only [launch.settlement_eq_lost_iff]
    constructor
    · rintro ⟨r, hr, thrown, rfl, hescaped⟩
      exact ⟨thrown, hr, hescaped⟩
    · rintro ⟨thrown, hr, hescaped⟩
      exact ⟨_, hr, thrown, rfl, hescaped⟩
  · intro outcome
    rw [hsettled, Option.map_eq_some_iff]
    simp only [launch.settlement_eq_resolved_iff]
    constructor
    · rintro ⟨r, hr, code, signal, rfl, hstatus⟩
      exact ⟨code, signal, hr, hstatus⟩
    · rintro ⟨code, signal, hr, hstatus⟩
      exact ⟨_, hr, code, signal, rfl, hstatus⟩
  · intro signal hf
    rw [mem_hearers_iff (wired_stepAll hw after) hfinal hf, hsettled, Option.map_eq_none_iff]

theorem rejected_iff_error_comes_first_inside_kill :
    let refuses : Reactions := fun _ _ => ⟨[.error (.error "kill EPERM" (some "EPERM"))], none⟩
    let steps : List Step := [.launch ⟨["sudo", "-E", "id"], .given, false⟩ (.ok ⟨none, false⟩)]
    let after : List Step := [.signal .hup refuses, .report 0 (.exit (some 0) none)]
    let launch : Launch := ⟨⟨"sudo", ["-E", "id"]⟩, false, ⟨none, false⟩, [], none⟩
    (initial.stepAll steps).launches[0]? = some launch ∧ launch.settled = none ∧
    ∃ final, ((initial.stepAll steps).stepAll after).launches[0]? = some final ∧
      ∃ failure, final.settled = some (.rejected failure) ∧ failure.exitCode = 126 := by
  intro refuses steps after launch
  have hl : (initial.stepAll steps).launches[0]? = some launch := rfl
  obtain ⟨final, hfinal, hrejected, -⟩ := rejected_iff_error_comes_first steps after hl rfl
  refine ⟨hl, rfl, final, hfinal, _, (hrejected _).mpr ⟨_, rfl, rfl⟩, rfl⟩

/-- The helper runs and has taken a signal when the next one cannot be sent to it. The launch is
rejected and listens no longer, though nothing ended, and the exit that follows comes too late. -/
theorem running_child_rejected_by_error :
    let quiet : Reactions := fun _ _ => ⟨[], none⟩
    let s := initial.stepAll [
      .launch ⟨["sudo", "-E", "id"], .given, false⟩ (.ok ⟨none, false⟩), .signal .term quiet]
    let t := s.step (.report 0 (.error (.error "kill EPERM" (some "EPERM"))))
    let u := t.step (.report 0 (.exit (some 0) none))
    ∃ launch failure,
      s.launches[0]? = some launch ∧ launch.kills = [.term] ∧ launch.settled = none ∧
      s.hearers .term = [0] ∧
      t.launches[0]? = some { launch with settled := some (.rejected failure) } ∧
      t.listeners = [] ∧
      u.launches[0]? = some { launch with settled := some (.rejected failure) } :=
  ⟨_, _, rfl, rfl, rfl, rfl, rfl, rfl, rfl⟩

end Session

end Elevation
