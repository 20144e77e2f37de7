import Elevation.Run
import Elevation.Proofs.Launch.Delivery

/-! Commands that are followed along a history. Signals and reports come in any order, and the child
may take each signal in another way, reporting inside the call or not. Still there is one launch and
one spawn call at most, and the first report that the child makes is what the launch settles by. -/

namespace Elevation

/-- What happens, as steps of a session in which the command is the first launch. -/
def History.steps (h : History) : List Session.Step := h.happenings.map (·.step 0)

namespace Run

def begun (request : LaunchRequest) (child : Child) : Session :=
  Session.initial.step (.launch request (.ok child))

/-- What a child reports along its history, be it inside a call that sends it a signal. -/
def reports (request : LaunchRequest) (child : Child) (h : History) : List Report :=
  (begun request child).reportsOf 0 h.steps

variable {history : Command → History} {request : LaunchRequest} {command : Command}
  {child : Child}

theorem along_of_none (h : Command.ofArgv? request.argv = none) : along history request =
    (Session.initial, some (.error (.failure Failure.noCommand))) := by
  simp [along, Session.launch, h]

theorem along_of_thrown (h : Command.ofArgv? request.argv = some command) {thrown : Thrown}
    (hspawned : (history command).spawned = .error thrown) : along history request =
      ({ Session.initial with calls := [⟨command, .inherited, request.environment⟩] },
        some (.error (thrown.rejection command.file))) := by
  simp [along, Session.launch, h, hspawned, Session.initial]

theorem along_of_child (h : Command.ofArgv? request.argv = some command)
    (hspawned : (history command).spawned = .ok child) : along history request =
      ((begun request child).stepAll (history command).steps,
        answerOf ((begun request child).stepAll (history command).steps) 0) := by
  simp [along, begun, Session.step, Session.launch, h, hspawned, Session.initial, History.steps]

theorem begun_launches (h : Command.ofArgv? request.argv = some command) (child : Child) :
    (begun request child).launches =
      [⟨command, request.terminalAttached, child, [], none⟩] := by
  have hs : (Session.Step.launch request (.ok child)).started? =
      some ⟨command, request.terminalAttached, child, [], none⟩ := by
    simp [Session.Step.started?, h]
  exact (Session.step_of_started hs).2.2.1

theorem begun_calls (h : Command.ofArgv? request.argv = some command) (child : Child) :
    (begun request child).calls = [⟨command, .inherited, request.environment⟩] := by
  simp [begun, Session.step, Session.launch, h, Session.log, Session.listen_eq, Session.initial]

theorem wired_begun (request : LaunchRequest) (child : Child) :
    Session.Wired (begun request child) :=
  Session.wired_step Session.wired_initial _

theorem stepAll_steps_calls (s : Session) (h : History) : (s.stepAll h.steps).calls = s.calls := by
  obtain ⟨spawned, happenings⟩ := h
  induction happenings generalizing s with
  | nil => rfl
  | cons happening rest ih =>
    have hstep : (s.step (happening.step 0)).calls = s.calls := by
      cases happening with
      | signal sent react => exact Session.deliverTo_calls _ _ _ _
      | report made => exact Session.report_calls _ _ _
    exact (ih (s.step (happening.step 0))).trans hstep

theorem along_calls (h : Command.ofArgv? request.argv = some command) :
    (along history request).1.calls = [⟨command, .inherited, request.environment⟩] := by
  cases hspawned : (history command).spawned with
  | error thrown => rw [along_of_thrown h hspawned]
  | ok child => rw [along_of_child h hspawned, stepAll_steps_calls, begun_calls h]

theorem stepAll_steps_length (s : Session) (h : History) :
    (s.stepAll h.steps).launches.length = s.launches.length := by
  have hnone : h.steps.filterMap Session.Step.started? = [] := by
    rw [History.steps, List.filterMap_map, List.filterMap_eq_nil_iff]
    intro happening _
    cases happening <;> rfl
  have horigins := congrArg List.length (Session.origins_stepAll s h.steps)
  simpa [hnone] using horigins

/-- The first report of a child is what its launch settles by, and then nothing listens. -/
theorem along_of_first_report (h : Command.ofArgv? request.argv = some command)
    (hspawned : (history command).spawned = .ok child) {first : Report}
    (hfirst : (reports request child (history command)).head? = some first) :
    let started : Launch := ⟨command, request.terminalAttached, child, [], none⟩
    (along history request).2 = (started.settlement first).answer? ∧
      (along history request).1.listeners = [] := by
  intro started
  have hlaunches := begun_launches h child
  have hw := wired_begun request child
  have hl : (begun request child).launches[0]? = some started := by rw [hlaunches]; rfl
  obtain ⟨final, hfinal, hsettled⟩ :=
    Session.settled_stepAll hw hl rfl (history command).steps
  have hfirst' : ((begun request child).reportsOf 0 (history command).steps).head? =
      some first := hfirst
  rw [hfirst', Option.map_some] at hsettled
  rw [along_of_child h hspawned]
  refine ⟨by simp [answerOf, hfinal, hsettled], ?_⟩
  apply Session.listeners_eq_nil (Session.wired_stepAll hw _)
  intro launch hm hpending
  obtain ⟨number, hnumber⟩ := List.mem_iff_getElem?.mp hm
  have hzero : number = 0 := by
    have hlt := (List.getElem?_eq_some_iff.mp hnumber).1
    rw [stepAll_steps_length, hlaunches, List.length_singleton] at hlt
    exact Nat.lt_one_iff.mp hlt
  subst hzero
  obtain rfl := Option.some.inj (hfinal.symm.trans hnumber)
  rw [hsettled] at hpending
  cases hpending

end Run

end Elevation
