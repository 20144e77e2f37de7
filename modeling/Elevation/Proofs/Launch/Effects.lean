import Elevation.Launch

/-! What an operation of a session does to a single launch. A report can only settle it, a signal
can only reach its child and settle it through what the child does, and every other launch stays as
it was. Deliveries never spawn anything. -/

namespace Elevation

namespace Launch

theorem settlement_error (l : Launch) (thrown : Thrown) : l.settlement (.error thrown) =
    match thrown.toFailure l.command.file with
    | .ok failure => .rejected failure
    | .error escaped => .lost escaped := rfl

/-- A launch after its child received some signals and made some reports. The first report that
finds the launch pending settles it; the others are lost. -/
def advance (l : Launch) (signals : List Signal) (reports : List Report) : Launch :=
  { l with
    kills := l.kills ++ signals
    settled := l.settled.or (reports.head?.map l.settlement) }

def hear (l : Launch) (signal : Signal) (reaction : Reaction) : Launch :=
  if l.absorbs signal then l else l.advance [signal] reaction.reports

/-- The launch as it was when its child was started. -/
def origin (l : Launch) : Launch := { l with kills := [], settled := none }

@[simp] theorem advance_origin (l : Launch) (signals : List Signal) (rs : List Report) :
    (l.advance signals rs).origin = l.origin := rfl

@[simp] theorem hear_origin (l : Launch) (signal : Signal) (reaction : Reaction) :
    (l.hear signal reaction).origin = l.origin := by
  unfold hear
  split <;> rfl

@[simp] theorem advance_nil (l : Launch) : l.advance [] [] = l := by simp [advance]

theorem advance_advance (l : Launch) (signals more : List Signal) (rs further : List Report) :
    (l.advance signals rs).advance more further = l.advance (signals ++ more) (rs ++ further) := by
  have hsettlement : (l.advance signals rs).settlement = l.settlement := by
    funext r
    cases r with
    | exit code signal => cases signal <;> rfl
    | error thrown => rfl
  unfold advance at hsettlement ⊢
  rw [hsettlement]
  cases rs <;> simp

theorem advance_of_settled {l : Launch} (h : l.settled.isSome) (rs : List Report) :
    l.advance [] rs = l := by
  obtain ⟨outcome, hs⟩ := Option.isSome_iff_exists.mp h
  cases l with
  | mk command attached child kills settled =>
    subst hs
    simp [advance]

end Launch

namespace Session

variable {s : Session} {number : Nat} {launch : Launch}

def isLive (s : Session) (number : Nat) : Bool :=
  (s.launches[number]?).any (·.settled.isNone)

@[simp] theorem isLive_iff : s.isLive number ↔
    ∃ launch, s.launches[number]? = some launch ∧ launch.settled = none := by
  simp [isLive, Option.any_eq_true]

theorem isLive_of_some (h : s.launches[number]? = some launch) :
    s.isLive number = launch.settled.isNone := by
  simp [isLive, h]

theorem modify_launches (h : s.launches[number]? = some launch) (change : Launch → Launch) :
    s.launches.modify number change = s.launches.set number (change launch) := by
  apply List.ext_getElem?
  intro other
  by_cases he : number = other
  · subst he
    have hlt := (List.getElem?_eq_some_iff.mp h).1
    rw [List.getElem?_modify_eq, h, List.getElem?_set_self hlt]
    rfl
  · rw [List.getElem?_modify_ne _ _ he, List.getElem?_set_ne he]

theorem foldl_addListener (number : Nat) (signals : List Signal) (s : Session) :
    signals.foldl (addListener number) s =
      { s with listeners := s.listeners ++ signals.map fun signal => (signal, number) } := by
  induction signals generalizing s with
  | nil => simp
  | cons signal rest ih =>
    rw [List.foldl_cons, ih]
    simp [addListener]

theorem listen_eq (s : Session) (number : Nat) : s.listen number =
    { s with listeners := s.listeners ++ Signal.forwarded.map fun signal => (signal, number) } :=
  foldl_addListener number Signal.forwarded s

theorem foldl_removeListener (number : Nat) (signals : List Signal) (s : Session) :
    signals.foldl (removeListener number) s =
      { s with listeners := (signals.foldl (removeListener number) s).listeners } := by
  induction signals generalizing s with
  | nil => rfl
  | cons signal rest ih =>
    rw [List.foldl_cons, ih]
    rfl

@[simp] theorem unlisten_launches (s : Session) (number : Nat) :
    (s.unlisten number).launches = s.launches := by
  rw [unlisten, foldl_removeListener]

@[simp] theorem unlisten_calls (s : Session) (number : Nat) :
    (s.unlisten number).calls = s.calls := by
  rw [unlisten, foldl_removeListener]

theorem report_of_not_live (h : ¬ s.isLive number) (r : Report) : s.report number r = s := by
  unfold report
  cases hl : s.launches[number]? with
  | none => rfl
  | some launch =>
    have hs : launch.settled.isSome := by
      simpa [isLive_of_some hl, Option.isSome_iff_ne_none] using h
    simp [hs]

theorem report_of_live (hl : s.launches[number]? = some launch) (hs : launch.settled = none)
    (r : Report) : s.report number r = ({ s with
      launches := s.launches.modify number (·.advance [] [r]) }.unlisten number).logReport r := by
  rw [modify_launches hl]
  simp [report, hl, hs, Launch.advance]

@[simp] theorem logReport_launches (s : Session) (r : Report) :
    (s.logReport r).launches = s.launches := by
  cases r <;> rfl

@[simp] theorem logReport_listeners (s : Session) (r : Report) :
    (s.logReport r).listeners = s.listeners := by
  cases r <;> rfl

@[simp] theorem logReport_calls (s : Session) (r : Report) : (s.logReport r).calls = s.calls := by
  cases r <;> rfl

theorem report_launches (s : Session) (number : Nat) (r : Report) :
    (s.report number r).launches = s.launches.modify number (·.advance [] [r]) := by
  cases hl : s.launches[number]? with
  | none =>
    have hn : ¬ s.isLive number := by simp [isLive, hl]
    rw [report_of_not_live hn, List.modify_eq_self (List.getElem?_eq_none_iff.mp hl)]
  | some launch =>
    cases hs : launch.settled with
    | none => simp [report_of_live hl hs]
    | some outcome =>
      have hn : ¬ s.isLive number := by simp [isLive, hl, hs]
      rw [report_of_not_live hn, modify_launches hl, Launch.advance_of_settled (by simp [hs])]
      obtain ⟨hlt, rfl⟩ := List.getElem?_eq_some_iff.mp hl
      exact (List.set_getElem_self hlt).symm

theorem reportAll_cons (s : Session) (number : Nat) (r : Report) (rs : List Report) :
    s.reportAll number (r :: rs) = (s.report number r).reportAll number rs := rfl

theorem reportAll_launches (s : Session) (number : Nat) (rs : List Report) :
    (s.reportAll number rs).launches = s.launches.modify number (·.advance [] rs) := by
  induction rs generalizing s with
  | nil =>
    have hid : (fun l : Launch => l.advance [] []) = id := funext Launch.advance_nil
    rw [hid, List.modify_id]
    rfl
  | cons r rs ih =>
    rw [reportAll_cons, ih, report_launches, List.modify_modify_eq]
    congr 1
    funext l
    exact l.advance_advance [] [] [r] rs

theorem kill_launches (h : s.launches[number]? = some launch) (signal : Signal)
    (reaction : Reaction) : (s.kill number launch signal reaction).1.launches =
      s.launches.modify number (·.advance [signal] reaction.reports) := by
  have hkilled : { launch with kills := launch.kills ++ [signal] } =
      launch.advance [signal] [] := by simp [Launch.advance]
  simp only [kill, reportAll_launches]
  rw [hkilled, ← modify_launches h (·.advance [signal] []), List.modify_modify_eq]
  congr 1
  funext l
  exact l.advance_advance [signal] [] [] reaction.reports

theorem hear_launches (s : Session) (number : Nat) (signal : Signal) (react : Reactions) :
    (s.hear number signal react).1.launches =
      s.launches.modify number fun l => l.hear signal (react number l) := by
  unfold hear
  cases hl : s.launches[number]? with
  | none => simp [List.modify_eq_self (List.getElem?_eq_none_iff.mp hl)]
  | some launch =>
    rw [modify_launches hl]
    by_cases ha : launch.absorbs signal
    · obtain ⟨hlt, rfl⟩ := List.getElem?_eq_some_iff.mp hl
      simp [ha, log, Launch.hear]
    · have hk := kill_launches (s := s.log (.forwarding signal)) hl signal (react number launch)
      rw [modify_launches (s := s.log (.forwarding signal)) hl] at hk
      simpa [ha, Launch.hear, log] using hk

theorem hear_thrown (s : Session) (number : Nat) (signal : Signal) (react : Reactions) :
    (s.hear number signal react).2 = (s.launches[number]?).bind fun l =>
      if l.absorbs signal then none else (react number l).thrown := by
  unfold hear
  cases s.launches[number]? with
  | none => rfl
  | some launch => by_cases ha : launch.absorbs signal <;> simp [ha, kill]

@[simp] theorem report_calls (s : Session) (number : Nat) (r : Report) :
    (s.report number r).calls = s.calls := by
  unfold report
  split
  · rfl
  · split <;> simp

@[simp] theorem reportAll_calls (s : Session) (number : Nat) (rs : List Report) :
    (s.reportAll number rs).calls = s.calls := by
  induction rs generalizing s with
  | nil => rfl
  | cons r rs ih => rw [reportAll_cons, ih, report_calls]

@[simp] theorem hear_calls (s : Session) (number : Nat) (signal : Signal) (react : Reactions) :
    (s.hear number signal react).1.calls = s.calls := by
  unfold hear
  split
  · rfl
  · split <;> simp [log, kill]

@[simp] theorem deliverTo_calls (signal : Signal) (react : Reactions) (numbers : List Nat)
    (s : Session) : (deliverTo signal react numbers s).1.calls = s.calls := by
  induction numbers generalizing s with
  | nil => rfl
  | cons number rest ih =>
    have hc := hear_calls s number signal react
    simp only [deliverTo]
    split
    next h => simpa [h] using hc
    next h => rw [ih]; simpa [h] using hc

/-! Launching. -/

def Step.started? : Step → Option Launch
  | .launch request (.ok child) =>
    (Command.ofArgv? request.argv).map fun command =>
      ⟨command, request.terminalAttached, child, [], none⟩
  | _ => none

theorem launch_of_error {request : LaunchRequest} {spawn : Command → Except Thrown Child}
    {thrown : Thrown} (h : (s.launch request spawn).2 = .error thrown) :
    (s.launch request spawn).1.launches = s.launches ∧
      (s.launch request spawn).1.listeners = s.listeners := by
  unfold launch at h ⊢
  cases hc : Command.ofArgv? request.argv with
  | none => exact ⟨rfl, rfl⟩
  | some command =>
    cases hspawn : spawn command with
    | error thrown => simp [hspawn]
    | ok child => simp [hc, hspawn] at h

theorem step_of_started {e : Step} (h : e.started? = some launch) :
    launch.kills = [] ∧ launch.settled = none ∧
      (s.step e).launches = s.launches ++ [launch] ∧
      (s.step e).listeners =
        s.listeners ++ Signal.forwarded.map fun signal => (signal, s.launches.length) := by
  match e, h with
  | .launch request (.ok child), h =>
    obtain ⟨command, hc, rfl⟩ := Option.map_eq_some_iff.mp h
    simp [step, Session.launch, hc, log, listen_eq]

theorem step_of_not_started {request : LaunchRequest} {spawned : Except Thrown Child}
    (h : (Step.launch request spawned).started? = none) :
    (s.step (.launch request spawned)).launches = s.launches ∧
      (s.step (.launch request spawned)).listeners = s.listeners := by
  suffices hfail : ∃ thrown, (s.launch request fun _ => spawned).2 = .error thrown by
    obtain ⟨thrown, hfail⟩ := hfail
    exact launch_of_error hfail
  unfold launch
  cases hc : Command.ofArgv? request.argv with
  | none => exact ⟨_, rfl⟩
  | some command =>
    cases spawned with
    | error thrown => exact ⟨_, rfl⟩
    | ok child => simp [Step.started?, hc] at h

end Session

end Elevation
