import Mathlib.Data.List.Nodup
import Elevation.Proofs.Launch.Effects

/-! The listeners of a session. A session is wired if exactly the live launches listen, each of them
once to every forwarded signal and in the order in which they were launched. Every step keeps a
session wired, whatever the children do while a signal is delivered. -/

namespace Elevation.Session

variable {s : Session} {number : Nat} {launch : Launch}

/-- The live launches in the order in which they were launched. -/
def live (s : Session) : List Nat := (List.range s.launches.length).filter s.isLive

def listenersOf (number : Nat) : List (Signal × Nat) :=
  Signal.forwarded.map fun signal => (signal, number)

def Wired (s : Session) : Prop := s.listeners = s.live.flatMap listenersOf

theorem lt_length_of_isLive (h : s.isLive number) : number < s.launches.length := by
  obtain ⟨launch, hl, -⟩ := isLive_iff.mp h
  exact (List.getElem?_eq_some_iff.mp hl).1

@[simp] theorem mem_live : number ∈ s.live ↔ s.isLive number := by
  simp only [live, List.mem_filter, List.mem_range]
  exact ⟨fun h => h.2, fun h => ⟨lt_length_of_isLive h, h⟩⟩

theorem live_sorted (s : Session) : s.live.Pairwise (· < ·) :=
  List.pairwise_lt_range.filter _

theorem live_congr {t : Session} (hlen : t.launches.length = s.launches.length)
    (h : ∀ number, t.isLive number = s.isLive number) : t.live = s.live := by
  have hf : t.isLive = s.isLive := funext h
  rw [live, live, hlen, hf]

/-! Who hears a signal. -/

theorem hearers_listenersOf (number : Nat) (signal : Signal) :
    ((listenersOf number).filter (·.1 = signal)).map (·.2) =
      if signal ∈ Signal.forwarded then [number] else [] := by
  have hnodup : Signal.forwarded.Nodup := by decide
  have hf : ((listenersOf number).filter (·.1 = signal)).map (·.2) =
      (Signal.forwarded.filter (· = signal)).map fun _ => number := by
    simp [listenersOf, List.filter_map, Function.comp_def]
  rw [hf, List.filter_eq, hnodup.count]
  split <;> rfl

theorem hearers_of_wired (h : Wired s) (signal : Signal) :
    s.hearers signal = if signal ∈ Signal.forwarded then s.live else [] := by
  rw [hearers, h]
  induction s.live with
  | nil => simp
  | cons number rest ih =>
    rw [List.flatMap_cons, List.filter_append, List.map_append, ih, hearers_listenersOf]
    split <;> rfl

/-- In a wired session the launches that listen are the pending ones. -/
theorem mem_hearers_iff (hw : Wired s) (hl : s.launches[number]? = some launch) {signal : Signal}
    (hf : signal ∈ Signal.forwarded) : number ∈ s.hearers signal ↔ launch.settled = none := by
  rw [hearers_of_wired hw, if_pos hf, mem_live, isLive_of_some hl, Option.isNone_iff_eq_none]

theorem listeners_eq_nil (hw : Wired s) (h : ∀ launch ∈ s.launches, launch.settled ≠ none) :
    s.listeners = [] := by
  have hlive : s.live = [] := by
    rw [live, List.filter_eq_nil_iff]
    intro number _ hlive
    obtain ⟨launch, hl, hpending⟩ := isLive_iff.mp hlive
    exact h launch (List.mem_of_getElem? hl) hpending
  rw [hw, hlive, List.flatMap_nil]

/-! Every operation keeps a session wired. -/

theorem wired_of_unchanged {t : Session} (h : Wired s) (hlisteners : t.listeners = s.listeners)
    (hlive : t.live = s.live) : Wired t := by
  rw [Wired, hlisteners, hlive]
  exact h

theorem isLive_report (s : Session) (number other : Nat) (r : Report) :
    (s.report number r).isLive other = (s.isLive other && other ≠ number) := by
  rw [isLive, report_launches]
  by_cases he : number = other
  · subst he
    cases hl : s.launches[number]? <;> simp [isLive, hl, Launch.advance]
  · simp [isLive, he, Ne.symm he]

theorem live_report (s : Session) (number : Nat) (r : Report) :
    (s.report number r).live = s.live.filter (· ≠ number) := by
  have hlen : (s.report number r).launches.length = s.launches.length := by
    rw [report_launches, List.length_modify]
  rw [live, live, hlen, List.filter_filter]
  apply List.filter_congr
  intro other _
  rw [isLive_report, Bool.and_comm]

theorem listenersOf_nodup (number : Nat) : (listenersOf number).Nodup := by
  have hnodup : Signal.forwarded.Nodup := by decide
  exact hnodup.map fun _ _ h => congrArg Prod.fst h

theorem mem_listenersOf {listener : Signal × Nat} : listener ∈ listenersOf number ↔
    listener.1 ∈ Signal.forwarded ∧ listener.2 = number := by
  obtain ⟨signal, other⟩ := listener
  simp [listenersOf, eq_comm]

theorem listeners_nodup (h : Wired s) : s.listeners.Nodup := by
  rw [h, List.nodup_flatMap]
  refine ⟨fun number _ => listenersOf_nodup number, (live_sorted s).imp fun hlt => ?_⟩
  intro listener hfirst hsecond
  exact Nat.ne_of_lt hlt ((mem_listenersOf.mp hfirst).2.symm.trans (mem_listenersOf.mp hsecond).2)

theorem listeners_forwarded (h : Wired s) :
    ∀ listener ∈ s.listeners, listener.1 ∈ Signal.forwarded := by
  intro listener hm
  rw [h, List.mem_flatMap] at hm
  obtain ⟨_, -, hm⟩ := hm
  exact (mem_listenersOf.mp hm).1

theorem removeListener_listeners (h : s.listeners.Nodup) (number : Nat) (signal : Signal) :
    (s.removeListener number signal).listeners = s.listeners.filter (· != (signal, number)) := by
  rw [removeListener, (List.nodup_reverse.mpr h).erase_eq_filter, List.filter_reverse,
    List.reverse_reverse]

theorem foldl_removeListener_listeners (signals : List Signal) (h : s.listeners.Nodup)
    (number : Nat) : (signals.foldl (removeListener number) s).listeners =
      s.listeners.filter fun listener => !(signals.contains listener.1 && listener.2 = number) := by
  induction signals generalizing s with
  | nil => simp
  | cons signal rest ih =>
    have hremoved := removeListener_listeners h number signal
    have hnodup : (s.removeListener number signal).listeners.Nodup := by
      rw [hremoved]
      exact h.filter _
    rw [List.foldl_cons, ih hnodup, hremoved, List.filter_filter]
    apply List.filter_congr
    rintro ⟨other, n⟩ -
    by_cases hn : n = number <;> by_cases hs : other = signal <;> simp [hn, hs]

theorem unlisten_listeners (h : s.listeners.Nodup)
    (hf : ∀ listener ∈ s.listeners, listener.1 ∈ Signal.forwarded) (number : Nat) :
    (s.unlisten number).listeners = s.listeners.filter (·.2 ≠ number) := by
  rw [unlisten, foldl_removeListener_listeners _ h]
  apply List.filter_congr
  intro listener hm
  simp [hf listener hm]

theorem filter_listenersOf (other number : Nat) : (listenersOf other).filter (·.2 ≠ number) =
    if other = number then [] else listenersOf other := by
  by_cases he : other = number
  · simp [listenersOf, he]
  · rw [if_neg he, List.filter_eq_self]
    simp [listenersOf, he]

theorem filter_flatMap_listenersOf (number : Nat) (numbers : List Nat) :
    (numbers.flatMap listenersOf).filter (·.2 ≠ number) =
      (numbers.filter (· ≠ number)).flatMap listenersOf := by
  induction numbers with
  | nil => rfl
  | cons other rest ih =>
    rw [List.flatMap_cons, List.filter_append, ih, filter_listenersOf]
    by_cases he : other = number <;> simp [he]

theorem wired_report (h : Wired s) (number : Nat) (r : Report) : Wired (s.report number r) := by
  by_cases hlive : s.isLive number
  · obtain ⟨launch, hl, hs⟩ := isLive_iff.mp hlive
    rw [Wired, live_report, report_of_live hl hs, logReport_listeners]
    calc _ = s.listeners.filter (·.2 ≠ number) :=
          unlisten_listeners (listeners_nodup h) (listeners_forwarded h) number
      _ = _ := by rw [h, filter_flatMap_listenersOf]
  · rwa [report_of_not_live hlive]

theorem wired_reportAll (h : Wired s) (number : Nat) (rs : List Report) :
    Wired (s.reportAll number rs) := by
  induction rs generalizing s with
  | nil => exact h
  | cons r rs ih => exact ih (wired_report h number r)

theorem wired_kill (h : Wired s) (hl : s.launches[number]? = some launch) (signal : Signal)
    (reaction : Reaction) : Wired (s.kill number launch signal reaction).1 := by
  unfold kill
  apply wired_reportAll
  refine wired_of_unchanged h ?_ (live_congr (by simp) fun other => ?_)
  · rfl
  by_cases he : number = other
  · subst he
    obtain ⟨hlt, rfl⟩ := List.getElem?_eq_some_iff.mp hl
    simp [isLive, hlt]
  · simp [isLive, he]

theorem wired_hear (h : Wired s) (number : Nat) (signal : Signal) (react : Reactions) :
    Wired (s.hear number signal react).1 := by
  unfold hear
  cases hl : s.launches[number]? with
  | none => exact h
  | some launch =>
    by_cases ha : launch.absorbs signal
    · simpa [ha] using wired_of_unchanged (t := s.log (.alreadyDelivered signal)) h rfl rfl
    · have hlog : Wired (s.log (.forwarding signal)) := wired_of_unchanged h rfl rfl
      simpa [ha] using wired_kill hlog hl signal (react number launch)

/-- The session stays wired in the middle of a delivery, after each listener that was called. -/
theorem wired_deliverTo (signal : Signal) (react : Reactions) (numbers : List Nat)
    (h : Wired s) : Wired (deliverTo signal react numbers s).1 := by
  induction numbers generalizing s with
  | nil => exact h
  | cons number rest ih =>
    have hw := wired_hear h number signal react
    simp only [deliverTo]
    split
    next heard => rwa [heard] at hw
    next heard => rw [heard] at hw; exact ih hw

theorem live_append {t : Session} {started : Launch} (hs : started.settled = none)
    (ht : t.launches = s.launches ++ [started]) : t.live = s.live ++ [s.launches.length] := by
  have hnew : t.isLive s.launches.length := by simp [isLive, ht, hs]
  have hold : ∀ number ∈ List.range s.launches.length, t.isLive number = s.isLive number := by
    intro number hn
    rw [isLive, isLive, ht, List.getElem?_append_left (List.mem_range.mp hn)]
  rw [live, ht, List.length_append, List.length_singleton, List.range_succ, List.filter_append,
    List.filter_congr hold]
  simp [live, hnew]

theorem wired_step (h : Wired s) (e : Step) : Wired (s.step e) := by
  cases e with
  | launch request spawned =>
    cases hs : (Step.launch request spawned).started? with
    | none =>
      obtain ⟨hlaunches, hlisteners⟩ := step_of_not_started (s := s) hs
      refine wired_of_unchanged h hlisteners (live_congr (by rw [hlaunches]) fun number => ?_)
      rw [isLive, isLive, hlaunches]
    | some started =>
      obtain ⟨-, hpending, hlaunches, hlisteners⟩ := step_of_started (s := s) hs
      rw [Wired, hlisteners, live_append hpending hlaunches, List.flatMap_append, h]
      simp [listenersOf]
  | signal signal react => exact wired_deliverTo signal react _ h
  | report number r => exact wired_report h number r

theorem wired_stepAll (h : Wired s) (steps : List Step) : Wired (s.stepAll steps) := by
  induction steps generalizing s with
  | nil => exact h
  | cons e steps ih => exact ih (wired_step h e)

theorem wired_initial : Wired initial := rfl

/-! The launches of a session are the ones that its steps started, in that order. -/

theorem origins_modify {change : Launch → Launch} (h : ∀ l, (change l).origin = l.origin)
    (launches : List Launch) (number : Nat) :
    (launches.modify number change).map Launch.origin = launches.map Launch.origin := by
  apply List.ext_getElem?
  intro other
  by_cases he : number = other
  · subst he
    cases hl : launches[number]? <;> simp [hl, h]
  · simp [he]

theorem origins_deliverTo (signal : Signal) (react : Reactions) (numbers : List Nat)
    (s : Session) : (deliverTo signal react numbers s).1.launches.map Launch.origin =
      s.launches.map Launch.origin := by
  induction numbers generalizing s with
  | nil => rfl
  | cons number rest ih =>
    have ho : (s.hear number signal react).1.launches.map Launch.origin =
        s.launches.map Launch.origin := by
      rw [hear_launches]
      exact origins_modify (fun l => l.hear_origin signal _) _ _
    simp only [deliverTo]
    split
    next heard => rwa [heard] at ho
    next heard => rw [heard] at ho; rw [ih, ho]

theorem origins_step (s : Session) (e : Step) : (s.step e).launches.map Launch.origin =
    s.launches.map Launch.origin ++ e.started?.toList := by
  cases e with
  | launch request spawned =>
    cases hs : (Step.launch request spawned).started? with
    | none => simp [(step_of_not_started (s := s) hs).1]
    | some started =>
      obtain ⟨hkills, hpending, hlaunches, -⟩ := step_of_started (s := s) hs
      have ho : started.origin = started := by
        cases started
        simp_all [Launch.origin]
      simp [hlaunches, ho]
  | signal signal react => simp [Step.started?, step, deliverWith, origins_deliverTo]
  | report number r =>
    simp [Step.started?, step, report_launches, origins_modify fun l => l.advance_origin [] [r]]

theorem origins_stepAll (s : Session) (steps : List Step) :
    (s.stepAll steps).launches.map Launch.origin =
      s.launches.map Launch.origin ++ steps.filterMap Step.started? := by
  induction steps generalizing s with
  | nil => simp [stepAll]
  | cons e steps ih =>
    have hcons : s.stepAll (e :: steps) = (s.step e).stepAll steps := rfl
    rw [hcons, ih, origins_step, List.filterMap_cons]
    cases e.started? <;> simp

/-- After any steps, and after any part of a delivery that follows them, the listeners of a signal
are those of the live launches if it is forwarded, and there are none if it is not. -/
theorem listeners_of_live_launches (steps : List Step) :
    let s := initial.stepAll steps
    s.launches.map Launch.origin = steps.filterMap Step.started? ∧
    (∀ signal, s.hearers signal = if signal ∈ Signal.forwarded then s.live else []) ∧
    (∀ delivered react numbers signal,
      let t := (deliverTo delivered react numbers s).1
      t.hearers signal = if signal ∈ Signal.forwarded then t.live else []) ∧
    (∀ request spawn thrown, (s.launch request spawn).2 = .error thrown →
      (s.launch request spawn).1.launches = s.launches ∧
      (s.launch request spawn).1.listeners = s.listeners) := by
  have hw := wired_stepAll wired_initial steps
  refine ⟨by simpa [initial] using origins_stepAll initial steps, hearers_of_wired hw, ?_, ?_⟩
  · intro delivered react numbers signal
    exact hearers_of_wired (wired_deliverTo delivered react numbers hw) signal
  · intro request spawn thrown hfail
    exact launch_of_error hfail

end Elevation.Session
