import Elevation.Proofs.Launch.Listening

/-! What the steps of a session bring to one launch. Whether a signal reaches a child is said
without any listener: by the launches that are live when the signal arrives, their terminals, and
the calls that throw before it is the child's turn. The listeners of a wired session do just that.
-/

namespace Elevation.Session

/-- A signal that arrives: the session that it finds, and how the children take it. -/
structure Delivery where
  session : Session
  signal : Signal
  react : Reactions

namespace Delivery

/-- The launch is pending, and no terminal has delivered the signal to it already. -/
def Concerns (d : Delivery) (launch : Launch) : Prop :=
  launch.settled = none ∧
    (launch.terminalAttached = true → d.signal ≠ Signal.int ∧ d.signal ≠ Signal.quit)

instance (d : Delivery) (launch : Launch) : Decidable (d.Concerns launch) :=
  inferInstanceAs (Decidable (_ ∧ _))

/-- The signal reaches the child of a launch: no child of an earlier launch throws before. -/
structure Reaches (d : Delivery) (number : Nat) : Prop where
  forwarded : d.signal ∈ Signal.forwarded
  concerned : ∃ launch ∈ d.session.launches[number]?, d.Concerns launch
  unbroken : ∀ earlier < number, ∀ launch ∈ d.session.launches[earlier]?,
    d.Concerns launch → (d.react earlier launch).thrown = none

instance (d : Delivery) (number : Nat) : Decidable (d.Reaches number) :=
  decidable_of_iff (d.signal ∈ Signal.forwarded ∧
      (∃ launch ∈ d.session.launches[number]?, d.Concerns launch) ∧
      ∀ earlier < number, ∀ launch ∈ d.session.launches[earlier]?,
        d.Concerns launch → (d.react earlier launch).thrown = none)
    ⟨fun h => ⟨h.1, h.2.1, h.2.2⟩, fun h => ⟨h.forwarded, h.concerned, h.unbroken⟩⟩

end Delivery

def deliveries (s : Session) : List Step → List Delivery
  | [] => []
  | .signal signal react :: rest =>
    ⟨s, signal, react⟩ :: (s.step (.signal signal react)).deliveries rest
  | e :: rest => (s.step e).deliveries rest

/-- What the child of a launch reports in a step, be it inside a call that sends it a signal. -/
def reportsIn (s : Session) (number : Nat) : Step → List Report
  | .launch _ _ => []
  | .signal signal react =>
    match s.launches[number]? with
    | some launch =>
      if Delivery.Reaches ⟨s, signal, react⟩ number then (react number launch).reports else []
    | none => []
  | .report other r => if other = number then [r] else []

/-- What the child of a launch reports in the course of some steps. -/
def reportsOf (s : Session) (number : Nat) : List Step → List Report
  | [] => []
  | e :: rest => s.reportsIn number e ++ (s.step e).reportsOf number rest

def received (number : Nat) (ds : List Delivery) : List Signal :=
  (ds.filter (·.Reaches number)).map (·.signal)

variable {s : Session} {number : Nat} {launch : Launch} {signal : Signal} {react : Reactions}

/-! The walk over the listeners. -/

/-- The launches whose listeners are called: the first one that throws is the last. -/
def called (s : Session) (signal : Signal) (react : Reactions) : List Nat → List Nat
  | [] => []
  | number :: rest =>
    number :: if (s.hear number signal react).2.isSome then [] else s.called signal react rest

theorem called_subset (s : Session) (signal : Signal) (react : Reactions) (numbers : List Nat) :
    s.called signal react numbers ⊆ numbers := by
  induction numbers with
  | nil => exact List.Subset.refl _
  | cons number rest ih =>
    apply List.cons_subset_cons
    split
    · exact List.nil_subset _
    · exact ih

theorem called_congr {t : Session} {numbers : List Nat}
    (h : ∀ number ∈ numbers, t.launches[number]? = s.launches[number]?) :
    t.called signal react numbers = s.called signal react numbers := by
  induction numbers with
  | nil => rfl
  | cons number rest ih =>
    have hhead := h number List.mem_cons_self
    have htail := ih fun other ho => h other (List.mem_cons_of_mem _ ho)
    simp only [called, hear_thrown, hhead, htail]

theorem mem_called {numbers : List Nat} (hsorted : numbers.Pairwise (· < ·)) :
    number ∈ s.called signal react numbers ↔ number ∈ numbers ∧
      ∀ earlier ∈ numbers, earlier < number → (s.hear earlier signal react).2 = none := by
  induction numbers with
  | nil => simp [called]
  | cons first rest ih =>
    obtain ⟨hfirst, hrest⟩ := List.pairwise_cons.mp hsorted
    by_cases he : number = first
    · subst he
      have hnone : ∀ earlier ∈ number :: rest, ¬ earlier < number := by
        intro earlier hm hlt
        rcases List.mem_cons.mp hm with rfl | hm
        · exact Nat.lt_irrefl _ hlt
        · exact Nat.lt_asymm hlt (hfirst earlier hm)
      simp only [called, List.mem_cons_self, true_and, true_iff]
      exact fun earlier hm hlt => absurd hlt (hnone earlier hm)
    · cases hout : (s.hear first signal react).2 with
      | some thrown =>
        simp only [called, hout, Option.isSome_some, if_true, List.mem_singleton, he, false_iff]
        rintro ⟨hm, hearlier⟩
        have hlt := hfirst number ((List.mem_cons.mp hm).resolve_left he)
        rw [hearlier first List.mem_cons_self hlt] at hout
        cases hout
      | none => simp [called, hout, he, ih hrest]

theorem hear_other {other : Nat} (h : other ≠ number) :
    (s.hear number signal react).1.launches[other]? = s.launches[other]? := by
  rw [hear_launches, List.getElem?_modify_ne _ _ (Ne.symm h)]

theorem deliverTo_cons (s : Session) (signal : Signal) (react : Reactions) (number : Nat)
    (rest : List Nat) : (deliverTo signal react (number :: rest) s).1 =
      if (s.hear number signal react).2.isSome then (s.hear number signal react).1
      else (deliverTo signal react rest (s.hear number signal react).1).1 := by
  simp only [deliverTo]
  split <;> simp_all

theorem deliverTo_getElem? {numbers : List Nat} (hnodup : numbers.Nodup) (s : Session)
    (number : Nat) : (deliverTo signal react numbers s).1.launches[number]? =
      (s.launches[number]?).map fun l =>
        if number ∈ s.called signal react numbers then l.hear signal (react number l) else l := by
  induction numbers generalizing s with
  | nil => simp [deliverTo, called]
  | cons first rest ih =>
    obtain ⟨hfirst, hrest⟩ := List.nodup_cons.mp hnodup
    have hcalled : (s.hear first signal react).1.called signal react rest =
        s.called signal react rest :=
      called_congr fun other ho => hear_other fun he => hfirst (he ▸ ho)
    rw [deliverTo_cons]
    by_cases he : number = first
    · subst he
      have hnot : number ∉ s.called signal react rest := fun h =>
        hfirst (called_subset s signal react rest h)
      have hself : (s.hear number signal react).1.launches[number]? =
          (s.launches[number]?).map fun l => l.hear signal (react number l) := by
        rw [hear_launches, List.getElem?_modify_eq]
        rfl
      split
      · simp [called, hself]
      · simp [called, ih hrest, hcalled, hnot, hself, Function.comp_def]
    · split
      next hout => simp [called, hout, he, hear_other he]
      next hout => simp [called, hout, he, ih hrest, hcalled, hear_other he]

/-! Which signals reach a child. -/

theorem Delivery.concerns_iff (d : Delivery) (launch : Launch) :
    d.Concerns launch ↔ launch.settled = none ∧ ¬ launch.absorbs d.signal := by
  simp [Delivery.Concerns, Launch.absorbs, Signal.fromTerminal]

theorem hear_quiet_iff : (s.hear number signal react).2 = none ↔
    ∀ launch ∈ s.launches[number]?, ¬ launch.absorbs signal →
      (react number launch).thrown = none := by
  rw [hear_thrown]
  cases s.launches[number]? with
  | none => simp
  | some launch => by_cases ha : launch.absorbs signal <;> simp [ha]

theorem concerned_iff (hl : s.launches[number]? = some launch) :
    (∃ other ∈ s.launches[number]?, Delivery.Concerns ⟨s, signal, react⟩ other) ↔
      number ∈ s.live ∧ ¬ launch.absorbs signal := by
  simp [hl, Delivery.concerns_iff, isLive_of_some hl]

/-- Nothing throws before the turn of a launch if no earlier listener does. -/
theorem unbroken_iff :
    (∀ earlier < number, ∀ other ∈ s.launches[earlier]?,
      Delivery.Concerns ⟨s, signal, react⟩ other → (react earlier other).thrown = none) ↔
    ∀ earlier ∈ s.live, earlier < number → (s.hear earlier signal react).2 = none := by
  constructor
  · intro hunbroken earlier hm hlt
    obtain ⟨live, hlive, hpending⟩ := isLive_iff.mp (mem_live.mp hm)
    rw [hear_quiet_iff]
    intro other ho ha
    obtain rfl := Option.some.inj (hlive.symm.trans ho)
    exact hunbroken earlier hlt _ ho ((Delivery.concerns_iff _ _).mpr ⟨hpending, ha⟩)
  · intro hquiet earlier hlt other ho hc
    obtain ⟨hpending, ha⟩ := (Delivery.concerns_iff _ _).mp hc
    have hm : earlier ∈ s.live := mem_live.mpr (isLive_iff.mpr ⟨other, ho, hpending⟩)
    exact hear_quiet_iff.mp (hquiet earlier hm hlt) other ho ha

theorem reaches_iff (hw : Wired s) (hl : s.launches[number]? = some launch) :
    Delivery.Reaches ⟨s, signal, react⟩ number ↔
      number ∈ s.called signal react (s.hearers signal) ∧ ¬ launch.absorbs signal := by
  rw [hearers_of_wired hw]
  by_cases hf : signal ∈ Signal.forwarded
  · rw [if_pos hf, mem_called (live_sorted s)]
    constructor
    · rintro ⟨-, hconcerned, hunbroken⟩
      obtain ⟨hm, ha⟩ := (concerned_iff hl).mp hconcerned
      exact ⟨⟨hm, unbroken_iff.mp hunbroken⟩, ha⟩
    · rintro ⟨⟨hm, hquiet⟩, ha⟩
      exact ⟨hf, (concerned_iff hl).mpr ⟨hm, ha⟩, unbroken_iff.mpr hquiet⟩
  · rw [if_neg hf]
    simp only [called, List.not_mem_nil, false_and, iff_false]
    exact fun h => hf h.forwarded

theorem deliverWith_getElem? (hw : Wired s) (hl : s.launches[number]? = some launch)
    (signal : Signal) (react : Reactions) :
    (s.deliverWith signal react).1.launches[number]? =
      some (if Delivery.Reaches ⟨s, signal, react⟩ number
        then launch.advance [signal] (react number launch).reports else launch) := by
  have hnodup : (s.hearers signal).Nodup := by
    rw [hearers_of_wired hw]
    split
    · exact (live_sorted s).imp Nat.ne_of_lt
    · exact List.nodup_nil
  rw [deliverWith, deliverTo_getElem? hnodup, hl, Option.map_some]
  simp only [reaches_iff hw hl, Launch.hear]
  by_cases hc : number ∈ s.called signal react (s.hearers signal) <;>
    by_cases ha : launch.absorbs signal <;> simp [hc, ha]

/-! What a whole run brings to a launch. -/

theorem deliveries_cons (s : Session) (e : Step) (rest : List Step) :
    s.deliveries (e :: rest) = s.deliveries [e] ++ (s.step e).deliveries rest := by
  cases e <;> rfl

theorem received_append (number : Nat) (ds more : List Delivery) :
    received number (ds ++ more) = received number ds ++ received number more := by
  simp [received]

theorem step_getElem? (hw : Wired s) (hl : s.launches[number]? = some launch) (e : Step) :
    (s.step e).launches[number]? =
      some (launch.advance (received number (s.deliveries [e])) (s.reportsIn number e)) := by
  cases e with
  | launch request spawned =>
    have hkept : (s.step (.launch request spawned)).launches[number]? = s.launches[number]? := by
      cases hs : (Step.launch request spawned).started? with
      | none => rw [(step_of_not_started hs).1]
      | some started =>
        obtain ⟨-, -, hlaunches, -⟩ := step_of_started (s := s) hs
        rw [hlaunches, List.getElem?_append_left (List.getElem?_eq_some_iff.mp hl).1]
    simp [hkept, hl, received, deliveries, reportsIn]
  | signal signal react =>
    rw [step, deliverWith_getElem? hw hl]
    by_cases hr : Delivery.Reaches ⟨s, signal, react⟩ number <;>
      simp [hr, hl, received, deliveries, reportsIn]
  | report other r =>
    rw [step, report_launches]
    by_cases he : other = number <;> simp [he, hl, received, deliveries, reportsIn]

theorem stepAll_getElem? (hw : Wired s) (hl : s.launches[number]? = some launch)
    (steps : List Step) : (s.stepAll steps).launches[number]? =
      some (launch.advance (received number (s.deliveries steps)) (s.reportsOf number steps)) := by
  induction steps generalizing s launch with
  | nil => simp [stepAll, hl, received, deliveries, reportsOf]
  | cons e steps ih =>
    have hcons : s.stepAll (e :: steps) = (s.step e).stepAll steps := rfl
    rw [hcons, ih (wired_step hw e) (step_getElem? hw hl e), Launch.advance_advance,
      deliveries_cons s e steps, received_append, reportsOf]

theorem settled_stepAll (hw : Wired s) (hl : s.launches[number]? = some launch)
    (hpending : launch.settled = none) (steps : List Step) :
    ∃ final, (s.stepAll steps).launches[number]? = some final ∧
      final.settled = (s.reportsOf number steps).head?.map launch.settlement := by
  refine ⟨_, stepAll_getElem? hw hl steps, ?_⟩
  rw [Launch.advance, hpending, Option.none_or]

theorem stepAll_append (s : Session) (steps more : List Step) :
    s.stepAll (steps ++ more) = (s.stepAll steps).stepAll more := List.foldl_append

theorem deliveries_append (s : Session) (steps more : List Step) :
    s.deliveries (steps ++ more) = s.deliveries steps ++ (s.stepAll steps).deliveries more := by
  induction steps generalizing s with
  | nil => rfl
  | cons e steps ih =>
    rw [List.cons_append, deliveries_cons, ih, deliveries_cons s e steps, List.append_assoc]
    rfl

theorem length_le_step (s : Session) (e : Step) :
    s.launches.length ≤ (s.step e).launches.length := by
  have ho := congrArg List.length (origins_step s e)
  simp only [List.length_map, List.length_append] at ho
  omega

theorem length_le_stepAll (s : Session) (steps : List Step) :
    s.launches.length ≤ (s.stepAll steps).launches.length := by
  induction steps generalizing s with
  | nil => exact Nat.le_refl _
  | cons e steps ih => exact Nat.le_trans (length_le_step s e) (ih (s.step e))

/-- A launch that was not there at the end of a run was not there when its signals arrived. -/
theorem not_reaches_before {steps : List Step} {d : Delivery} (hd : d ∈ s.deliveries steps)
    (hnumber : (s.stepAll steps).launches.length ≤ number) : ¬ d.Reaches number := by
  induction steps generalizing s with
  | nil => cases hd
  | cons e steps ih =>
    rw [deliveries_cons] at hd
    rcases List.mem_append.mp hd with hd | hd
    · have hlen : s.launches.length ≤ number :=
        Nat.le_trans (length_le_stepAll s (e :: steps)) hnumber
      cases e with
      | launch request spawned => cases hd
      | signal signal react =>
        obtain rfl := List.mem_singleton.mp hd
        rintro ⟨-, ⟨launch, hl, -⟩, -⟩
        have hlt := (List.getElem?_eq_some_iff.mp hl).1
        exact Nat.not_lt.mpr hlen hlt
      | report other r => cases hd
    · exact ih hd hnumber

theorem received_after {before : List Step}
    (hnumber : (s.stepAll before).launches.length ≤ number) (after : List Step) :
    received number (s.deliveries (before ++ after)) =
      received number ((s.stepAll before).deliveries after) := by
  have hnone : received number (s.deliveries before) = [] := by
    simp only [received, List.map_eq_nil_iff, List.filter_eq_nil_iff, decide_eq_true_eq]
    exact fun d hd => not_reaches_before hd hnumber
  rw [deliveries_append, received_append, hnone, List.nil_append]

/-- A settled launch is left alone for good. -/
theorem stepAll_of_settled (hw : Wired s) (hl : s.launches[number]? = some launch)
    (hs : launch.settled.isSome) (steps : List Step) :
    (s.stepAll steps).launches[number]? = some launch := by
  induction steps generalizing s with
  | nil => exact hl
  | cons e steps ih =>
    apply ih (wired_step hw e)
    have hnone : received number (s.deliveries [e]) = [] := by
      cases e with
      | launch request spawned => rfl
      | signal signal react =>
        have hnot : ¬ Delivery.Reaches ⟨s, signal, react⟩ number := by
          rintro ⟨-, ⟨other, ho, hpending, -⟩, -⟩
          obtain rfl := Option.some.inj (hl.symm.trans ho)
          simp [hpending] at hs
        simp [received, deliveries, hnot]
      | report other r => rfl
    rw [step_getElem? hw hl, hnone, Launch.advance_of_settled hs]

theorem step_launch_getElem? (s : Session) {request : LaunchRequest} {file : String}
    {args : List String} (hargv : request.argv = file :: args) (hfile : file ≠ "")
    (child : Child) : (s.step (.launch request (.ok child))).launches[s.launches.length]? =
      some ⟨⟨file, args⟩, request.terminalAttached, child, [], none⟩ := by
  have hs : (Step.launch request (.ok child)).started? =
      some ⟨⟨file, args⟩, request.terminalAttached, child, [], none⟩ := by
    simp [Step.started?, hargv, Command.ofArgv?, hfile]
  rw [(step_of_started hs).2.2.1]
  simp

end Elevation.Session
