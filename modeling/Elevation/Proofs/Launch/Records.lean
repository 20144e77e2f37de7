import Elevation.Proofs.Launch.Delivery
import Elevation.Proofs.Launch.Settlement

/-! What a launch that is alone in its session writes to the log. While it is pending, each
forwarded signal leaves one record, and the report that settles it leaves one if it is an exit. Once
it has settled, nothing is written any more. -/

namespace Elevation

def Report.record? : Report → Option Record
  | .exit code signal => some (.terminated code signal)
  | .error _ => none

namespace Launch

def recordOf (l : Launch) (signal : Signal) : Record :=
  if l.absorbs signal then .alreadyDelivered signal else .forwarding signal

/-- What the reports of a child add to the log: only the first one that finds the launch pending. -/
def endRecords (l : Launch) (reports : List Report) : List Record :=
  if l.settled.isSome then [] else (reports.head?.bind Report.record?).toList

@[simp] theorem recordOf_advance (l : Launch) (signals : List Signal) (rs : List Report) :
    (l.advance signals rs).recordOf = l.recordOf := rfl

theorem endRecords_of_settled {l : Launch} (h : l.settled.isSome) (rs : List Report) :
    l.endRecords rs = [] := by
  simp [endRecords, h]

theorem endRecords_append (l : Launch) (signals : List Signal) (rs further : List Report) :
    l.endRecords rs ++ (l.advance signals rs).endRecords further =
      l.endRecords (rs ++ further) := by
  cases hs : l.settled with
  | some outcome => simp [endRecords, advance, hs]
  | none => cases rs <;> simp [endRecords, advance, hs]

end Launch

namespace Session

variable {s : Session} {number : Nat} {launch : Launch} {signal : Signal} {react : Reactions}

/-- The launch is pending when a forwarded signal arrives. -/
structure Delivery.Hears (d : Delivery) (number : Nat) : Prop where
  forwarded : d.signal ∈ Signal.forwarded
  pending : ∃ launch ∈ d.session.launches[number]?, launch.settled = none

theorem Delivery.hears_iff (d : Delivery) (number : Nat) : d.Hears number ↔
    d.signal ∈ Signal.forwarded ∧ ∃ launch ∈ d.session.launches[number]?, launch.settled = none :=
  ⟨fun h => ⟨h.forwarded, h.pending⟩, fun h => ⟨h.1, h.2⟩⟩

instance (d : Delivery) (number : Nat) : Decidable (d.Hears number) :=
  decidable_of_iff' _ (d.hears_iff number)

/-- The signals that arrive while a launch is pending. -/
def heard (number : Nat) (ds : List Delivery) : List Signal :=
  (ds.filter (·.Hears number)).map (·.signal)

theorem heard_append (number : Nat) (ds more : List Delivery) :
    heard number (ds ++ more) = heard number ds ++ heard number more := by
  simp [heard]

/-! What single operations write. -/

@[simp] theorem unlisten_records (s : Session) (number : Nat) :
    (s.unlisten number).records = s.records := by
  rw [unlisten, foldl_removeListener]

theorem logReport_records (s : Session) (r : Report) :
    (s.logReport r).records = s.records ++ r.record?.toList := by
  cases r <;> simp [logReport, log, Report.record?]

theorem reportAll_records (hl : s.launches[number]? = some launch) (rs : List Report) :
    (s.reportAll number rs).records = s.records ++ launch.endRecords rs := by
  cases rs with
  | nil => simp [reportAll, Launch.endRecords]
  | cons r rs =>
    rw [reportAll_cons, reportAll_after_report]
    cases hs : launch.settled with
    | some outcome => simp [report_of_settled hl, hs, Launch.endRecords]
    | none => simp [report_of_live hl hs, hs, logReport_records, Launch.endRecords]

theorem kill_records (hl : s.launches[number]? = some launch) (signal : Signal)
    (reaction : Reaction) : (s.kill number launch signal reaction).1.records =
      s.records ++ launch.endRecords reaction.reports := by
  have hlt := (List.getElem?_eq_some_iff.mp hl).1
  let killed : Launch := { launch with kills := launch.kills ++ [signal] }
  have hkilled : (s.launches.set number killed)[number]? = some killed :=
    List.getElem?_set_self hlt
  exact reportAll_records (s := { s with launches := s.launches.set number killed }) hkilled
    reaction.reports

theorem hear_records (hl : s.launches[number]? = some launch) (signal : Signal)
    (react : Reactions) : (s.hear number signal react).1.records =
      s.records ++ launch.recordOf signal ::
        if launch.absorbs signal then [] else launch.endRecords (react number launch).reports := by
  unfold hear
  rw [hl]
  by_cases ha : launch.absorbs signal
  · simp [ha, log, Launch.recordOf]
  · simp only [ha, Bool.false_eq_true, if_false]
    rw [kill_records (s := s.log (.forwarding signal)) hl]
    simp [log, Launch.recordOf, ha]

/-! A launch that is alone. -/

section

variable (hw : Wired s) (hl : s.launches = [launch])
include hl

theorem live_of_alone : s.live = if launch.settled = none then [0] else [] := by
  have hzero : s.isLive 0 = launch.settled.isNone := isLive_of_some (by rw [hl]; rfl)
  rw [live, hl]
  cases hs : launch.settled <;> simp [hzero, hs]

theorem hears_of_alone :
    Delivery.Hears ⟨s, signal, react⟩ 0 ↔ signal ∈ Signal.forwarded ∧ launch.settled = none := by
  simp [Delivery.hears_iff, hl]

theorem reaches_of_alone : Delivery.Reaches ⟨s, signal, react⟩ 0 ↔
    Delivery.Hears ⟨s, signal, react⟩ 0 ∧ ¬ launch.absorbs signal := by
  rw [hears_of_alone hl]
  constructor
  · rintro ⟨hforwarded, ⟨other, hother, hconcerns⟩, -⟩
    obtain rfl : launch = other := by simpa [hl] using hother
    obtain ⟨hpending, ha⟩ := (Delivery.concerns_iff _ _).mp hconcerns
    exact ⟨⟨hforwarded, hpending⟩, ha⟩
  · rintro ⟨⟨hforwarded, hpending⟩, ha⟩
    refine ⟨hforwarded, ⟨launch, by simp [hl], ?_⟩, fun earlier hlt => absurd hlt (by omega)⟩
    exact (Delivery.concerns_iff _ _).mpr ⟨hpending, ha⟩

theorem received_of_alone (signal : Signal) (react : Reactions) :
    received 0 [⟨s, signal, react⟩] =
      (heard 0 [⟨s, signal, react⟩]).filter fun signal => !launch.absorbs signal := by
  by_cases hh : Delivery.Hears ⟨s, signal, react⟩ 0 <;> by_cases ha : launch.absorbs signal <;>
    simp [received, heard, reaches_of_alone hl, hh, ha]

include hw

theorem deliverWith_records (signal : Signal) (react : Reactions) :
    (s.deliverWith signal react).1.records =
      s.records ++ (heard 0 [⟨s, signal, react⟩]).map launch.recordOf ++
        launch.endRecords (s.reportsIn 0 (.signal signal react)) := by
  have hl0 : s.launches[0]? = some launch := by rw [hl]; rfl
  by_cases hh : Delivery.Hears ⟨s, signal, react⟩ 0
  · obtain ⟨hforwarded, hpending⟩ := (hears_of_alone hl).mp hh
    have hearers : s.hearers signal = [0] := by
      rw [hearers_of_wired hw, if_pos hforwarded, live_of_alone hl, if_pos hpending]
    rw [deliverWith, hearers, deliverTo_cons]
    simp only [deliverTo, ite_self, hear_records hl0, reportsIn, hl0, reaches_of_alone hl, hh]
    by_cases ha : launch.absorbs signal <;> simp [ha, heard, hh, Launch.endRecords]
  · have hearers : s.hearers signal = [] := by
      rw [hearers_of_wired hw, live_of_alone hl]
      rw [hears_of_alone hl] at hh
      by_cases hforwarded : signal ∈ Signal.forwarded <;> simp_all
    rw [deliverWith, hearers]
    simp [deliverTo, heard, hh, reportsIn, hl0, reaches_of_alone hl, Launch.endRecords]

end

end Session

end Elevation
