import Elevation.Proofs.Launch.Records
import Elevation.Proofs.Config.Loading
import Elevation.Proofs.Run.Ending

/-! The log as a trace of a run. What is written tells, in this order, where the settings came from,
whether the helper was missed, what was decided, that a child was started, which signals arrived
while it ran, and how it ended. Each part is there exactly if what it tells has happened. -/

namespace Elevation

namespace Session

variable {s : Session} {launch : Launch}

/-- What has become of a launch that is alone, after some signals and reports. -/
structure Followed (s : Session) (launch : Launch) (ds : List Delivery) (rs : List Report)
    (t : Session) : Prop where
  wired : Wired t
  alone : t.launches = [launch.advance (received 0 ds) rs]
  received_eq : received 0 ds = (heard 0 ds).filter fun signal => !launch.absorbs signal
  records_eq : t.records = s.records ++ (heard 0 ds).map launch.recordOf ++ launch.endRecords rs

theorem followed_step (hw : Wired s) (hl : s.launches = [launch]) (happening : Happening) :
    let e := happening.step 0
    Followed s launch (s.deliveries [e]) (s.reportsIn 0 e) (s.step e) := by
  intro e
  have hl0 : s.launches[0]? = some launch := by rw [hl]; rfl
  constructor
  · exact wired_step hw e
  · have hlen := congrArg List.length (origins_step s e)
    have hnone : e.started? = none := by cases happening <;> rfl
    simp only [List.length_map, hnone, hl, List.length_append, List.length_singleton,
      Option.toList_none, List.length_nil] at hlen
    obtain ⟨after, hafter⟩ := List.length_eq_one_iff.mp hlen
    have hstep := step_getElem? hw hl0 e
    rw [hafter] at hstep ⊢
    simpa using hstep
  · cases happening with
    | signal sent react => exact received_of_alone hl sent fun _ => react
    | report made => rfl
  · cases happening with
    | signal sent react => exact deliverWith_records hw hl sent fun _ => react
    | report made =>
      have hreport := reportAll_records hl0 [made]
      simpa [e, Happening.step, step, reportAll, deliveries, heard, reportsIn] using hreport

theorem heard_of_settled (hw : Wired s) (hl : s.launches = [launch]) (hs : launch.settled.isSome)
    (happenings : List Happening) : heard 0 (s.deliveries (happenings.map (·.step 0))) = [] := by
  induction happenings generalizing s launch with
  | nil => rfl
  | cons happening rest ih =>
    have hstep := followed_step hw hl happening
    have hnow : heard 0 (s.deliveries [happening.step 0]) = [] := by
      cases happening with
      | report made => rfl
      | signal sent react =>
        have hpending : launch.settled ≠ none := Option.isSome_iff_ne_none.mp hs
        simp [heard, Happening.step, deliveries, hears_of_alone hl, hpending]
    rw [List.map_cons, deliveries_cons, heard_append, hnow, List.nil_append]
    apply ih hstep.wired hstep.alone
    simp [Launch.advance, hs]

/-- What is written by the two halves is written in this order: if the first half settles the
launch, the second one hears nothing. -/
theorem Followed.trans {t u : Session} {ds more : List Delivery} {rs further : List Report}
    (h : Followed s launch ds rs t)
    (k : Followed t (launch.advance (received 0 ds) rs) more further u)
    (hquiet : (launch.advance (received 0 ds) rs).settled.isSome → heard 0 more = []) :
    Followed s launch (ds ++ more) (rs ++ further) u := by
  constructor
  · exact k.wired
  · rw [k.alone, Launch.advance_advance, received_append]
  · rw [received_append, heard_append, List.filter_append, h.received_eq, k.received_eq]
    rfl
  · rw [k.records_eq, h.records_eq, heard_append, List.map_append, Launch.recordOf_advance,
      ← launch.endRecords_append (received 0 ds)]
    cases hs : (launch.advance (received 0 ds) rs).settled with
    | some outcome => simp [hquiet (by rw [hs]; rfl)]
    | none =>
      have hnone : rs = [] := by
        cases rs with
        | nil => rfl
        | cons r rs => cases hl : launch.settled <;> simp [Launch.advance, hl] at hs
      simp [hnone, Launch.endRecords]

theorem followed_stepAll (hw : Wired s) (hl : s.launches = [launch])
    (happenings : List Happening) :
    let steps := happenings.map (·.step 0)
    Followed s launch (s.deliveries steps) (s.reportsOf 0 steps) (s.stepAll steps) := by
  intro steps
  induction happenings generalizing s launch with
  | nil =>
    refine ⟨hw, ?_, rfl, ?_⟩
    · simpa [steps, stepAll, deliveries, received, reportsOf] using hl
    · simp [steps, stepAll, deliveries, heard, reportsOf, Launch.endRecords]
  | cons happening rest ih =>
    have hstep := followed_step hw hl happening
    have hrest := ih hstep.wired hstep.alone
    have hall := hstep.trans hrest fun hs => heard_of_settled hstep.wired hstep.alone hs rest
    rwa [← deliveries_cons] at hall

theorem records_of_settled (hw : Wired s) (hl : s.launches = [launch])
    (hs : launch.settled.isSome) (happenings : List Happening) :
    (s.stepAll (happenings.map (·.step 0))).records = s.records := by
  rw [(followed_stepAll hw hl happenings).records_eq, heard_of_settled hw hl hs,
    launch.endRecords_of_settled hs]
  simp

end Session

def Record.AboutConfig (path : String) : Record → Prop
  | configMissing file => file = path
  | configUnreadable file _ => file = path
  | configInvalid file _ => file = path
  | configLoaded file _ => file = path
  | _ => False

inductive Record.WrittenAs : Record → Level → String → Prop
  | configMissing (path : String) :
      WrittenAs (.configMissing path) .debug "No config file, using defaults"
  | configUnreadable (path : String) (cause : Unreadable) :
      WrittenAs (.configUnreadable path cause) .error "Failed to read config, using defaults"
  | configInvalid (path : String) (issues : List Config.Issue) :
      WrittenAs (.configInvalid path issues) .error "Invalid config, using defaults"
  | configLoaded (path : String) (config : Config) :
      WrittenAs (.configLoaded path config) .debug "Config loaded"
  | helperMissing (helper : String) :
      WrittenAs (.helperMissing helper) .warn
        "Escalation helper not found, running command directly"
  | decided (decision : Decision) (argv : List String) :
      WrittenAs (.decided decision argv) .debug "Execution decided"
  | launched (argv : List String) : WrittenAs (.launched argv) .debug "Launched"
  | forwarding (signal : Signal) : WrittenAs (.forwarding signal) .debug "Forwarding signal"
  | alreadyDelivered (signal : Signal) :
      WrittenAs (.alreadyDelivered signal) .debug "Terminal signal already delivered to child"
  | terminated (code : Option Int) (signal : Option Signal) :
      WrittenAs (.terminated code signal) .debug "Child terminated"

theorem Record.writtenAs (record : Record) : record.WrittenAs record.level record.message := by
  cases record <;> constructor

theorem Record.written_debug (records : List Record) : Record.written .debug records = records := by
  rw [Record.written, List.filter_eq_self]
  intro record _
  cases record <;> rfl

theorem Config.load_aboutConfig (fs : FileSystem) (path : String) :
    (Config.load fs path).record.AboutConfig path := by
  rcases Config.load_cases fs path with ⟨-, h⟩ | ⟨-, -, cause, h⟩ | ⟨-, -, issues, h⟩ |
    ⟨-, -, config, h⟩ <;> rw [h] <;> rfl

namespace Run

def configPath (setting : Setting) (env : Variables) : String :=
  (LaunchEnvironment.read setting.home env).configPath

def heard (request : LaunchRequest) (child : Child) (h : History) : List Signal :=
  Session.heard 0 ((begun request child).deliveries h.steps)

/-- A run hands a command to the system, and gets a child. -/
structure Starts (setting : Setting) (history : Command → History) (invocation : List String)
    (env : Variables) (command : Command) (child : Child) : Prop where
  called : (runAlong setting history invocation env).session.calls =
    [⟨command, .inherited, .given⟩]
  returned : (history command).spawned = .ok child

variable {setting : Setting} {history : Command → History} {env : Variables}
  {invocation : List String} {command : Command} {child : Child}

theorem starts_iff : Starts setting history invocation env command child ↔
    ∃ decision, (verdict setting env).answer = .ok decision ∧
      Command.ofArgv? (decision.argv invocation) = some command ∧
      (history command).spawned = .ok child := by
  constructor
  · rintro ⟨hcalls, hspawned⟩
    obtain ⟨decision, hverdict, hargv⟩ := decision_of_calls hcalls
    exact ⟨decision, hverdict, hargv, hspawned⟩
  · rintro ⟨decision, hverdict, hargv, hspawned⟩
    refine ⟨?_, hspawned⟩
    rw [(runAlong_of_decision hverdict history invocation).1, along_calls hargv]

theorem Starts.of_decision {decision : Decision}
    (hs : Starts setting history invocation env command child)
    (h : (verdict setting env).answer = .ok decision) :
    Command.ofArgv? (decision.argv invocation) = some command ∧
      (history command).spawned = .ok child := by
  obtain ⟨other, hother, hargv, hspawned⟩ := starts_iff.1 hs
  obtain rfl := Except.ok.inj (h.symm.trans hother)
  exact ⟨hargv, hspawned⟩

theorem Starts.unique {other : Command} {kid : Child}
    (hs : Starts setting history invocation env command child)
    (hk : Starts setting history invocation env other kid) : other = command ∧ kid = child := by
  obtain ⟨decision, h, hargv, hspawned⟩ := starts_iff.1 hs
  obtain ⟨hargv', hspawned'⟩ := hk.of_decision h
  obtain rfl := Option.some.inj (hargv.symm.trans hargv')
  exact ⟨rfl, Except.ok.inj (hspawned'.symm.trans hspawned)⟩

theorem runAlong_records_of_error {thrown : Thrown}
    (h : (verdict setting env).answer = .error thrown) :
    (runAlong setting history invocation env).records =
      [(Config.load setting.files (configPath setting env)).record] := by
  unfold verdict at h
  simp [runAlong, configPath, h]

theorem runAlong_records_of_decision {decision : Decision}
    (h : (verdict setting env).answer = .ok decision) :
    (runAlong setting history invocation env).records =
      (Config.load setting.files (configPath setting env)).record ::
        decision.records ++ .decided decision (decision.argv invocation) ::
          (runAlong setting history invocation env).session.records := by
  unfold verdict at h
  simp [runAlong, configPath, h]

theorem begun_records {request : LaunchRequest} (h : Command.ofArgv? request.argv = some command)
    (child : Child) : (begun request child).records = [.launched command.argv] := by
  simp [begun, Session.step, Session.launch, h, Session.log, Session.listen_eq, Session.initial]

theorem followed_of_decision {decision : Decision} (h : (verdict setting env).answer = .ok decision)
    (hargv : Command.ofArgv? (decision.argv invocation) = some command)
    (hspawned : (history command).spawned = .ok child) :
    let request : LaunchRequest := ⟨command.argv, .given, setting.terminalAttached⟩
    Session.Followed (begun request child) ⟨command, setting.terminalAttached, child, [], none⟩
      ((begun request child).deliveries (history command).steps)
      (reports request child (history command))
      (runAlong setting history invocation env).session := by
  intro request
  have hwords : command.argv = decision.argv invocation := (argv_of_ofArgv? hargv).1
  have hsession := (runAlong_of_decision h history invocation).1
  rw [along_of_child hargv hspawned, ← hwords] at hsession
  rw [hsession]
  have hrequest : Command.ofArgv? request.argv = some command := by
    change Command.ofArgv? command.argv = some command
    rw [hwords]
    exact hargv
  have hlaunches := begun_launches hrequest child
  exact Session.followed_stepAll (wired_begun request child) hlaunches _

theorem child_or_none {decision : Decision} (h : (verdict setting env).answer = .ok decision) :
    (∃ command child, Command.ofArgv? (decision.argv invocation) = some command ∧
      (history command).spawned = .ok child) ∨
    (∀ command child, ¬ Starts setting history invocation env command child) ∧
      (runAlong setting history invocation env).session.launches = [] ∧
      (runAlong setting history invocation env).session.records = [] := by
  rw [(runAlong_of_decision h history invocation).1]
  cases hargv : Command.ofArgv? (decision.argv invocation) with
  | none =>
    right
    rw [along_of_none hargv]
    refine ⟨fun command child hs => ?_, rfl, rfl⟩
    cases hargv.symm.trans (hs.of_decision h).1
  | some command =>
    cases hspawned : (history command).spawned with
    | ok child => exact .inl ⟨command, child, rfl, hspawned⟩
    | error thrown =>
      right
      rw [along_of_thrown hargv hspawned]
      refine ⟨fun other child hs => ?_, rfl, rfl⟩
      obtain ⟨hother, hchild⟩ := hs.of_decision h
      obtain rfl := Option.some.inj (hargv.symm.trans hother)
      cases hspawned.symm.trans hchild

end Run

/-- The parts of a log, in the order in which they are written. -/
structure Trace where
  config : Record
  warned : Option Record
  decided : Option Record
  launched : Option Record
  heard : List Record
  ended : Option Record

namespace Trace

def records (t : Trace) : List Record :=
  t.config :: (t.warned.toList ++ t.decided.toList ++ t.launched.toList ++ t.heard ++
    t.ended.toList)

/-- Each part of the log tells what has happened in the run. -/
structure Tells (t : Trace) (setting : Setting) (history : Command → History)
    (invocation : List String) (env : Variables) : Prop where
  config : t.config = (Config.load setting.files (Run.configPath setting env)).record ∧
    t.config.AboutConfig (Run.configPath setting env)
  warned : ∀ record, t.warned = some record ↔ ∃ helper,
    (Run.verdict setting env).answer = .ok (.directFallback helper) ∧
      record = .helperMissing helper
  decided : ∀ record, t.decided = some record ↔ ∃ decision,
    (Run.verdict setting env).answer = .ok decision ∧
      record = .decided decision (decision.argv invocation)
  launched : ∀ record, t.launched = some record ↔ ∃ decision command child,
    (Run.verdict setting env).answer = .ok decision ∧
      Run.Starts setting history invocation env command child ∧
      decision.argv invocation = command.file :: command.args ∧
      record = .launched (decision.argv invocation)
  heard : ∀ command child, Run.Starts setting history invocation env command child →
    let request : LaunchRequest := ⟨command.argv, .given, setting.terminalAttached⟩
    let signals := Run.heard request child (history command)
    ∃ launch, (runAlong setting history invocation env).session.launches = [launch] ∧
      launch.settled =
        (Run.reports request child (history command)).head?.map launch.settlement ∧
      launch.kills = signals.filter (fun signal => !launch.absorbs signal) ∧
      t.heard = signals.map launch.recordOf
  unheard : (∀ command child, ¬ Run.Starts setting history invocation env command child) →
    t.heard = []
  ended : ∀ record, t.ended = some record ↔ ∃ command child code signal,
    Run.Starts setting history invocation env command child ∧
      (Run.reports ⟨command.argv, .given, setting.terminalAttached⟩ child
        (history command)).head? = some (.exit code signal) ∧
      record = .terminated code signal
  lines : ∀ record ∈ t.records, record.WrittenAs record.level record.message

variable {setting : Setting} {history : Command → History} {env : Variables}
  {invocation : List String}

theorem tells_of_error {thrown : Thrown} (h : (Run.verdict setting env).answer = .error thrown) :
    Tells ⟨(Config.load setting.files (Run.configPath setting env)).record, none, none, none, [],
      none⟩ setting history invocation env := by
  have hnone (command : Command) (child : Child) :
      ¬ Run.Starts setting history invocation env command child := by
    rw [Run.starts_iff, h]
    rintro ⟨decision, hdecision, -⟩
    cases hdecision
  constructor <;> simp [h, hnone, Config.load_aboutConfig, Record.writtenAs]

theorem warned_iff {decision : Decision} (h : (Run.verdict setting env).answer = .ok decision)
    (record : Record) : decision.records.head? = some record ↔ ∃ helper,
      (Run.verdict setting env).answer = .ok (.directFallback helper) ∧
        record = .helperMissing helper := by
  rw [h]
  cases decision <;> simp [Decision.records, eq_comm]

theorem toList_warned (decision : Decision) : decision.records.head?.toList = decision.records := by
  cases decision <;> rfl

theorem tells_of_childless {decision : Decision}
    (h : (Run.verdict setting env).answer = .ok decision)
    (hnone : ∀ command child, ¬ Run.Starts setting history invocation env command child) :
    Tells ⟨(Config.load setting.files (Run.configPath setting env)).record, decision.records.head?,
      some (.decided decision (decision.argv invocation)), none, [], none⟩
      setting history invocation env := by
  constructor
  case config => exact ⟨rfl, Config.load_aboutConfig _ _⟩
  case warned => exact warned_iff h
  case decided => simp [h, eq_comm]
  case launched => simp [hnone]
  case heard => exact fun command child hstarts => absurd hstarts (hnone command child)
  case unheard => exact fun _ => rfl
  case ended => simp [hnone]
  case lines => exact fun record _ => record.writtenAs

theorem tells_of_child {decision : Decision} {command : Command} {child : Child}
    (h : (Run.verdict setting env).answer = .ok decision)
    (hargv : Command.ofArgv? (decision.argv invocation) = some command)
    (hspawned : (history command).spawned = .ok child) :
    let request : LaunchRequest := ⟨command.argv, .given, setting.terminalAttached⟩
    let started : Launch := ⟨command, setting.terminalAttached, child, [], none⟩
    Tells ⟨(Config.load setting.files (Run.configPath setting env)).record, decision.records.head?,
      some (.decided decision (decision.argv invocation)), some (.launched command.argv),
      (Run.heard request child (history command)).map started.recordOf,
      (Run.reports request child (history command)).head?.bind Report.record?⟩
      setting history invocation env := by
  intro request started
  have hwords : command.argv = decision.argv invocation := (Run.argv_of_ofArgv? hargv).1
  have hstarts : Run.Starts setting history invocation env command child :=
    Run.starts_iff.2 ⟨decision, h, hargv, hspawned⟩
  constructor
  case config => exact ⟨rfl, Config.load_aboutConfig _ _⟩
  case warned => exact warned_iff h
  case decided => simp [h, eq_comm]
  case launched =>
    intro record
    constructor
    · intro hrecord
      refine ⟨decision, command, child, h, hstarts, hwords.symm, ?_⟩
      rw [← hwords]
      exact (Option.some.inj hrecord).symm
    · rintro ⟨decision', other, kid, h', -, -, rfl⟩
      obtain rfl := Except.ok.inj (h.symm.trans h')
      rw [hwords]
  case heard =>
    intro other kid hother
    obtain ⟨rfl, rfl⟩ := hstarts.unique hother
    have hfollowed := Run.followed_of_decision h hargv hspawned
    refine ⟨_, hfollowed.alone, ?_, hfollowed.received_eq, rfl⟩
    exact Option.none_or
  case unheard => exact fun hnone => absurd hstarts (hnone command child)
  case ended =>
    intro record
    constructor
    · intro hrecord
      obtain ⟨first, hfirst, hended⟩ := Option.bind_eq_some_iff.1 hrecord
      cases first with
      | exit code signal =>
        exact ⟨command, child, code, signal, hstarts, hfirst, (Option.some.inj hended).symm⟩
      | error thrown => cases hended
    · rintro ⟨other, kid, code, signal, hother, hfirst, rfl⟩
      obtain ⟨rfl, rfl⟩ := hstarts.unique hother
      exact Option.bind_eq_some_iff.2 ⟨_, hfirst, rfl⟩
  case lines => exact fun record _ => record.writtenAs

end Trace

/-- For every run, with any settings, any answer of the probe and everything that may happen to a
child. Its log has one line on the settings, a warning exactly if the helper was missed, the
decision exactly if there is one, the command line exactly if a child was started with it, a line
for each forwarded signal that arrived before the child had reported anything, and the end of the
child exactly if an exit is its first report, each at its level and with its text. After that
nothing is written, whatever happens. -/
theorem log_traces_run (setting : Setting) (history : Command → History)
    (invocation : List String) (env : Variables) :
    let r := runAlong setting history invocation env
    ∃ t : Trace, Record.written .debug r.records = t.records ∧
      t.Tells setting history invocation env ∧
      ∀ launch ∈ r.session.launches, launch.settled.isSome → ∀ more : List Happening,
        (r.session.stepAll (more.map (·.step 0))).records = r.session.records := by
  intro r
  rw [Record.written_debug]
  cases h : (Run.verdict setting env).answer with
  | error thrown =>
    refine ⟨_, ?_, Trace.tells_of_error h, ?_⟩
    · exact Run.runAlong_records_of_error h
    · rw [(Run.runAlong_of_error h history invocation).1]
      intro launch hlaunch
      cases hlaunch
  | ok decision =>
    rcases Run.child_or_none h with ⟨command, child, hargv, hspawned⟩ | ⟨hnone, hlaunches, hquiet⟩
    · have hfollowed := Run.followed_of_decision h hargv hspawned
      have hwords : command.argv = decision.argv invocation := (Run.argv_of_ofArgv? hargv).1
      refine ⟨_, ?_, Trace.tells_of_child h hargv hspawned, ?_⟩
      · rw [Run.runAlong_records_of_decision h, hfollowed.records_eq,
          Run.begun_records (hwords ▸ hargv)]
        simp [Trace.records, Trace.toList_warned, Launch.endRecords, Run.heard]
      · rw [hfollowed.alone]
        intro launch hlaunch hs more
        obtain rfl := List.mem_singleton.1 hlaunch
        exact Session.records_of_settled hfollowed.wired hfollowed.alone hs more
    · refine ⟨_, ?_, Trace.tells_of_childless h hnone, ?_⟩
      · rw [Run.runAlong_records_of_decision h, hquiet]
        simp [Trace.records, Trace.toList_warned]
      · rw [hlaunches]
        intro launch hlaunch
        cases hlaunch

/-- The helper is missing, and the command runs in a terminal. It dies inside the call that passes
the second signal on, and its own report comes too late. -/
example :
    let course : Command → Course := fun _ =>
      ⟨.ok ⟨none, true⟩, [.int, ⟨"SIGWINCH"⟩, .hup, .term], [.exit (some 0) none]⟩
    let setting : Setting := ⟨⟨[], []⟩, "/root", true, fun _ _ => .ok none, course⟩
    (run setting ["id", "-u"] []).records =
      [.configMissing "/root/.config/run-elevated/config.yaml", .helperMissing "sudo",
        .decided (.directFallback "sudo") ["id", "-u"], .launched ["id", "-u"],
        .alreadyDelivered .int, .forwarding .hup, .terminated none (some .hup)] := by
  decide +kernel

end Elevation
