import BatteryLink.Proofs.Board
import BatteryLink.Proofs.Config
import BatteryLink.Proofs.DeepReplies
import BatteryLink.Proofs.Selection
import BatteryLink.Proofs.Usage
/-!
Runs of the program from the command line to the exit code. A run ends for each of its outcomes with
an exit code of its own, whatever the device does, and leaves nothing behind on the network.
-/
namespace BatteryLink
namespace CommandLine

open Routine (modeExchange)

/-- A host and a port that make a configuration. -/
def Usable (host : String) (port : Int) : Prop := Text.trim host ≠ "" ∧ 1 ≤ port ∧ port ≤ 65535

def configOf (host : String) (port : Int) : Config := { host := Text.trim host, port }

variable {host : String} {port : Int}

/-- The dictionary that a configuration is made of. -/
def described (host : String) (port : Int) : List (Value × Value) :=
  [(.text "host", .text host), (.text "port", .int port)]

theorem mem_described {e : Value × Value} :
    e ∈ described host port ↔ e = (.text "host", .text host) ∨ e = (.text "port", .int port) := by
  simp [described]

theorem isMapping_described : Value.IsMapping (described host port) := by
  refine ⟨fun e he s hs => ?_, ?_⟩
  · rcases mem_described.mp he with rfl | rfl <;> cases hs
  · change ["host", "port"].Nodup
    decide

theorem get?_described (n : Config.Name) : Value.get? n.key (described host port) =
    match n with
    | .host => some (.text host)
    | .port => some (.int port)
    | _ => none := by
  cases n <;> simp [described, Config.Name.key, Value.plainText?, Value.get?]

theorem describes_configOf (usable : Usable host port) :
    Config.Describes (described host port) (configOf host port) := by
  obtain ⟨named, within⟩ := usable
  refine ⟨fun e he => ?_, fun n v hv => ?_, fun n hn => ?_⟩
  · rcases mem_described.mp he with rfl | rfl
    · exact ⟨.host, rfl⟩
    · exact ⟨.port, rfl⟩
  · rw [get?_described] at hv
    cases n with
    | host =>
      cases hv
      exact congrArg (Value.text <$> ·) (Config.toHost_text_eq_ok.mpr ⟨named, rfl⟩)
    | port =>
      cases hv
      exact congrArg (Value.int <$> ·) (Config.intBetween_int_eq_ok.mpr ⟨within, rfl⟩)
    | localPort | refreshInterval | failureThreshold => cases hv
  · rw [get?_described] at hn
    cases n with
    | host | port => cases hn
    | localPort | refreshInterval | failureThreshold => rfl

theorem configFor_eq_ok {c : Config} :
    configFor host port = .ok c ↔ Usable host port ∧ c = configOf host port := by
  rw [show configFor host port = Config.ofEntries (described host port) from rfl,
    Config.ofEntries_eq_ok isMapping_described]
  constructor
  · intro describes
    obtain ⟨named, hhost⟩ := Config.toHost_text_eq_ok.mp
      (Config.read_eq_ok (fun _ _ h => Value.text.inj h) (describes.given .host _ (get?_described .host)))
    obtain ⟨within, hport⟩ := Config.intBetween_int_eq_ok.mp
      (Config.read_eq_ok (fun _ _ h => Value.int.inj h) (describes.given .port _ (get?_described .port)))
    refine ⟨⟨named, within⟩, Config.ext_held fun n => ?_⟩
    have usual := describes.absent n
    rw [get?_described] at usual
    cases n with
    | host => exact congrArg Value.text hhost
    | port => exact congrArg Value.int hport
    | localPort | refreshInterval | failureThreshold => exact (Option.some.inj (usual rfl)).symm
  · rintro ⟨usable, rfl⟩
    exact describes_configOf usable

theorem configFor_cases (host : String) (port : Int) :
    Usable host port ∧ configFor host port = .ok (configOf host port) ∨
    ¬ Usable host port ∧ ∃ issues, configFor host port = .error (.refused issues) := by
  have made : (∃ c, configFor host port = .ok c) ∨
      ∃ issues, configFor host port = .error (.refused issues) := by
    refine Config.ofEntries_cases fun e (he : e ∈ described host port) b hb => ?_
    rcases mem_described.mp he with rfl | rfl <;> cases hb
  by_cases usable : Usable host port
  · exact .inl ⟨usable, configFor_eq_ok.mpr ⟨usable, rfl⟩⟩
  · rcases made with ⟨c, config⟩ | refused
    · exact absurd (configFor_eq_ok.mp config).1 usable
    · exact .inr ⟨usable, refused⟩

variable {device : Nat → Surroundings} {clock : Nat → Moment}

/-- What is wrong with a host or a port can always be told: the names of both are texts. -/
theorem ofIssues_refused {issues : List Config.Issue}
    (refused : configFor host port = .error (.refused issues)) :
    ∃ report, Report.ofIssues (.refused issues) = .ok report ∧ report.exit = 2 := by
  cases issues with
  | nil => exact ⟨_, rfl, rfl⟩
  | cons i issues =>
    obtain ⟨name, key⟩ : ∃ name, i.key = .text name := by
      rcases Config.ofEntries_keys refused i List.mem_cons_self with key | ⟨e, he, key⟩
      · exact ⟨_, key⟩
      · rcases mem_described.mp he with rfl | rfl
        · exact ⟨_, key⟩
        · exact ⟨_, key⟩
    obtain ⟨shown, hs⟩ : ∃ shown, i.key.shown = .ok shown := by
      rw [key]
      exact Value.printable_plain rfl rfl
    unfold Report.ofIssues Config.Issue.message
    dsimp only [List.head?_cons, Option.map_some, Option.getD_some]
    rw [hs]
    exact ⟨_, rfl, rfl⟩

/-- Without a configuration nothing is done. -/
theorem run_refused (device : Nat → Surroundings) (clock : Nat → Moment) {issues : List Config.Issue}
    (refused : configFor host port = .error (.refused issues)) : ∃ report : Report, report.exit = 2 ∧
    (∀ mode, (Command.run (scripted device clock) (.setMode host port mode)).run [] = (.ok report, [])) ∧
    (Command.run (scripted device clock) (.poll host port)).run [] = (.ok report, []) := by
  unfold Command.run
  dsimp only
  rw [refused]
  obtain ⟨report, told, exit⟩ := ofIssues_refused refused
  exact ⟨report, exit, fun _ => congrArg (·, []) told, congrArg (·, []) told⟩

variable {config : Config} {traces : List Exchange.Trace} {u : Session} {r : Except Trouble Outcome}

theorem alone_dispose {m : Type → Type} [Monad m] (c : Carrier m) (s : Session) :
    Routine.alone c s .dispose = pure (s.closed, .ok .nothing) := by
  have exec := Routine.exec_dispose s
  unfold Routine.alone Routine.carryOut
  rw [show (Routine.perform 0 .dispose).run.run s = _ from exec]
  cases s.ownsRunner <;> rfl

theorem run_withSession {o : Operation}
    (ran : (Routine.alone (scripted device clock) (.start config true) o).run [] = ((u, r), traces)) :
    (withSession (scripted device clock) config o).run [] = ((u.closed.outbox, r), traces) := by
  unfold withSession
  rw [StateT.run_bind, ran]
  dsimp only [bind]
  rw [alone_dispose]
  rfl

/-- A disposal cancels what is left and tells nothing. -/
theorem statusLines_closed (s : Session) : statusLines s.closed.outbox = statusLines s.outbox := by
  have silent : statusLines (s.upkeep.map .cancelled) = "" := by
    unfold statusLines
    rw [List.map_map]
    induction s.upkeep with
    | nil => rfl
    | cons id ids ih => exact String.join_cons.trans ih
  unfold statusLines at silent ⊢
  rw [Session.closed, List.map_append, String.join_append, silent, String.append_empty]

theorem publications_closed (s : Session) :
    s.closed.outbox.filterMap Notice.publication? = s.publications := by
  have silent : (s.upkeep.map .cancelled).filterMap Notice.publication? = [] := by
    rw [List.filterMap_map]
    exact List.filterMap_eq_nil_iff.mpr fun id _ => rfl
  rw [Session.closed, List.filterMap_append, silent, List.append_nil]
  rfl

/-- The exit code of a run. It is 1 if a fault leaves the program. -/
def exitCode : Except Fault Report → Nat
  | .ok report => report.exit
  | .error _ => 1

/-- What the exit code of a run tells whatever the run is for. -/
structure Coded (host : String) (port : Int) (ending : Except Fault Report)
    (traces : List Exchange.Trace) : Prop where
  exits : exitCode ending = 0 ∨ exitCode ending = 1 ∨ exitCode ending = 2
  invalid : exitCode ending = 2 ↔ ¬ Usable host port
  silent : exitCode ending = 2 → traces = []

variable {report : Report} {ending : Except Fault Report}

theorem coded_of_usable (traces : List Exchange.Trace) (usable : Usable host port)
    (exit : exitCode ending = 0 ∨ exitCode ending = 1) : Coded host port ending traces := by
  have valid : exitCode ending ≠ 2 := by omega
  exact ⟨exit.imp_right .inl, iff_of_false valid (not_not_intro usable), fun invalid => absurd invalid valid⟩

theorem coded_of_unusable (unusable : ¬ Usable host port) (exit : report.exit = 2) :
    Coded host port (.ok report) [] :=
  ⟨.inr (.inr exit), iff_of_true exit unusable, fun _ => rfl⟩

theorem alone_selectMode (config : Config) (clock : Nat → Moment) {mode : Value} {payload : String}
    (good : Request.select mode = .ok payload) (calm : (device 0).Calm) :
    let trace := (modeExchange config payload).run (device 0)
    (Routine.alone (scripted device clock) (.start config true) (.selectMode mode)).run [] =
      ((Crowd.ordered config trace.answered, .ok (.tally (Order.verdict trace.answered))), [trace]) := by
  intro trace
  have begun := Routine.exec_selectMode (s := .start config true) good 0 rfl rfl
  have ended := Routine.exec_modeAnswered (Exchange.calm_run (modeExchange config payload) calm) (clock 0)
    ((Session.start config true).locked 0)
  unfold Routine.alone Routine.carryOut
  rw [show (Routine.perform 0 (.selectMode mode)).run.run (.start config true) = _ from begun]
  change (Routine.carryOut (scripted device clock) 15 ((Session.start config true).locked 0)
    (Routine.answered (clock 0) Routine.modeAsked trace.answered)).run [trace] = _
  unfold Routine.carryOut
  rw [show (Routine.answered (clock 0) Routine.modeAsked trace.answered).run.run _ = _ from ended]
  rfl

/-- A run that selects a mode. -/
structure ModeRun (host : String) (port : Int) (mode : String) (device : Nat → Surroundings)
    (report : Report) (traces : List Exchange.Trace) : Prop
    extends Coded host port (.ok report) traces where
  accepted : report.exit = 0 ↔ ∃ trace ∈ traces, Order.Took trace.answered
  /-- The device is sent one request at most. -/
  sent : (traces.flatMap (·.sent)).length ≤ 1
  /-- That is so for whatever goes on in the session until it has been disposed of. -/
  only : Usable host port → ∃ payload, Request.select (.text mode) = .ok payload ∧
      let x := modeExchange (configOf host port) payload
      let trace := x.run (device 0)
      traces = [trace] ∧ ∀ now,
        let moves := Crowd.orderAndDispose (.text mode) now trace.answered
        (∀ rest : List Crowd.Move, (∀ mv ∈ rest, mv.asks = false) →
          let c := (Crowd.start (configOf host port) true).run (moves ++ rest)
          c.log.filterMap Crowd.asked? = [x] ∧
          c.jobs = (if report.exit = 0 then [Crowd.droppedFollowUp] else []) ∧
          ((∃ y ∈ c.endings, y.operation = .dispose) → c.clock.runner.pending = 0)) ∧
        ∃ rest : List Crowd.Move, (∀ mv ∈ rest, mv.asks = false) ∧
          ((Crowd.start (configOf host port) true).run (moves ++ rest)).members = []

/-- The exit code is the verdict on the order. -/
theorem run_setMode {mode : String} {t : Tally} (ran : (Routine.alone (scripted device clock)
      (.start config true) (.selectMode (.text mode))).run [] = ((u, .ok (.tally t)), traces)) :
    ∃ report, (setMode (scripted device clock) config mode).run [] = (.ok report, traces) ∧
      report.exit = if t.ok then 0 else 1 := by
  unfold setMode
  rw [StateT.run_bind, run_withSession ran]
  dsimp only [bind]
  split
  · exact ⟨_, rfl, rfl⟩
  · exact ⟨_, rfl, rfl⟩

theorem modeRun_of_usable {mode : String} (selectable : mode ∈ Request.selectableModes)
    (calm : ∀ n, (device n).Calm) (usable : Usable host port)
    (config : configFor host port = .ok (configOf host port)) :
    ∃ report traces, (Command.run (scripted device clock) (.setMode host port mode)).run [] =
      (.ok report, traces) ∧ ModeRun host port mode device report traces := by
  obtain ⟨payload, good⟩ := Request.select_of_name (v := .text mode) rfl selectable
  let trace := (modeExchange (configOf host port) payload).run (device 0)
  obtain ⟨report, ran, exit⟩ := run_setMode
    (alone_selectMode (configOf host port) clock good (calm 0))
  rw [Order.verdict_ok] at exit
  have took : report.exit = 0 ↔ Order.took trace.answered = true := by
    rw [exit]
    cases Order.took trace.answered <;> decide
  have coded : Coded host port (.ok report) [trace] := by
    refine coded_of_usable [trace] usable ?_
    change report.exit = 0 ∨ report.exit = 1
    rw [exit]
    cases Order.took trace.answered <;> decide
  have ordinary := Exchange.calm_run (modeExchange (configOf host port) payload) (calm 0)
  refine ⟨report, [trace], ?_, coded, ?_, ?_,
    fun _ => ⟨payload, good, rfl, fun now => ⟨fun rest own => ?_, ?_⟩⟩⟩
  · unfold Command.run
    dsimp only
    rw [config]
    exact ran
  · rw [took, Order.took_iff]
    simp [trace]
  · rw [List.flatMap_singleton]
    rcases (modeExchange (configOf host port) payload).sent_run (device 0) with sent | ⟨sent, -⟩
    · exact Nat.le_of_eq (congrArg List.length sent)
    · exact (Nat.le_of_eq (congrArg List.length sent)).trans (Nat.zero_le 1)
  · simp only [took]
    exact Crowd.orderAndDispose_asks_once good ordinary now own
  · exact Crowd.exists_end_orderAndDispose good ordinary now

theorem modeRun_of_unusable {mode : String} (unusable : ¬ Usable host port) (exit : report.exit = 2) :
    ModeRun host port mode device report [] where
  toCoded := coded_of_unusable unusable exit
  accepted := by simp [exit]
  sent := Nat.zero_le 1
  only usable := absurd usable unusable

/-- A run that polls the device. -/
structure PollRun (host : String) (port : Int) (device : Nat → Surroundings) (clock : Nat → Moment)
    (ending : Except Fault Report) (traces : List Exchange.Trace) : Prop
    extends Coded host port ending traces where
  /-- The device is sent the requests of a poll in their order, up to one of them. -/
  sent : traces.flatMap (·.sent) <+: Request.discoverText :: Method.statusQueries.map Request.queryText
  /-- The poll tells whether it is complete, and what it published is printed if it is. A surrogate that
  stands alone in what it published keeps it from being printed, and the program fails. -/
  polled : Usable host port →
    ∃ u r, (Routine.alone (scripted device clock) (.start (configOf host port) true) .poll).run [] =
        ((u, r), traces) ∧
      (r ≠ .ok (.flag true) → ∃ report, ending = .ok report ∧ report.exit = 1) ∧
      (r = .ok (.flag true) → ∃ lines, Tells u.publications lines ∧
        ((∀ l ∈ lines, l.2.Plain) → ∃ report, ending = .ok report ∧ report.exit = 0 ∧
          report.out = statusLines u.outbox ++ typescript lines) ∧
        ((∃ l ∈ lines, ¬ l.2.Plain) → ∃ f, ending = .error f ∧ f.name = "UnicodeEncodeError"))

theorem run_poll_cut (ran : (Routine.alone (scripted device clock) (.start config true) .poll).run [] =
      ((u, .ok (.flag false)), traces)) :
    ∃ report, (poll (scripted device clock) config).run [] = (.ok report, traces) ∧ report.exit = 1 := by
  unfold poll
  rw [StateT.run_bind, run_withSession ran]
  exact ⟨_, rfl, rfl⟩

theorem run_poll_complete
    (ran : (Routine.alone (scripted device clock) (.start config true) .poll).run [] =
      ((u, .ok (.flag true)), traces))
    (printable : ∀ p ∈ u.publications, ∃ text, p.2.brief = .ok text) :
    ∃ ending, (poll (scripted device clock) config).run [] = (ending, traces) ∧
      ∃ lines, Tells u.publications lines ∧
        ((∀ l ∈ lines, l.2.Plain) → ∃ report, ending = .ok report ∧ report.exit = 0 ∧
          report.out = statusLines u.outbox ++ typescript lines) ∧
        ((∃ l ∈ lines, ¬ l.2.Plain) → ∃ f, ending = .error f ∧ f.name = "UnicodeEncodeError") := by
  obtain ⟨lines, tells, printed, stopped⟩ := print_tells u.closed.outbox
    (publications_closed u ▸ printable)
  rw [publications_closed] at tells
  unfold poll
  rw [StateT.run_bind, run_withSession ran]
  refine ⟨_, rfl, lines, tells, fun plain => ?_, fun strange => ?_⟩
  · rw [printed plain, statusLines_closed]
    exact ⟨_, rfl, rfl, rfl⟩
  · obtain ⟨f, fault, name⟩ := stopped strange
    rw [fault]
    exact ⟨f, rfl, name⟩

theorem pollRun_of_usable (calm : ∀ n, (device n).Calm) (usable : Usable host port)
    (config : configFor host port = .ok (configOf host port)) :
    ∃ ending traces, (Command.run (scripted device clock) (.poll host port)).run [] =
      (ending, traces) ∧ PollRun host port device clock ending traces := by
  let s := Session.start (configOf host port) true
  obtain ⟨u, r, traces, ran, ends, -⟩ := Poll.run_poll calm clock (s := s) ⟨rfl, rfl⟩
  obtain ⟨requests, complete, rfl⟩ := ends.decided
  rw [Poll.answers_payloads] at requests
  have command : ∀ {ending}, (poll (scripted device clock) (configOf host port)).run [] = (ending, traces) →
      (Command.run (scripted device clock) (.poll host port)).run [] = (ending, traces) := by
    intro ending polled
    unfold Command.run
    dsimp only
    rw [config]
    exact polled
  cases complete with
  | false =>
    obtain ⟨report, polled, exit⟩ := run_poll_cut ran
    exact ⟨.ok report, traces, command polled, coded_of_usable traces usable (.inr exit), requests,
      fun _ => ⟨u, _, ran, fun _ => ⟨report, rfl, exit⟩, nofun⟩⟩
  | true =>
    have printable : ∀ p ∈ u.publications, ∃ text, p.2.brief = .ok text := by
      by_cases all : ∀ p ∈ Poll.answers device s 0 Poll.stages, p.1.passes p.2 = true
      · obtain ⟨-, -, whole⟩ := ends.whole all
        rw [List.nil_append] at whole
        exact whole.brief rfl
      · push Not at all
        obtain ⟨p, hp, failed⟩ := all
        obtain ⟨-, cut, -⟩ := ends.cut ⟨p, hp, Bool.eq_false_of_not_eq_true failed⟩
        cases cut
    obtain ⟨ending, polled, lines, tells, typed, stopped⟩ := run_poll_complete ran printable
    have exit : exitCode ending = 0 ∨ exitCode ending = 1 := by
      by_cases plain : ∀ l ∈ lines, l.2.Plain
      · obtain ⟨report, rfl, exit, -⟩ := typed plain
        exact .inl exit
      · push Not at plain
        obtain ⟨f, rfl, -⟩ := stopped plain
        exact .inr rfl
    exact ⟨ending, traces, command polled, coded_of_usable traces usable exit, requests,
      fun _ => ⟨u, _, ran, fun h => absurd rfl h, fun _ => ⟨lines, tells, typed, stopped⟩⟩⟩

theorem pollRun_of_unusable (unusable : ¬ Usable host port) (exit : report.exit = 2) :
    PollRun host port device clock (.ok report) [] where
  toCoded := coded_of_unusable unusable exit
  sent := List.nil_prefix
  polled usable := absurd usable unusable

/-- However the device behaves, a run of the program that selects a mode or polls the device comes to
an exit code that tells how it went, except that a poll which is complete comes to the exit code of a
failure if what it published cannot be typed. -/
theorem run_exits (words : List String) (device : Nat → Surroundings) (clock : Nat → Moment)
    (calm : ∀ n, (device n).Calm) :
    (∀ host port mode, Command.parse words = .ok (.setMode host port mode) →
      ∃ report traces, (run (scripted device clock) words).run [] = (.ok report, traces) ∧
        ModeRun host port mode device report traces) ∧
    (∀ host port, Command.parse words = .ok (.poll host port) →
      ∃ ending traces, (run (scripted device clock) words).run [] = (ending, traces) ∧
        PollRun host port device clock ending traces) ∧
    ∀ host port config, configFor host port = .ok config ↔
      Usable host port ∧ config = configOf host port := by
  have command : ∀ {k : Command}, Command.parse words = .ok k →
      run (scripted device clock) words = k.run (scripted device clock) := by
    intro k parsed
    unfold run
    rw [parsed]
  refine ⟨fun host port mode parsed => ?_, fun host port parsed => ?_,
    fun host port config => configFor_eq_ok⟩
  · rw [command parsed]
    rcases configFor_cases host port with ⟨usable, config⟩ | ⟨unusable, issues, refused⟩
    · exact modeRun_of_usable (Command.mode_selectable parsed) calm usable config
    · obtain ⟨report, exit, ran, -⟩ := run_refused device clock refused
      exact ⟨report, [], ran mode, modeRun_of_unusable unusable exit⟩
  · rw [command parsed]
    rcases configFor_cases host port with ⟨usable, config⟩ | ⟨unusable, issues, refused⟩
    · exact pollRun_of_usable calm usable config
    · obtain ⟨report, exit, -, ran⟩ := run_refused device clock refused
      exact ⟨.ok report, [], ran, pollRun_of_unusable unusable exit⟩

/-- A device that takes every request. -/
def taking (_ : Nat) : Surroundings :=
  Poll.hearing (some (20, .reply "\x7b\"result\":\x7b\"set_result\":1\x7d\x7d".toUTF8.toList))

def selecting : List String := ["-v", "set-mode", "--po=30001", " battery", "UPS"]

def polling : List String := ["poll", "battery"]

/-- A mode that is taken, and a poll that gets answers of all sorts. -/
theorem run_exits_selecting : (∀ n, (taking n).Calm) ∧ (∀ n, (Poll.moody n).Calm) ∧
    (∃ report traces, (run (scripted taking Poll.hours) selecting).run [] = (.ok report, traces) ∧
      ModeRun " battery" 30001 "UPS" taking report traces ∧ report.exit = 0) ∧
    ∃ ending traces, (run (scripted Poll.moody Poll.hours) polling).run [] = (ending, traces) ∧
      PollRun "battery" 30000 Poll.moody Poll.hours ending traces ∧ exitCode ending = 0 := by
  have calm : ∀ n, (taking n).Calm := fun n => ⟨nofun, nofun, nofun, nofun, nofun⟩
  have select : Command.parse selecting = .ok (.setMode " battery" 30001 "UPS") :=
    toOption_eq_some.mp (by decide +kernel)
  have poll : Command.parse polling = .ok (.poll "battery" 30000) :=
    toOption_eq_some.mp (by decide +kernel)
  obtain ⟨selected, -⟩ := run_exits selecting taking Poll.hours calm
  obtain ⟨-, polled, -⟩ := run_exits polling Poll.moody Poll.hours Poll.calm_moody
  refine ⟨calm, Poll.calm_moody, ?_, ?_⟩
  · have exit :
        ((run (scripted taking Poll.hours) selecting).run []).1.toOption.map (·.exit) = some 0 := by
      decide +kernel
    obtain ⟨report, traces, ran, mode⟩ := selected _ _ _ select
    rw [ran] at exit
    exact ⟨report, traces, ran, mode, Option.some.inj exit⟩
  · have exit : exitCode ((run (scripted Poll.moody Poll.hours) polling).run []).1 = 0 := by
      decide +kernel
    obtain ⟨ending, traces, ran, cycle⟩ := polled _ _ poll
    rw [ran] at exit
    exact ⟨ending, traces, ran, cycle, exit⟩

/-- A device that says that it takes every request, and a lot besides. -/
def babbling (n : Nat) (_ : Nat) : Surroundings := Poll.hearing (some (20, .reply (Reply.deep n)))

theorem calm_babbling (n k : Nat) : (babbling n k).Calm := ⟨nofun, nofun, nofun, nofun, nofun⟩

/-- A mode that the device has taken is told to be rejected if the reply is nested too deep. -/
theorem rejected_of_deep {mode : String} (selectable : mode ∈ Request.selectableModes)
    (usable : Usable host port) (clock : Nat → Moment) {n : Nat} (more : Value.maxDepth < n + 3)
    (fits : 2 * n + 37 ≤ Exchange.bufferSize) :
    exitCode ((Command.run (scripted (babbling n) clock) (.setMode host port mode)).run []).1 = 1 := by
  obtain ⟨report, traces, ran, coded⟩ : ∃ report traces,
      (Command.run (scripted (babbling n) clock) (.setMode host port mode)).run [] = (.ok report, traces) ∧
        ModeRun host port mode (babbling n) report traces :=
    modeRun_of_usable selectable (calm_babbling n) usable (configFor_eq_ok.mpr ⟨usable, rfl⟩)
  obtain ⟨payload, -, same, -⟩ := coded.only usable
  let x := modeExchange (configOf host port) payload
  have kept : ¬ x.Lost (babbling n 0) := fun lost =>
    (by decide +kernel : ¬ (Exchange.tooLong : Int) ≤ Order.singleTimeout) lost.1
  have hears : x.Hears (babbling n 0) (.reply (Reply.deep n)) :=
    ⟨⟨"192.168.1.7", ⟨[], rfl⟩, rfl, rfl, rfl⟩, 20, rfl, (by decide : (20 : Int) < max 1 Order.singleTimeout)⟩
  have length : (Reply.deep n).length ≤ Exchange.bufferSize := (Reply.length_deep n).trans_le fits
  have untaken : ¬ ∃ trace ∈ traces, Order.Took trace.answered := by
    rw [same]
    rintro ⟨trace, ht, octets, r, answered, hr, -⟩
    rw [List.mem_singleton.mp ht, Exchange.answered_of_hears kept hears, Exchange.reception,
      List.take_of_length_le length] at answered
    cases answered
    exact Reply.decode_deep more length r hr
  rw [ran]
  rcases coded.exits with exit | exit | exit
  · exact absurd (coded.accepted.mp exit) untaken
  · exact exit
  · exact absurd usable (coded.invalid.mp exit)

/-- A device in a network that has half a pair of surrogates for a name. -/
def halfNamed (_ : Nat) : Surroundings :=
  Poll.hearing (some (20, .reply "\x7b\"result\":\x7b\"ssid\":\"\\ud800\"\x7d\x7d".toUTF8.toList))

/-- A poll that is complete, and a mode that the device says it has taken: both end like a failure. -/
theorem unprinted_and_unread :
    ((Routine.alone (scripted halfNamed Poll.hours) (.start (configOf "battery" 30000) true) .poll).run
      []).1.2.toOption = some (.flag true) ∧
    exitCode ((run (scripted halfNamed Poll.hours) polling).run []).1 = 1 ∧
    (∃ text ms r, Json.Spells (Reply.deep 1999) text ∧ Json.Grammar.Framed Json.Grammar.Object text ms ∧
      Reply.Results ms r ∧ Reply.saysAccepted r = true) ∧
    exitCode ((run (scripted (babbling 1999) Poll.hours) selecting).run []).1 = 1 := by
  have select : Command.parse selecting = .ok (.setMode " battery" 30001 "UPS") :=
    toOption_eq_some.mp (by decide +kernel)
  have usable : Usable " battery" 30001 := ⟨by decide +kernel, by decide, by decide⟩
  refine ⟨by decide +kernel, by decide +kernel, Reply.results_deep 1999, ?_⟩
  rw [run, select]
  exact rejected_of_deep (by decide) usable Poll.hours (by decide) (by decide)

end CommandLine
end BatteryLink
