import BatteryLink.Proofs.Single
/-!
The toggles of activations. The host application is told once that the toggle is off again: at the
end of an activation that the device did not take in full, and after the poll that follows one that
it did. It hears of it only if the device is known to be online at that moment.
-/
namespace BatteryLink

open Routine (Cause Next Effect Reset Settle Ended Waits)

/-- Whether a notice says that a toggle is off. -/
def Notice.isOff (channel : String) : Notice → Bool
  | .published c (.value (.switch false)) => c == channel
  | _ => false

def Session.offs (s : Session) (channel : String) : Nat := s.outbox.countP (·.isOff channel)

/-- The toggles of activations. -/
def IsToggle (channel : String) : Prop :=
  channel = Order.passiveToggle ∨ channel = Order.manualToggle

namespace IsToggle

variable {channel : String}

theorem not_polled (h : IsToggle channel) : channel ∉ Poll.channels := by
  rcases h with rfl | rfl <;> decide +kernel

theorem parse (h : IsToggle channel) :
    ∃ k, Channel.parse channel = .ok (some (.control k)) ∧ (Channel.control k).toggle = some channel := by
  rcases h with rfl | rfl
  · exact ⟨.passiveActivate, by decide +kernel, rfl⟩
  · exact ⟨.manualActivate, by decide +kernel, rfl⟩

theorem toggle_command (h : IsToggle channel) (v : Value) :
    (Operation.command channel v).toggle = some channel := by
  obtain ⟨k, hk, toggle⟩ := h.parse
  exact (Operation.toggle_command v hk).trans toggle

end IsToggle

variable {channel : String}

theorem Notice.Idle.not_off (hc : IsToggle channel) {n : Notice} (h : n.Idle) : n.isOff channel = false := by
  cases h with
  | said h =>
    cases h with
    | reported status detail => rfl
    | @published c content known =>
      rw [Bool.eq_false_iff]
      intro off
      unfold isOff at off
      split at off
      · next he =>
        cases he
        exact hc.not_polled (beq_iff_eq.mp off ▸ known)
      · cases off
  | granted t => rfl

namespace Session

theorem Tells.offs (hc : IsToggle channel) {s : Session} {news : List Notice} (h : s.Tells news) :
    s.offs channel = news.countP (·.isOff channel) := by
  obtain ⟨pre, post, outbox, hpre, hpost⟩ := h
  have none : ∀ ns : List Notice, (∀ n ∈ ns, n.Idle) → ns.countP (·.isOff channel) = 0 := by
    intro ns idle
    rw [List.countP_eq_zero]
    intro n hn
    rw [(idle n hn).not_off hc]
    exact Bool.false_ne_true
  unfold Session.offs
  rw [outbox, List.countP_append, List.countP_append, none pre hpre, none post hpost]
  omega

theorem offs_of_quiet (hc : IsToggle channel) {s : Session} (h : s.Tells []) : s.offs channel = 0 :=
  h.offs hc

/-- The host application is told once, if it hears of it at all. -/
theorem offs_of_offer (hc : IsToggle channel) {s : Session} (h : s.Tells (s.offer (some channel))) :
    s.offs channel = (s.hears channel).toNat := by
  rw [h.offs hc]
  unfold offer
  dsimp only
  cases s.hears channel with
  | true => simp [Notice.isOff]
  | false => rfl

end Session

namespace Routine

variable {self : TaskId} {s : Session} {p : Except Trouble Next × Session} {v : Value}

/-- An activation that is switched on gives its order. -/
theorem command_ordered (hc : IsToggle channel) (on : Setting.switch v = .ok true)
    (live : s.disposed = false) (range : s.settings.passive.InRange) :
    ∃ k : Order.Kind, k.toggle = some channel ∧ Ordered self k s ((command self channel v).exec s) := by
  rcases hc with rfl | rfl
  · obtain ⟨payload, passive⟩ := Request.passive_of_inRange range
    refine ⟨.single payload (some Order.passiveToggle), rfl, ?_⟩
    rw [exec_passiveActivate self s on live passive]
    exact order_ordered self _ s
  · refine ⟨.manual .settings, rfl, ?_⟩
    rw [exec_manualActivate self s on live]
    exact order_ordered self _ s

/-- What any turn of an activation means for its toggle. -/
theorem Effect.reset {c : Cause} (h : Effect self s c p) (hs : s.outbox = []) (hc : IsToggle channel)
    (on : Setting.switch v = .ok true) (serves : c.Serves (.command channel v))
    (later : c ≠ .started (.command channel v)) : Reset (some channel) c.Cut s p := by
  have no_poll : ∀ purpose, ¬ (Operation.command channel v).Polls purpose := by
    intro purpose polls
    cases polls with
    | refresh refresh => exact Bool.false_ne_true ((not_isRefresh on).symm.trans refresh)
  cases h with
  | started _ =>
    cases serves
    exact absurd rfl later
  | polled hp _ => exact absurd (hp.serves serves) (no_poll _)
  | held hh h =>
    obtain ⟨-, toggle⟩ := hh.serves serves
    rw [hc.toggle_command] at toggle
    cases toggle
    exact h.reset hs
  | probed hp _ => rcases hp.serves serves with h | h <;> cases h
  | polling _ => cases serves

theorem Effect.settle {c : Cause} {id : JobId} {toggle : Option String} (h : Effect self s c p)
    (hs : s.outbox = []) (serves : c.Serves (.followUp id toggle)) : Settle id toggle s p := by
  cases h with
  | started h =>
    cases serves
    cases h with
    | order ho _ => cases ho
  | polled hp h =>
    cases hp.serves serves
    exact h.settle hs
  | held hh _ => cases (hh.serves serves).1
  | probed hp _ => rcases hp.serves serves with h | h <;> cases h
  | polling _ => cases serves

end Routine

def Entry.offs (e : Entry) (channel : String) : Nat := e.after.offs channel

/-- Whether a turn leaves the host application to hear that a toggle is off. -/
def Entry.hears (e : Entry) (channel : String) : Bool := e.after.hears channel

/-- How often a toggle is said to be off in a list of turns. -/
def offsIn (es : List Entry) (channel : String) : Nat := (es.map (·.offs channel)).sum

theorem offsIn_eq_zero {es : List Entry} (h : ∀ f ∈ es, f.offs channel = 0) : offsIn es channel = 0 := by
  unfold offsIn
  rw [List.sum_eq_zero_iff_forall_eq_nat]
  intro n hn
  obtain ⟨f, hf, rfl⟩ := List.mem_map.mp hn
  exact h f hf

/-- Only the last turn of a life says something of the toggle. -/
theorem offsIn_cons {e : Entry} {es : List Entry} (h : ∀ f ∈ es, f.offs channel = 0) :
    offsIn (e :: es) channel = e.offs channel := by
  have rest := offsIn_eq_zero h
  unfold offsIn at *
  rw [List.map_cons, List.sum_cons, rest, Nat.add_zero]

theorem offsIn_append (es fs : List Entry) : offsIn (es ++ fs) channel = offsIn es channel + offsIn fs channel := by
  unfold offsIn
  rw [List.map_append, List.sum_append]

/-- What a turn of an activation says of its toggle, and what it leaves to the scheduler. -/
structure Activation (channel : String) (e : Entry) : Prop where
  waits : Waits e.result → e.offs channel = 0 ∧ e.after.chores = []
  refused : Ended e.result → ¬ e.Accepts → (∀ t, e.result = .error t → ¬ t.OfUser) →
    e.offs channel = (e.hears channel).toNat ∧ e.after.chores = []
  accepted : e.Accepts → e.offs channel = 0 ∧
    e.after.chores = [Routine.followUp e.before.nextJob (some channel)]

theorem cut_ofUser {c : Cause} {t : Trouble} (h : c.Cut t) : t.OfUser := by
  cases c with
  | answered now k a => exact h.2
  | started o => exact h.elim
  | rested w => exact h.elim
  | granted k => exact h.elim

theorem Reset.activation (hc : IsToggle channel) {e : Entry} (ho : e.operation.isOrder = true)
    (h : Reset (some channel) e.cause.Cut e.before (e.result, e.after)) : Activation channel e := by
  generalize hr : e.result = r at h
  generalize hu : e.after = u at h
  have not_waiting : ∀ out, r = .ok (.done out) → ¬ Waits e.result := by
    rintro out rfl ⟨next, he, goes⟩
    rw [hr] at he
    exact goes out (Except.ok.inj he).symm
  have not_accepts : ∀ t, r = .error t → ¬ e.Accepts := by
    rintro t rfl ⟨-, _, he, -⟩
    rw [hr] at he
    cases he
  cases h with
  | waits goes _ told =>
    refine ⟨fun _ => ⟨?_, ?_⟩, fun ended => ?_, ?_⟩
    · unfold Entry.offs
      rw [hu]
      exact Session.offs_of_quiet hc told
    · rw [hu]
      exact told.chores
    · obtain ⟨out, done⟩ := ended _ hr
      exact absurd done (goes out)
    · rintro ⟨-, t, he, -⟩
      rw [hr] at he
      exact absurd (Except.ok.inj he) (goes _)
  | @accepted t _ ht _ _ _ _ told =>
    refine ⟨fun waits => absurd waits (not_waiting _ rfl), fun _ refused => ?_, fun _ => ⟨?_, ?_⟩⟩
    · exact absurd ⟨ho, t, hr, ht⟩ refused
    · unfold Entry.offs
      rw [hu, told.offs hc]
      rfl
    · rw [hu]
      exact told.chores
  | @refused t _ ht _ told =>
    refine ⟨fun waits => absurd waits (not_waiting _ rfl), fun _ _ _ => ⟨?_, ?_⟩, fun accepts => ?_⟩
    · unfold Entry.offs Entry.hears
      rw [hu]
      exact Session.offs_of_offer hc told
    · rw [hu]
      exact told.chores.trans (Session.chores_offer _ _)
    · obtain ⟨-, t', he, ht'⟩ := accepts
      rw [hr] at he
      cases he
      cases ht.symm.trans ht'
  | unheard _ _ told =>
    refine ⟨?_, fun _ _ _ => ⟨?_, ?_⟩, fun accepts => absurd accepts (not_accepts _ rfl)⟩
    · rintro ⟨next, he, -⟩
      rw [hr] at he
      cases he
    · unfold Entry.offs Entry.hears
      rw [hu]
      exact Session.offs_of_offer hc told
    · rw [hu]
      exact told.chores.trans (Session.chores_offer _ _)
  | interrupted cut _ _ =>
    refine ⟨?_, fun _ _ whole => absurd (cut_ofUser cut) (whole _ hr),
      fun accepts => absurd accepts (not_accepts _ rfl)⟩
    rintro ⟨next, he, -⟩
    rw [hr] at he
    cases he

/-- Every turn of an activation, if the first one found the session in order. -/
theorem Life.activation (hc : IsToggle channel) {v : Value} (on : Setting.switch v = .ok true) {t : TaskId}
    {es : List Entry} (h : Life t (.command channel v) es)
    (first : ∀ e ∈ es, e.cause = .started (.command channel v) →
      e.before.disposed = false ∧ e.before.settings.passive.InRange) :
    ∀ e ∈ es, Activation channel e := by
  induction h with
  | @started e ht ho sound hcause =>
    refine List.forall_mem_singleton.mpr ?_
    obtain ⟨live, range⟩ := first e List.mem_cons_self hcause
    have exec := sound.exec
    rw [hcause] at exec
    obtain ⟨k, toggle, ordered⟩ : ∃ k : Order.Kind, k.toggle = some channel ∧
        Routine.Ordered e.task k e.before ((Routine.command e.task channel v).exec e.before) :=
      Routine.command_ordered hc on live range
    change (Routine.command e.task channel v).exec e.before = _ at exec
    rw [exec] at ordered
    have reset := ordered.reset sound.swept
    rw [toggle] at reset
    apply Reset.activation hc (by rw [ho]; rfl)
    rw [hcause]
    exact reset
  | @resumed e f es next ht ho sound hr resumes life ih =>
    refine List.forall_mem_cons.mpr ⟨?_, ih fun g hg => first g (List.mem_cons_of_mem _ hg)⟩
    have later : e.cause ≠ .started (.command channel v) := by
      intro hcause
      rw [hcause] at resumes
      cases next <;> exact resumes
    have serves := (Life.resumed ht ho sound hr resumes life).course.1
    exact Reset.activation hc (by rw [ho]; rfl) (sound.effect.reset sound.swept hc on serves later)

/-- A follow-up says that its toggle is off in its last turn. -/
theorem Life.settles (hc : IsToggle channel) {t : TaskId} {id : JobId} {e : Entry} {es : List Entry}
    (h : Life t (.followUp id (some channel)) (e :: es)) (ended : Ended e.result) :
    e.offs channel = (e.hears channel).toNat ∧ ∀ f ∈ es, f.offs channel = 0 := by
  have settle : ∀ f ∈ e :: es, Settle id (some channel) f.before (f.result, f.after) := by
    intro f hf
    obtain ⟨-, -, sound⟩ := h.task f hf
    exact sound.effect.settle sound.swept (h.serves f hf)
  constructor
  · have last := settle e List.mem_cons_self
    generalize hr : e.result = r at last ended
    generalize hu : e.after = u at last
    unfold Entry.offs Entry.hears
    rw [hu]
    cases last with
    | waits waits _ _ => exact absurd ended waits.not_ended
    | settled _ _ _ _ _ told => exact Session.offs_of_offer hc told
  · intro f hf
    have waits := h.waits f hf
    have before := settle f (List.mem_cons_of_mem _ hf)
    generalize hr : f.result = r at before waits
    generalize hu : f.after = u at before
    unfold Entry.offs
    rw [hu]
    cases before with
    | waits _ _ told => exact Session.offs_of_quiet hc told
    | settled ended _ _ _ _ _ => exact absurd ended waits.not_ended

/-- Whether a notice leaves the job with this number to a scheduler. -/
def Notice.plans (id : JobId) : Notice → Bool
  | .scheduled i _ _ => i == id
  | _ => false

/-- Whether a turn is part of a poll that another turn has planned to follow an order. -/
def Entry.follows (e f : Entry) : Bool :=
  match e.operation with
  | .followUp id _ => f.after.outbox.any (·.plans id)
  | _ => false

theorem Entry.follows_iff {e f : Entry} : e.follows f = true ↔
    ∃ id toggle, e.operation = .followUp id toggle ∧ ∃ n ∈ f.after.chores, n.plans id = true := by
  have chore : ∀ id, f.after.outbox.any (·.plans id) = true ↔ ∃ n ∈ f.after.chores, n.plans id = true := by
    intro id
    rw [List.any_eq_true]
    constructor
    · rintro ⟨n, hn, plans⟩
      refine ⟨n, List.mem_filter.mpr ⟨hn, ?_⟩, plans⟩
      cases n <;> first | rfl | cases plans
    · rintro ⟨n, hn, plans⟩
      exact ⟨n, (List.mem_filter.mp hn).1, plans⟩
  unfold Entry.follows
  split
  · next id toggle ho =>
    rw [chore id]
    constructor
    · intro h
      exact ⟨id, toggle, ho, h⟩
    · rintro ⟨i, u, hi, h⟩
      cases ho.symm.trans hi
      exact h
  · next other =>
    refine ⟨nofun, ?_⟩
    rintro ⟨id, toggle, ho, -⟩
    exact absurd ho (other id toggle)

/-- Nothing follows a turn that leaves nothing to the scheduler. -/
theorem Entry.not_follows {e f : Entry} (h : f.after.chores = []) : e.follows f = false := by
  rw [Bool.eq_false_iff, ne_eq, Entry.follows_iff, h]
  rintro ⟨-, -, -, n, hn, -⟩
  cases hn

theorem Entry.follows_planned {e f : Entry} {id : JobId} {toggle : Option String}
    (h : f.after.chores = [Routine.followUp id toggle]) :
    e.follows f = true ↔ ∃ u, e.operation = .followUp id u := by
  rw [Entry.follows_iff, h]
  constructor
  · rintro ⟨i, u, ho, n, hn, plans⟩
    rw [List.mem_singleton.mp hn] at plans
    cases beq_iff_eq.mp plans
    exact ⟨u, ho⟩
  · rintro ⟨u, ho⟩
    exact ⟨id, u, ho, _, List.mem_singleton_self _, beq_self_eq_true id⟩

/-- Whether the device has taken an order in full. -/
def Ending.accepted (x : Ending) : Bool :=
  match x.result with
  | .ok (.tally t) => t.ok
  | _ => false

namespace Crowd

/-- The turns of the polls that follow a task. -/
def followers (c : Crowd) (t : TaskId) : List Entry := c.log.filter fun e => (c.turns t).any e.follows

/-- How often the host application has been told that a toggle is off by a task and by the polls
that follow it. -/
def offs (c : Crowd) (t : TaskId) (channel : String) : Nat :=
  offsIn (c.turns t ++ c.followers t) channel

variable {c : Crowd}

theorem accepted_iff {e : Entry} {x : Ending} (order : e.operation.isOrder = true)
    (ends : Ends e.result x.result) : x.accepted = true ↔ e.Accepts := by
  unfold Ending.accepted Entry.Accepts Routine.Accepts
  generalize e.result = r at ends
  generalize x.result = out at ends
  cases ends with
  | failed t => simp
  | stopped => simp
  | done o => cases o <;> simp [order]

/-- No poll follows a task that leaves nothing to the scheduler. -/
theorem followers_eq_nil {t : TaskId} (h : ∀ f ∈ c.turns t, f.after.chores = []) : c.followers t = [] := by
  unfold followers
  rw [List.filter_eq_nil_iff]
  intro e _ follows
  obtain ⟨f, hf, follows⟩ := List.any_eq_true.mp follows
  rw [Entry.not_follows (h f hf)] at follows
  cases follows

/-- The turns that follow a task are those of the follow-up that its last turn has planned. -/
theorem followers_eq_turns (hc : c.Reachable) {t : TaskId} {f : Entry} {es : List Entry} {id : JobId}
    {toggle : Option String} (turns : c.turns t = f :: es)
    (planned : f.after.chores = [Routine.followUp id toggle]) (before : ∀ g ∈ es, g.after.chores = [])
    {u : TaskId} {g : Entry} (hg : g ∈ c.turns u) (same : ∀ h ∈ c.turns u, h.operation = .followUp id toggle) :
    c.followers t = c.turns u := by
  unfold followers
  change _ = c.log.filter _
  apply List.filter_congr
  intro h mem
  have none : es.any h.follows = false := by
    rw [List.any_eq_false]
    intro k hk
    rw [Entry.not_follows (before k hk)]
    exact Bool.false_ne_true
  rw [turns, List.any_cons, none, Bool.or_false, Bool.eq_iff_iff, Entry.follows_planned planned,
    decide_eq_true_iff]
  obtain ⟨glog, gtask⟩ := mem_turns.mp hg
  constructor
  · rintro ⟨v, ho⟩
    exact (hc.served.once h mem g glog id v toggle ho (same g hg)).trans gtask
  · intro task
    exact ⟨toggle, same h (mem_turns.mpr ⟨mem, task⟩)⟩

/-- An activation tells the host application once that its toggle is off, if it hears of it at that
moment: in the last turn of the activation, unless the device has taken it in full; else in the last
turn of the poll that follows it, however that ends. -/
theorem toggle_off_once (hc : c.Reachable) (toggle : IsToggle channel) {v : Value}
    (on : Setting.switch v = .ok true) {e : Entry} (he : e ∈ c.log)
    (asked : e.cause = .started (.command channel v)) (live : e.before.disposed = false) {x : Ending}
    (hx : x ∈ c.endings) (task : x.task = e.task) (whole : ∀ t, x.result = .error t → ¬ t.OfUser) :
    ∃ f es, c.turns e.task = f :: es ∧
      (x.accepted = false → c.offs e.task channel = (f.hears channel).toNat ∧
        f.offs channel = (f.hears channel).toNat) ∧
      (x.accepted = true → ∃ j ∈ c.jobs, f.after.chores = [Routine.followUp j.id (some channel)] ∧
        j.job = .followUp j.id (some channel) ∧ ∀ y ∈ c.endings, y.operation = j.job.operation →
          ∃ g gs, c.turns y.task = g :: gs ∧ c.offs e.task channel = (g.hears channel).toNat ∧
            g.offs channel = (g.hears channel).toNat) := by
  have orderly := hc.orderly
  have mem : e ∈ c.turns x.task := mem_turns.mpr ⟨he, task.symm⟩
  have operation : x.operation = .command channel v := by
    obtain ⟨f, fs, turns, life, -⟩ := orderly.ended x hx
    exact (life.task e (turns ▸ mem)).2.1.symm.trans (orderly.started he asked)
  obtain ⟨f, es, turns, life, ends, ended⟩ := orderly.last_turn hx (by rw [operation]; nofun)
  rw [operation] at life
  have activation : ∀ g ∈ f :: es, Activation channel g := by
    apply life.activation toggle on
    intro g hg started
    cases life.first (turns ▸ mem) hg asked started
    exact ⟨live, hc.chronicle.ranges e he⟩
  have before : ∀ g ∈ es, g.offs channel = 0 ∧ g.after.chores = [] := fun g hg =>
    (activation g (List.mem_cons_of_mem _ hg)).waits (life.waits g hg)
  have last := activation f List.mem_cons_self
  have order : f.operation.isOrder = true := by
    rw [(life.task f List.mem_cons_self).2.1]
    rfl
  have accepts := accepted_iff order ends
  rw [task] at turns
  refine ⟨f, es, turns, ?_, ?_⟩
  · intro refused
    have not_accepts : ¬ f.Accepts := by
      rw [← accepts, refused]
      exact Bool.false_ne_true
    obtain ⟨offs, chores⟩ := last.refused ended not_accepts fun t ht => whole t (by
      rw [ht] at ends
      generalize x.result = out at ends
      cases ends
      rfl)
    refine ⟨?_, offs⟩
    have none : c.followers e.task = [] := by
      apply followers_eq_nil
      rw [turns]
      exact List.forall_mem_cons.mpr ⟨chores, fun g hg => (before g hg).2⟩
    unfold Crowd.offs
    rw [none, List.append_nil, turns, offsIn_cons fun g hg => (before g hg).1, offs]
  · intro accepted
    obtain ⟨silent, chores⟩ := last.accepted (accepts.mp accepted)
    have planned : Routine.followUp f.before.nextJob (some channel) ∈ f.after.outbox :=
      (List.mem_filter.mp (chores ▸ List.mem_singleton_self _)).1
    have flog := (mem_turns.mp (turns ▸ List.mem_cons_self : f ∈ c.turns e.task)).1
    obtain ⟨j, hj, id, job⟩ := hc.served.planned f flog _ _ _ planned
    rw [← id] at chores job
    refine ⟨j, hj, chores, job, ?_⟩
    intro y hy same
    rw [job] at same
    obtain ⟨g, gs, later, follow, -, settled⟩ := orderly.last_turn hy (by rw [same]; nofun)
    rw [same] at follow
    obtain ⟨offs, rest⟩ := follow.settles toggle settled
    refine ⟨g, gs, later, ?_, offs⟩
    have followers : c.followers e.task = c.turns y.task := by
      refine followers_eq_turns hc turns chores (fun g hg => (before g hg).2) (g := g)
        (later ▸ List.mem_cons_self) ?_
      rw [later]
      exact fun h hh => (follow.task h hh).2.1
    unfold Crowd.offs
    rw [followers, turns, later, offsIn_append, offsIn_cons fun g hg => (before g hg).1, silent,
      offsIn_cons rest, offs, Nat.zero_add]

/-- The first turn of a task stands in the log. -/
theorem spawn_entry (c : Crowd) (o : Operation) (job : Option JobId) (run : Option RunId) :
    ∃ e ∈ (c.spawn o job run).log, e.task = c.nextTask ∧ e.cause = .started o ∧ e.before = c.session := by
  obtain ⟨e, task, -, cause, before, -, jobs, clock, rest⟩ :=
    advance_eq { c with nextTask := c.nextTask + 1 } ⟨c.nextTask, o, job, run⟩ (.started o)
  refine ⟨e, ?_, task, cause, before⟩
  unfold spawn
  rcases rest with ⟨next, -, -, heq⟩ | ⟨out, -, heq⟩
  · rw [heq]
    exact List.mem_cons_self
  · rw [heq]
    exact List.mem_cons_self

def probed : Crowd :=
  (start { host := "10.0.0.2" } true).run
    [.start .probe, .answer 0 ⟨0⟩ (.ok (some "\x7b\"id\":0,\"result\":\x7b\x7d\x7d".toUTF8.toList))]

theorem toggle_off_once_online :
    let c := probed.step (.start (.command Order.manualToggle (.bool true)))
    ∃ e ∈ c.log, e.cause = .started (.command Order.manualToggle (.bool true)) ∧
      e.before.disposed = false ∧ ∃ x ∈ c.endings, x.task = e.task ∧ x.accepted = false ∧
        c.offs e.task Order.manualToggle = 1 := by
  intro c
  have reachable : c.Reachable := Reachable.step ⟨_, _, _, rfl⟩ _
  have first : probed.nextTask = 1 ∧ probed.session.disposed = false := by decide +kernel
  obtain ⟨e, he, task, asked, before⟩ : ∃ e ∈ c.log, e.task = probed.nextTask ∧
      e.cause = .started (.command Order.manualToggle (.bool true)) ∧ e.before = probed.session :=
    spawn_entry probed _ none none
  rw [first.1] at task
  have live : e.before.disposed = false := before ▸ first.2
  have ended : c.endings.any (fun x => x.task == 1 && x.result.isOk && !x.accepted) = true := by
    decide +kernel
  obtain ⟨x, hx, holds⟩ := List.any_eq_true.mp ended
  simp only [Bool.and_eq_true, beq_iff_eq, Bool.not_eq_true'] at holds
  obtain ⟨⟨same, returns⟩, refused⟩ := holds
  have hears : (c.turns 1).all (·.hears Order.manualToggle) = true := by decide +kernel
  obtain ⟨f, es, turns, told, -⟩ := toggle_off_once reachable (.inr rfl) rfl he asked live hx
    (same.trans task.symm) fun t ht => by rw [ht] at returns; cases returns
  obtain ⟨offs, -⟩ := told refused
  rw [task] at turns
  rw [turns] at hears
  rw [List.all_eq_true.mp hears f List.mem_cons_self] at offs
  exact ⟨e, he, asked, live, x, hx, same.trans task.symm, refused, offs⟩

/-- So the host application does not hear of the end of every activation: here nothing is known of
the device yet. -/
theorem toggle_off_unheard : ¬ ∀ c : Crowd, c.Reachable → ∀ e ∈ c.log, ∀ v,
    Setting.switch v = .ok true → e.cause = .started (.command Order.manualToggle v) →
    e.before.disposed = false → e.before.host = {} → ∀ x ∈ c.endings, x.task = e.task →
    (∀ t, x.result ≠ .error t) → x.accepted = false → c.offs e.task Order.manualToggle = 1 := by
  intro once
  have heard := once
    ((start { host := "10.0.0.2" } false).step (.start (.command Order.manualToggle (.bool true))))
    ((Reachable.start _ _).step _) _ List.mem_cons_self (.bool true) rfl rfl rfl rfl
    _ List.mem_cons_self rfl nofun rfl
  have silent : ((start { host := "10.0.0.2" } false).step
      (.start (.command Order.manualToggle (.bool true)))).offs 0 Order.manualToggle = 0 := by
    decide +kernel
  exact Nat.zero_ne_one (silent.symm.trans heard)

end Crowd

end BatteryLink
