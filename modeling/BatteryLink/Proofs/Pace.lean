import BatteryLink.Proofs.Roster
/-!
How the handles of a workshop go on. As long as nobody asks a handle to stop, there is one call that
wakes it, now or later, unless a job of it is being done; so it is woken once for each thing that it
has to do, and not before its time.
-/
namespace BatteryLink

namespace Agenda

variable {α : Type}

theorem perm_insertTimer (t : Timer α) (ts : List (Timer α)) : (insertTimer t ts).Perm (t :: ts) := by
  induction ts with
  | nil => exact .refl _
  | cons u ts ih =>
    unfold insertTimer
    split
    · exact .refl _
    · exact (ih.cons u).trans (.swap t u ts)

theorem inOrder_append {due later : List (Timer α)} (h : InOrder (due ++ later)) : InOrder later :=
  (List.pairwise_append.mp h).2.1

/-- The time to which the clock moves is not past any timer. -/
theorem InOrder.first {t u : Timer α} {ts : List (Timer α)} (h : InOrder (t :: ts)) (hu : u ∈ t :: ts) :
    u.due.lt t.due = false := by
  rcases List.mem_cons.mp hu with rfl | hu
  · exact Binary64.lt_irrefl _
  · exact (List.pairwise_cons.mp h).1 u hu

end Agenda

namespace Workshop.Bench

variable {w v : Bench} {x : Handle}

def wakeOf (h : HandleId) : Item → Bool
  | some (.wake i) => i == h
  | _ => false

/-- How often a handle is woken as things stand. -/
def woken (w : Bench) (h : HandleId) : Nat := w.queue.countP fun p => wakeOf h p.2

/-- How often it will be woken later. -/
def timed (w : Bench) (h : HandleId) : Nat := w.timers.countP fun t => wakeOf h t.item

theorem wakeOf_self (h : HandleId) : wakeOf h (some (.wake h)) = true := beq_self_eq_true h

theorem wakeOf_other {h i : HandleId} (other : h ≠ i) : wakeOf h (some (.wake i)) = false :=
  beq_eq_false_iff_ne.mpr other.symm

theorem count_append {q : List (Nat × Item)} {h : HandleId} {more : List (Nat × Item)}
    (quiet : ∀ p ∈ more, wakeOf h p.2 = false) :
    (q ++ more).countP (fun p => wakeOf h p.2) = q.countP fun p => wakeOf h p.2 := by
  rw [List.countP_append, List.countP_eq_zero.mpr fun p hp => Bool.eq_false_iff.mp (quiet p hp), Nat.add_zero]

theorem quiet_words (told : List TaskId) (h : HandleId) : ∀ p ∈ words told, wakeOf h p.2 = false :=
  List.forall_mem_map.mpr fun _ _ => rfl

theorem quiet_wakes (turns : Nat) {hs : List HandleId} {h : HandleId} (other : h ∉ hs) :
    ∀ p ∈ wakes turns hs, wakeOf h p.2 = false :=
  List.forall_mem_map.mpr fun _ hi => wakeOf_other fun same => other (same ▸ hi)

theorem woken_taken {n : Nat} {item : Item} {rest : List (Nat × Item)} {h : HandleId}
    (taken : w.queue = (n, item) :: rest) (quiet : wakeOf h item = false) :
    w.woken h = rest.countP fun p => wakeOf h p.2 := by
  unfold woken
  rw [taken]
  exact List.countP_cons_of_neg (Bool.eq_false_iff.mp quiet)

theorem woken_wake {n : Nat} {rest : List (Nat × Item)} {h : HandleId}
    (taken : w.queue = (n, some (.wake h)) :: rest) :
    w.woken h = rest.countP (fun p => wakeOf h p.2) + 1 := by
  unfold woken
  rw [taken]
  exact List.countP_cons_of_pos (wakeOf_self h)

theorem woken_pos {n : Nat} {h : HandleId} (hm : (n, some (.wake h)) ∈ w.queue) : 0 < w.woken h :=
  List.countP_pos_iff.mpr ⟨_, hm, wakeOf_self h⟩

theorem queue_of_woken {h : HandleId} (hw : 0 < w.woken h) : w.queue ≠ [] := by
  intro none
  unfold woken at hw
  rw [none] at hw
  cases hw

/-- The end of the rest after a run that ended at a time: it is there, or a timer is set to it. -/
def Waits (w : Bench) (h : HandleId) (start rest : Binary64) : Prop :=
  w.woken h = 1 ∧ w.timed h = 0 ∧ History.Comes start rest w.now ∨
  w.woken h = 0 ∧ w.timed h = 1 ∧ ∃ u ∈ w.timers, wakeOf h u.item = true ∧ u.due = start.add rest ∧
    (w.now = start ∨ u.due.lt w.now = false)

/-- How far a handle is that nobody has asked to stop. -/
inductive Stage (w : Bench) (x : Handle) : Prop
  | fresh : (x.phase = .starting ∨ x.phase = .delayed) → (∀ run, .created run x.id ∉ w.history.events) →
      w.woken x.id + w.timed x.id = 1 → Stage w x
  | busy {run : RunId} : x.phase = .running run → ¬ w.history.Ended run → w.history.lastEnd x.id = none →
      w.woken x.id = 0 → w.timed x.id = 0 → Stage w x
  | done {run : RunId} : x.phase = .running run → w.history.Ended run →
      w.history.lastEnd x.id = some w.now → w.woken x.id = 1 → w.timed x.id = 0 → Stage w x
  | resting {rest : Span} {d t : Binary64} : x.phase = .resting → x.plan = .every rest →
      rest.onClock? = some d → w.history.lastEnd x.id = some t → w.Waits x.id t d → Stage w x

structure Paced (w : Bench) : Prop where
  order : Agenda.InOrder w.timers
  /-- Nobody is woken who is not there. -/
  strangers : ∀ h, (∀ x ∈ w.runner.handles, x.id ≠ h) → w.woken h = 0 ∧ w.timed h = 0
  stage : ∀ x ∈ w.runner.handles, x.ended = false → x.stopRequested = false → w.Stage x

theorem Paced.awaits (h : w.Paced) : w.Awaits := by
  intro x hx run wake alive going phase
  have woken := woken_pos wake
  cases h.stage x hx alive going with
  | fresh idle _ _ =>
    rw [phase] at idle
    rcases idle with idle | idle <;> cases idle
  | busy _ _ _ none _ => exact absurd none (Nat.ne_of_gt woken)
  | @done other phase' ended _ _ _ =>
    cases phase.symm.trans phase'
    exact ended
  | resting phase' _ _ _ _ => cases phase.symm.trans phase'

/-- An event that is not about the runs of a handle. -/
def Foreign (l : History) (h : HandleId) (e : Event) : Prop :=
  (∀ run, e ≠ .created run h) ∧ ∀ run how, e = .ended run how → .created run h ∉ l.events

theorem foreign_aside {l : History} {h : HandleId} {e : Event} (aside : Aside e) : Foreign l h e := by
  constructor
  · rintro run rfl
    exact aside
  · rintro run how rfl
    exact aside.elim

theorem lastEnd_foreign {l : History} {h : HandleId} {e : Event} (foreign : Foreign l h e) (t : Binary64) :
    History.lastEnd h ((t, e) :: l) = l.lastEnd h := by
  cases e with
  | created run i => exact if_neg fun same : i = h => foreign.1 run (same ▸ rfl)
  | ended run how => exact if_neg (foreign.2 run how rfl)
  | _ => rfl

/-- What happens is not about a handle. -/
structure Alike (w v : Bench) (h : HandleId) : Prop where
  woken : v.woken h = w.woken h
  timed : v.timed h = w.timed h
  timers : ∀ u ∈ w.timers, u ∈ v.timers
  now : v.now = w.now
  news : v.history = w.history ∨ ∃ e, v.history = (w.now, e) :: w.history ∧ Foreign w.history h e

theorem Stage.still (h : w.Stage x) (alike : Alike w v x.id)
    (home : ∀ run, x.phase = .running run → .created run x.id ∈ w.history.events) : v.Stage x := by
  have created : ∀ run, .created run x.id ∉ w.history.events → .created run x.id ∉ v.history.events := by
    intro run unknown
    rcases alike.news with same | ⟨e, more, foreign⟩
    · rwa [same]
    · rw [more]
      exact fun hm => (List.mem_cons.mp hm).elim (fun same => foreign.1 run same.symm) unknown
  have ended : ∀ run, x.phase = .running run → (v.history.Ended run ↔ w.history.Ended run) := by
    intro run phase
    rcases alike.news with same | ⟨e, more, foreign⟩
    · rw [same]
    · rw [more]
      exact ended_cons fun how same => foreign.2 run how same (home run phase)
  have lastEnd : v.history.lastEnd x.id = w.history.lastEnd x.id := by
    rcases alike.news with same | ⟨e, more, foreign⟩
    · rw [same]
    · rw [more, lastEnd_foreign foreign]
  cases h with
  | fresh idle none one =>
    exact .fresh idle (fun run => created run (none run)) (by rw [alike.woken, alike.timed, one])
  | @busy run phase going open' woken timed =>
    exact .busy phase (fun he => going ((ended run phase).mp he)) (lastEnd.trans open')
      (alike.woken.trans woken) (alike.timed.trans timed)
  | @done run phase past last woken timed =>
    exact .done phase ((ended run phase).mpr past) (by rw [lastEnd, last, alike.now])
      (alike.woken.trans woken) (alike.timed.trans timed)
  | resting phase plan hd last waits =>
    refine .resting phase plan hd (lastEnd.trans last) ?_
    rcases waits with ⟨woken, timed, comes⟩ | ⟨woken, timed, u, hu, wakes, due, ahead⟩
    · exact .inl ⟨alike.woken.trans woken, alike.timed.trans timed, alike.now ▸ comes⟩
    · exact .inr ⟨alike.woken.trans woken, alike.timed.trans timed, u, alike.timers u hu, wakes, due,
        alike.now.symm ▸ ahead⟩

/-- What is due is called, and nothing else. -/
theorem count_rouse (h : HandleId) (now : Binary64) {due later : List (Timer Item)}
    (split : w.timers = due ++ later) : ∃ n,
    woken { w with queue := w.queue ++ due.map (fun t => (t.turns, t.item)), timers := later, now } h =
      w.woken h + n ∧
    w.timed h = n + timed { w with
      queue := w.queue ++ due.map (fun t => (t.turns, t.item)), timers := later, now } h ∧
    (0 < n ∨ ∀ t ∈ due, wakeOf h t.item = false) := by
  refine ⟨due.countP fun t => wakeOf h t.item, ?_, ?_, ?_⟩
  · unfold woken
    rw [List.countP_append, List.countP_map]
    rfl
  · unfold timed
    rw [split, List.countP_append]
  · rcases Nat.eq_zero_or_pos (due.countP fun t => wakeOf h t.item) with none | some
    · exact .inr fun t ht => Bool.eq_false_iff.mpr (List.countP_eq_zero.mp none t ht)
    · exact .inl some

/-- Time moves on to the first timer, and what is due is called. -/
theorem Stage.rouses (h : w.Stage x) (order : Agenda.InOrder w.timers) {now : Binary64}
    {due later : List (Timer Item)} (split : w.timers = due ++ later)
    (isDue : ∀ t ∈ due, Agenda.isDue now t = true) (still : w.queue ≠ [] → now = w.now)
    (moves : now = w.now ∨ ∃ t ts, w.timers = t :: ts ∧ now = t.due) :
    Stage { w with queue := w.queue ++ due.map (fun t => (t.turns, t.item)), timers := later, now } x := by
  obtain ⟨n, woken, timed, found⟩ := count_rouse x.id now split
  cases h with
  | fresh idle none one => exact .fresh idle none (by omega)
  | busy phase going open' asleep none => exact .busy phase going open' (by omega) (by omega)
  | done phase past last once none =>
    have same : now = w.now := still (queue_of_woken (h := x.id) (by omega))
    exact .done phase past (last.trans (congrArg some same.symm)) (by omega) (by omega)
  | @resting rest d t phase plan hd last waits =>
    refine .resting phase plan hd last ?_
    rcases waits with ⟨once, none, comes⟩ | ⟨asleep, once, u, hu, wakes, at', ahead⟩
    · have same : now = w.now := still (queue_of_woken (h := x.id) (by omega))
      exact .inl ⟨by omega, by omega, same ▸ comes⟩
    · have ahead : now = t ∨ u.due.lt now = false := by
        rcases moves with rfl | ⟨first, others, timers, rfl⟩
        · exact ahead
        · rw [timers] at order hu
          exact .inr (order.first hu)
      rcases List.mem_append.mp (split ▸ hu) with early | late
      · have here : 0 < n := found.resolve_right fun quiet => by
          rw [quiet u early] at wakes
          cases wakes
        have arrived : Agenda.isDue now u = true := isDue u early
        unfold Agenda.isDue at arrived
        rw [at'] at arrived ahead
        exact .inl ⟨by omega, by omega, arrived, ahead⟩
      · have there : 0 < Bench.timed { w with
            queue := w.queue ++ due.map (fun t => (t.turns, t.item)), timers := later, now } x.id :=
          List.countP_pos_iff.mpr ⟨u, late, wakes⟩
        exact .inr ⟨by omega, by omega, u, late, wakes, at', ahead⟩

theorem alike_queue {h : HandleId} (queue : v.woken h = w.woken h) (timers : v.timers = w.timers)
    (now : v.now = w.now)
    (news : v.history = w.history ∨ ∃ e, v.history = (w.now, e) :: w.history ∧ Foreign w.history h e) :
    Alike w v h :=
  ⟨queue, by unfold timed; rw [timers], fun u hu => timers.symm ▸ hu, now, news⟩

/-- Whoever something is about is there, and comes to a stage of its own; others go on as they did. -/
theorem Paced.grow (h : w.Paced) (runs : w.Runs) (about : HandleId → Prop) (order : Agenda.InOrder v.timers)
    (alike : ∀ i, ¬ about i → Alike w v i) (known : ∀ i, about i → ∃ z ∈ v.runner.handles, z.id = i)
    (ids : ∀ x ∈ w.runner.handles, ∃ z ∈ v.runner.handles, z.id = x.id)
    (back : ∀ z ∈ v.runner.handles, ¬ about z.id → z ∈ w.runner.handles)
    (stage : ∀ z ∈ v.runner.handles, about z.id → z.ended = false → z.stopRequested = false → v.Stage z) :
    v.Paced := by
  refine ⟨order, fun i unknown => ?_, fun z hz alive going => ?_⟩
  · by_cases concerned : about i
    · obtain ⟨z, hz, same⟩ := known i concerned
      exact absurd same (unknown z hz)
    · have unknown : ∀ x ∈ w.runner.handles, x.id ≠ i := by
        rintro x hx rfl
        obtain ⟨z, hz, same⟩ := ids x hx
        exact unknown z hz same
      obtain ⟨none, never⟩ := h.strangers i unknown
      exact ⟨(alike i concerned).woken.trans none, (alike i concerned).timed.trans never⟩
  · by_cases concerned : about z.id
    · exact stage z hz concerned alive going
    · have hz := back z hz concerned
      exact (h.stage z hz alive going).still (alike z.id concerned) (runs.home z hz)

/-- Something is about nobody. -/
theorem Paced.keep (h : w.Paced) (runs : w.Runs) (order : Agenda.InOrder v.timers)
    (handles : v.runner.handles = w.runner.handles) (alike : ∀ i, Alike w v i) : v.Paced :=
  h.grow runs (fun _ => False) order (fun i _ => alike i) (fun _ => False.elim)
    (fun x hx => ⟨x, handles.symm ▸ hx, rfl⟩) (fun _ hz _ => handles ▸ hz) fun _ _ => False.elim

/-- The turn of a handle. -/
theorem Paced.turns (h : w.Paced) (runs : w.Runs) (order : Agenda.InOrder v.timers) {y : Handle}
    (hx : x ∈ w.runner.handles) (id : y.id = x.id)
    (handles : v.runner.handles = (w.runner.setHandle y).handles) (alike : ∀ i, i ≠ x.id → Alike w v i)
    (stage : y.ended = false → v.Stage y) : v.Paced := by
  have known : ∀ {i}, (∃ z ∈ w.runner.handles, z.id = i) → ∃ z ∈ v.runner.handles, z.id = i := by
    intro i hi
    rw [handles]
    exact Clockwork.exists_setHandle hi
  refine h.grow runs (· = x.id) order alike (fun i same => known ⟨x, hx, same.symm⟩)
    (fun z hz => known ⟨z, hz, rfl⟩) (fun z hz other => ?_) fun z hz same alive _ => ?_
  · rcases Clockwork.mem_setHandle (handles ▸ hz) with rfl | ⟨hz, -⟩
    · exact absurd id other
    · exact hz
  · rcases Clockwork.mem_setHandle (handles ▸ hz) with rfl | ⟨-, other⟩
    · exact stage alive
    · exact absurd (same.trans id.symm) other

theorem timed_insert (w : Bench) (t : Timer Item) (h : HandleId) :
    timed { w with timers := Agenda.insertTimer t w.timers } h =
      w.timed h + if wakeOf h t.item then 1 else 0 := by
  unfold timed
  rw [(Agenda.perm_insertTimer t w.timers).countP_eq, List.countP_cons]

theorem order_pause (h : Agenda.InOrder w.timers) (d : Binary64) (item : Item) :
    Agenda.InOrder (w.pause d item).timers := by
  unfold pause
  split
  · exact h
  · exact Agenda.inOrder_insertTimer h _

theorem pause_rest (w : Bench) (d : Binary64) (item : Item) : (w.pause d item).runner = w.runner ∧
    (w.pause d item).now = w.now ∧ (w.pause d item).history = w.history := by
  unfold pause
  split <;> exact ⟨rfl, rfl, rfl⟩

theorem pause_quiet (w : Bench) (d : Binary64) {item : Item} {h : HandleId} (quiet : wakeOf h item = false) :
    (w.pause d item).woken h = w.woken h ∧ (w.pause d item).timed h = w.timed h ∧
      ∀ u ∈ w.timers, u ∈ (w.pause d item).timers := by
  unfold pause
  split
  · exact ⟨count_append (List.forall_mem_singleton.mpr quiet), rfl, fun _ => id⟩
  · refine ⟨rfl, ?_, fun u hu => Agenda.mem_insertTimer.mpr (.inr hu)⟩
    rw [timed_insert, quiet]
    rfl

theorem alike_pause (w : Bench) (d : Binary64) {item : Item} {h : HandleId} (quiet : wakeOf h item = false) :
    Alike w (w.pause d item) h := by
  obtain ⟨-, now, history⟩ := w.pause_rest d item
  obtain ⟨woken, timed, timers⟩ := w.pause_quiet d quiet
  exact ⟨woken, timed, timers, now, .inl history⟩

/-- One more call wakes a handle, now or later. -/
theorem pause_wake (w : Bench) (d : Binary64) (h : HandleId) :
    (w.pause d (some (.wake h))).woken h + (w.pause d (some (.wake h))).timed h =
      w.woken h + w.timed h + 1 := by
  unfold pause
  split
  · have more : woken { w with queue := w.queue ++ [(0, some (.wake h))] } h = w.woken h + 1 := by
      unfold woken
      rw [List.countP_append, List.countP_singleton, wakeOf_self]
      rfl
    rw [more, Nat.add_right_comm]
    rfl
  · rw [timed_insert, wakeOf_self]
    rfl

/-- A handle that has to rest is woken later, when its time has come. -/
theorem pause_later (w : Bench) {d : Binary64} (takes : d.leInt 0 = false) (h : HandleId) :
    (w.pause d (some (.wake h))).woken h = w.woken h ∧
      (⟨w.now.add d, 1, some (.wake h)⟩ : Timer Item) ∈ (w.pause d (some (.wake h))).timers := by
  unfold pause
  rw [if_neg (by rw [takes]; exact Bool.false_ne_true)]
  exact ⟨rfl, Agenda.mem_insertTimer.mpr (.inl rfl)⟩

/-- A handle that was woken goes to sleep. -/
theorem Paced.sleeps (h : w.Paced) (runs : w.Runs) (leaves : ∀ x ∈ w.runner.handles, x.plan.Leaves)
    {phase : Phase} {span : Span} {d : Binary64} {rest : List (Nat × Item)}
    (taken : w.queue = (0, some (.wake x.id)) :: rest) (hx : x ∈ w.runner.handles) (alive : x.ended = false)
    (going : x.stopRequested = false) (hd : span.onClock? = some d)
    (because : x.phase = .starting ∧ x.plan = .after span ∧ phase = .delayed ∨
      (∃ run, x.phase = .running run) ∧ x.plan = .every span ∧ phase = .resting) :
    (pause { w with queue := rest, runner := w.runner.setHandle { x with phase } } d
      (some (.wake x.id))).Paced := by
  let left : Bench := { w with queue := rest, runner := w.runner.setHandle { x with phase } }
  obtain ⟨runner, now, history⟩ := left.pause_rest d (some (.wake x.id))
  have one := left.pause_wake d x.id
  have taken_other : ∀ i, i ≠ x.id → left.woken i = w.woken i :=
    fun i other => (woken_taken taken (wakeOf_other other)).symm
  have taken_own : w.woken x.id = left.woken x.id + 1 := woken_wake taken
  have same_timed : left.timed x.id = w.timed x.id := rfl
  refine h.turns runs (y := { x with phase }) (order_pause (w := left) h.order d _) hx rfl (congrArg _ runner)
    (fun i other => ?_) fun _ => ?_
  · obtain ⟨woken, timed, timers⟩ := left.pause_quiet d (wakeOf_other other)
    exact ⟨woken.trans (taken_other i other), timed, timers, now, .inl history⟩
  · cases h.stage x hx alive going with
    | fresh idle none once =>
      rcases because with ⟨-, -, rfl⟩ | ⟨⟨run, phase⟩, -, -⟩
      · exact .fresh (.inr rfl) (history.symm ▸ none) (one.trans (by omega))
      · rw [phase] at idle
        rcases idle with idle | idle <;> cases idle
    | busy _ _ _ asleep _ => omega
    | @done run phase past last once none =>
      rcases because with ⟨starting, -, -⟩ | ⟨-, plan, rfl⟩
      · cases phase.symm.trans starting
      · obtain ⟨still, timer⟩ := left.pause_later (leaves x hx span d plan hd) x.id
        have asleep : (left.pause d (some (.wake x.id))).woken x.id = 0 := by omega
        refine .resting rfl plan hd ((congrArg (History.lastEnd x.id) history).trans last) (.inr ⟨asleep, ?_, _,
          timer, wakeOf_self x.id, rfl, .inl now⟩)
        change (left.pause d (some (.wake x.id))).timed x.id = 1
        omega
    | resting phase' _ _ _ _ =>
      rcases because with ⟨starting, -, -⟩ | ⟨⟨run, running⟩, -, -⟩
      · cases phase'.symm.trans starting
      · cases phase'.symm.trans running

/-- A handle that was woken starts a run. -/
theorem Paced.starts (h : w.Paced) (runs : w.Runs) {rest : List (Nat × Item)}
    (taken : w.queue = (0, some (.wake x.id)) :: rest) (hx : x ∈ w.runner.handles) (alive : x.ended = false)
    (going : x.stopRequested = false) (idle : ∀ run, x.phase ≠ .running run) :
    Paced (note { w with
      queue := rest ++ [(0, some (.begin w.runner.nextRun))]
      runner := { w.runner.setHandle { x with phase := .running w.runner.nextRun } with
        live := w.runner.live ++ [{ id := w.runner.nextRun, handle := x.id }]
        nextRun := w.runner.nextRun + 1 } } (.created w.runner.nextRun x.id)) := by
  have taken_own : w.woken x.id = rest.countP (fun p => wakeOf x.id p.2) + 1 := woken_wake taken
  have only : w.woken x.id = 1 ∧ w.timed x.id = 0 := by
    cases h.stage x hx alive going with
    | fresh _ _ once => omega
    | busy phase _ _ _ _ => exact absurd phase (idle _)
    | done phase _ _ _ _ => exact absurd phase (idle _)
    | resting _ _ _ _ waits =>
      rcases waits with ⟨once, none, -⟩ | ⟨asleep, -⟩
      · exact ⟨once, none⟩
      · omega
  have unended : ¬ w.history.Ended w.runner.nextRun := by
    intro past
    obtain ⟨i, hc⟩ := runs.began _ (runs.ended _ past)
    exact Nat.lt_irrefl _ (runs.below _ i hc)
  have begins : ∀ i, (rest ++ [(0, some (RunnerCall.begin w.runner.nextRun))]).countP
      (fun p : Nat × Item => wakeOf i p.2) = rest.countP fun p => wakeOf i p.2 :=
    fun _ => count_append (List.forall_mem_singleton.mpr rfl)
  refine h.turns runs (y := { x with phase := .running w.runner.nextRun }) h.order hx rfl rfl
    (fun i other => ?_) fun _ => ?_
  · refine alike_queue ((begins i).trans (woken_taken taken (wakeOf_other other)).symm) rfl rfl
      (.inr ⟨_, rfl, ?_, nofun⟩)
    rintro run same
    cases same
    exact other rfl
  · have last : History.lastEnd x.id ((w.now, .created w.runner.nextRun x.id) :: w.history) = none := if_pos rfl
    have still : ¬ History.Ended ((w.now, .created w.runner.nextRun x.id) :: w.history) w.runner.nextRun :=
      fun past => unended ((ended_cons (e := .created _ _) nofun).mp past)
    refine .busy rfl still last ((begins x.id).trans ?_) only.2
    omega

/-- A handle that waited for a run is woken when it has ended. -/
theorem Paced.runEnds (h : w.Paced) (runs : w.Runs) (ids : (w.runner.handles.map fun x => x.id).Nodup)
    {run : RunId} (waiters : List (Waiter TaskId)) (told : List TaskId) (how : RunEnd)
    (going : ¬ w.history.Ended run) :
    Paced (note { w with
      queue := w.queue ++ (0, some (.forgetRun run)) ::
        (wakes 1 ((w.runner.waitingFor? run).toList.map Handle.id) ++ words told)
      runner := { (w.runner.afterRun (w.runner.waitingFor? run) how).markEnded run with waiters } }
      (.ended run how)) := by
  have handles := Runner.afterRun_handles ids run (fun x hx y hy => runs.alone hx hy) how
  have waits : ∀ {y}, w.runner.waitingFor? run = some y → .created run y.id ∈ w.history.events := by
    intro y hy
    exact runs.home y (List.mem_of_find?_eq_some hy) run (by simpa using List.find?_some hy)
  have calls : ∀ i, .created run i ∉ w.history.events →
      ∀ p ∈ (0, some (.forgetRun run)) ::
        (wakes 1 ((w.runner.waitingFor? run).toList.map Handle.id) ++ words told), wakeOf i p.2 = false := by
    intro i apart
    refine List.forall_mem_cons.mpr ⟨rfl, List.forall_mem_append.mpr ⟨?_, quiet_words told i⟩⟩
    refine quiet_wakes 1 fun hi => ?_
    obtain ⟨y, hy, rfl⟩ := List.mem_map.mp hi
    exact apart (waits (Option.mem_toList.mp hy))
  refine h.grow runs (fun i => .created run i ∈ w.history.events) h.order (fun i apart => ?_) (fun i hc => ?_)
    (fun x hx => ⟨_, handles.symm ▸ List.mem_map_of_mem hx, x.id_stopIf _⟩) (fun z hz apart => ?_)
    fun z hz hc alive asked => ?_
  · refine alike_queue (count_append (calls i apart)) rfl rfl (.inr ⟨_, rfl, nofun, fun r how' same hc => ?_⟩)
    cases same
    exact apart hc
  · obtain ⟨y, hy, rfl, -⟩ := runs.going run i hc going
    exact ⟨_, handles.symm ▸ List.mem_map_of_mem hy, y.id_stopIf _⟩
  · obtain ⟨y, hy, rfl⟩ := List.mem_map.mp (handles ▸ hz)
    have same : y.stopIf (Handle.Left run how) = y :=
      Handle.stopIf_of_not fun left => apart ((y.id_stopIf (Handle.Left run how)).symm ▸ runs.home y hy run left.2)
    rw [same]
    exact hy
  · obtain ⟨x, hx, rfl⟩ := List.mem_map.mp (handles ▸ hz)
    rw [Handle.id_stopIf] at hc
    rw [Handle.ended_stopIf] at alive
    obtain ⟨y, hy, id, phase⟩ := runs.going run x.id hc going
    cases List.inj_on_of_nodup_map ids hy hx id
    have phase : x.phase = .running run := phase.resolve_right (Bool.eq_false_iff.mp alive)
    have same : x.stopIf (Handle.Left run how) = x := by
      refine Handle.stopIf_of_not fun gives => ?_
      rw [(x.stop_stopIf _).mpr (.inr gives)] at asked
      cases asked
    rw [same] at asked ⊢
    obtain ⟨y, found⟩ : ∃ y, w.runner.waitingFor? run = some y :=
      Option.isSome_iff_exists.mp (List.find?_isSome.mpr ⟨x, hx, beq_iff_eq.mpr phase⟩)
    have known : y.id = x.id := runs.origin run _ _ (waits found) hc
    have last : History.lastEnd x.id ((w.now, .ended run how) :: w.history) = some w.now := if_pos hc
    cases h.stage x hx alive asked with
    | fresh idle _ _ =>
      rw [phase] at idle
      rcases idle with idle | idle <;> cases idle
    | busy _ _ _ asleep none =>
      refine .done phase ⟨how, List.mem_cons_self⟩ last ?_ none
      have one : ([(0, some (.forgetRun run)), (1, some (.wake y.id))] : List (Nat × Item)).countP
          (fun p => wakeOf x.id p.2) = 1 := by
        rw [known, List.countP_cons_of_neg (by exact Bool.false_ne_true)]
        exact List.countP_cons_of_pos (wakeOf_self x.id)
      have split : (0, some (.forgetRun run)) ::
          (wakes 1 ((w.runner.waitingFor? run).toList.map Handle.id) ++ words told) =
          ([(0, some (.forgetRun run)), (1, some (.wake y.id))] : List (Nat × Item)) ++ words told := by
        rw [found]
        rfl
      change (w.queue ++ _ :: _).countP (fun p : Nat × Item => wakeOf x.id p.2) = 1
      rw [split, ← List.append_assoc, count_append (quiet_words told x.id), List.countP_append, one]
      exact congrArg (· + 1) asleep
    | done phase' past _ _ _ =>
      cases phase.symm.trans phase'
      exact absurd past going
    | resting phase' _ _ _ _ => cases phase.symm.trans phase'

/-- A handle that is launched is called at once. -/
theorem Paced.launches (h : w.Paced) (runs : w.Runs) (roster : w.Roster) {i : HandleId} {plan : Plan}
    (fresh : ∀ x ∈ w.runner.handles, x.id ≠ i) : Paced (note { w with
      queue := w.queue ++ wakes 0 [i]
      runner := { w.runner with
        handles := w.runner.handles ++ [{ id := i, plan }], tracked := w.runner.tracked ++ [i] } }
      (.launched i plan)) := by
  refine h.grow runs (· = i) h.order (fun j other => ?_) ?_ (fun x hx => ⟨x, List.mem_append_left _ hx, rfl⟩)
    (fun z hz other => ?_) fun z hz same _ _ => ?_
  · exact alike_queue (count_append (quiet_wakes 0 fun hj => other (List.mem_singleton.mp hj))) rfl rfl
      (.inr ⟨_, rfl, foreign_aside trivial⟩)
  · rintro j rfl
    exact ⟨_, List.mem_append_right _ List.mem_cons_self, rfl⟩
  · rcases List.mem_append.mp hz with hz | hz
    · exact hz
    · cases List.mem_singleton.mp hz
      exact absurd rfl other
  · rcases List.mem_append.mp hz with hz | hz
    · exact absurd same (fresh z hz)
    · cases List.mem_singleton.mp hz
      obtain ⟨none, never⟩ := h.strangers i fresh
      refine .fresh (.inl rfl) (fun run hc => ?_) ?_
      · obtain ⟨plan, hl⟩ := roster.created run i ((List.mem_cons.mp hc).resolve_left nofun)
        obtain ⟨x, hx, id, -⟩ := roster.known i plan hl
        exact fresh x hx id
      · have once : (w.queue ++ wakes 0 [i]).countP (fun p => wakeOf i p.2) = w.woken i + 1 := by
          rw [List.countP_append]
          exact congrArg (w.woken i + ·) (List.countP_cons_of_pos (wakeOf_self i))
        exact (congrArg (· + w.timed i) once).trans (by omega)

/-- Handles that are asked to stop are known, and they go on no longer. -/
theorem Paced.ask (h : w.Paced) (runs : w.Runs) {hs : List HandleId}
    (ids : (w.runner.handles.map fun x => x.id).Nodup) {e : Event} (aside : Aside e) (shutdowns : Nat) :
    Paced { w with
      queue := w.queue ++ wakes 0 (w.runner.awake hs), runner := (w.runner.cancelAll hs).1, shutdowns
      history := (w.now, e) :: w.history } := by
  have handles := Runner.cancelAll_handles ids hs
  have awake : ∀ {i}, i ∈ w.runner.awake hs → ∃ x ∈ w.runner.handles, x.id = i ∧ x.ended = false ∧ i ∈ hs := by
    intro i hi
    obtain ⟨hi, alive⟩ := List.mem_filter.mp hi
    obtain ⟨x, found, alive⟩ := Option.any_eq_true _ _ |>.mp alive
    obtain ⟨hx, id⟩ := Clockwork.mem_of_find? found
    exact ⟨x, hx, id, by simpa using alive, hi⟩
  refine h.grow runs (· ∈ w.runner.awake hs) h.order (fun i apart => ?_) (fun i hi => ?_)
    (fun x hx => ⟨_, handles.symm ▸ List.mem_map_of_mem hx, x.id_stopIf _⟩) (fun z hz apart => ?_)
    fun z hz hi alive going => ?_
  · exact alike_queue (count_append (quiet_wakes 0 apart)) rfl rfl (.inr ⟨_, rfl, foreign_aside aside⟩)
  · obtain ⟨x, hx, id, -⟩ := awake hi
    exact ⟨_, handles.symm ▸ List.mem_map_of_mem hx, (x.id_stopIf _).trans id⟩
  · obtain ⟨x, hx, rfl⟩ := List.mem_map.mp (handles ▸ hz)
    rw [Handle.id_stopIf] at apart
    have same : x.stopIf (Handle.Called hs) = x := by
      refine Handle.stopIf_of_not fun ⟨alive, mem⟩ => apart (List.mem_filter.mpr ⟨mem, ?_⟩)
      rw [Runner.find?_of_mem ids hx, Option.any_some, alive]
      rfl
    rw [same]
    exact hx
  · obtain ⟨x, hx, rfl⟩ := List.mem_map.mp (handles ▸ hz)
    rw [Handle.id_stopIf] at hi
    rw [Handle.ended_stopIf] at alive
    obtain ⟨-, -, -, -, mem⟩ := awake hi
    rw [(x.stop_stopIf _).mpr (.inr ⟨alive, mem⟩)] at going
    cases going

theorem Stop.paced {current : Option RunId} (stop : w.Stop current v) (h : w.Paced) (runs : w.Runs)
    (ids : (w.runner.handles.map fun x => x.id).Nodup) : v.Paced := by
  have asking : (w.asking w.shutdowns current).Paced :=
    h.ask runs ids (e := .stopping w.shutdowns current) trivial _
  have still : (w.asking w.shutdowns current).Runs :=
    runs.ask ids (mute_wakes 0 _) (e := .stopping w.shutdowns current) trivial _
  cases stop with
  | atOnce _ _ =>
    exact asking.keep still asking.order rfl fun _ =>
      alike_queue rfl rfl rfl (.inr ⟨_, rfl, foreign_aside trivial⟩)
  | soon _ =>
    exact asking.keep still asking.order rfl fun i =>
      alike_queue (count_append (quiet_words _ i)) rfl rfl (.inl rfl)
  | later _ _ => exact asking.keep still asking.order rfl fun _ => alike_queue rfl rfl rfl (.inl rfl)

theorem Act.paced (act : w.Act v) (h : w.Paced) (runs : w.Runs) (roster : w.Roster)
    (ids : (w.runner.handles.map fun x => x.id).Nodup) : v.Paced := by
  cases act with
  | @skips n item rest heq =>
    refine h.keep runs h.order rfl fun i => alike_queue ?_ rfl rfl (.inl rfl)
    unfold woken
    rw [heq]
    rw [(List.perm_append_singleton (n, item) rest).countP_eq, List.countP_cons, List.countP_cons]
  | @rouses now due later split isDue still moves =>
    refine ⟨Agenda.inOrder_append (split ▸ h.order), fun i unknown => ?_, fun x hx alive going =>
      (h.stage x hx alive going).rouses h.order split isDue still moves⟩
    obtain ⟨none, never⟩ := h.strangers i unknown
    obtain ⟨n, woken, timed, -⟩ := count_rouse i now split
    omega
  | posts turns =>
    exact h.keep runs h.order rfl fun i =>
      alike_queue (count_append (List.forall_mem_singleton.mpr rfl)) rfl rfl (.inl rfl)
  | pauses delay =>
    exact h.keep runs (order_pause h.order delay none) (congrArg _ (w.pause_rest delay none).1) fun i =>
      alike_pause w delay rfl
  | @idles item rest taken idle =>
    have ended : ∀ {i}, item = some (.wake i) → ∀ x ∈ w.runner.handles, x.id = i → x.ended = true := by
      rintro i rfl x hx rfl
      obtain ⟨_, same, past⟩ := idle _ rfl
      cases same
      exact past x (Runner.find?_of_mem ids hx)
    refine h.grow runs (fun i => item = some (.wake i)) h.order (fun i apart => ?_) (fun i same => ?_)
      (fun x hx => ⟨x, hx, rfl⟩) (fun _ hz _ => hz) fun z hz same alive _ => ?_
    · have quiet : wakeOf i item = false := by
        unfold wakeOf
        split
        · next j => exact beq_eq_false_iff_ne.mpr fun same => apart (same ▸ rfl)
        · rfl
      exact alike_queue (woken_taken taken quiet).symm rfl rfl (.inl rfl)
    · by_contra unknown
      subst same
      have called := woken_pos (taken ▸ List.mem_cons_self : (0, some (.wake i)) ∈ w.queue)
      obtain ⟨none, -⟩ := h.strangers i fun x hx same => unknown ⟨x, hx, same⟩
      omega
    · cases alive.symm.trans (ended same z hz rfl)
  | begins taken =>
    exact h.keep runs h.order rfl fun i =>
      alike_queue (woken_taken taken rfl).symm rfl rfl (.inr ⟨_, rfl, nofun, nofun⟩)
  | reports taken =>
    exact h.keep runs h.order rfl fun i =>
      alike_queue (woken_taken taken rfl).symm rfl rfl (.inr ⟨_, rfl, nofun, nofun⟩)
  | forgetsHandle taken =>
    exact h.keep runs h.order rfl fun i => alike_queue (woken_taken taken rfl).symm rfl rfl (.inl rfl)
  | forgetsRun taken =>
    exact h.keep runs h.order rfl fun i => alike_queue (woken_taken taken rfl).symm rfl rfl (.inl rfl)
  | sleeps taken hx alive going hd because =>
    exact h.sleeps runs roster.leaves taken hx alive going hd because
  | starts taken hx alive going idle => exact h.starts runs taken hx alive going idle
  | @finishes x waiters told rest cancelled taken hx alive because dismissed =>
    refine h.turns runs (y := { x with phase := .ended cancelled }) h.order hx rfl rfl (fun i other => ?_) nofun
    have calls : ∀ p ∈ (0, some (.forgetHandle x.id)) :: words told, wakeOf i p.2 = false :=
      List.forall_mem_cons.mpr ⟨rfl, quiet_words told i⟩
    have same := (count_append calls).trans (woken_taken taken (wakeOf_other other)).symm
    exact alike_queue same rfl rfl (.inl rfl)
  | @runEnds run waiters told how began going dismissed => exact h.runEnds runs ids waiters told how going
  | launches fresh leaves => exact h.launches runs roster fresh
  | @cancels i known => exact h.ask runs ids (e := .cancelled i) trivial w.shutdowns
  | stops current stop => exact stop.paced h runs ids

end Workshop.Bench
end BatteryLink
