import BatteryLink.Proofs.Progress
import BatteryLink.Proofs.Requests
/-!
Orders take turns. Tasks are numbered as they start, and an order asks for the lock in its first
turn; so the order in which the lock is passed on is that of the numbers.
-/
namespace BatteryLink

open Routine (Cause Next Effect Held Ordered)
open scoped List

/-- The tasks that have the lock or want it, in the order in which they get it. -/
def Lock.line (l : Lock) : List TaskId := l.holder.toList ++ l.queue

@[simp] theorem Lock.line_passed (l : Lock) : l.passed.line = l.queue := by
  unfold passed line
  cases l.queue <;> rfl

theorem Lock.Fits.waits_of_mem_line {l : Lock} {waits : TaskId → Option Next} (h : l.Fits waits)
    {t : TaskId} (ht : t ∈ l.line) : ∃ next, waits t = some next := by
  rcases List.mem_append.mp ht with holder | queued
  · obtain ⟨next, hn, -⟩ := h.holder t (Option.mem_toList.mp holder)
    exact ⟨next, hn⟩
  · obtain ⟨k, hk⟩ := h.queue t queued
    exact ⟨_, hk⟩

/-- A first turn after which the task has the lock or stands in its queue. -/
def Entry.AsksLock (e : Entry) : Prop := (∃ o, e.cause = .started o) ∧ e.task ∈ e.after.lock.line

namespace Routine

variable {self : TaskId} {s : Session} {p : Except Trouble Next × Session} {next : Next}

theorem Held.line {toggle : Option String} {n : Nat} {asks runs : Prop} {cut : Trouble → Prop}
    (h : Held toggle n asks runs cut s p) : p.2.lock.line <+ s.lock.line := by
  rcases h.lock with ⟨-, -, -, lock⟩ | ⟨-, lock⟩
  · rw [lock]
  · rw [lock, Lock.line_passed]
    exact List.sublist_append_right _ _

/-- A turn brings nobody into the line but its own task, which stands at the end, if it is new. -/
theorem Effect.line {c : Cause} (h : Effect self s c p)
    (idle : s.lock.holder = none → s.lock.queue = []) : p.2.lock.line <+ s.lock.line ∨
      (∃ o, c = .started o) ∧ p.2.lock.line <+ s.lock.line ++ [self] := by
  rcases h.lock with ⟨-, ⟨-, -, -, lock⟩ | ⟨-, lock⟩⟩ | ⟨-, ⟨started, k, ordered⟩ | ⟨-, lock⟩⟩
  · rw [lock]
    exact .inl (.refl _)
  · rw [lock, Lock.line_passed]
    exact .inl (List.sublist_append_right _ _)
  · refine .inr ⟨started, ?_⟩
    cases ordered with
    | queued hl =>
      unfold Lock.line Session.queued
      rw [List.append_assoc]
    | held hl h =>
      have alone : (s.locked self).lock.line = [self] := by simp [Lock.line, Session.locked, idle hl]
      exact (alone ▸ h.line).trans (List.sublist_append_right _ _)
  · rw [lock]
    exact .inl (.refl _)

/-- A task that starts and then has something to do with the lock stands in the line. -/
theorem Effect.mem_line {o : Operation} (h : Effect self s (.started o) p) (hr : p.1 = .ok next)
    (locking : next.Locking) : self ∈ p.2.lock.line := by
  rcases h.lock with ⟨holding, -⟩ | ⟨-, ⟨-, k, ordered⟩ | ⟨apart, -⟩⟩
  · exact holding.elim
  · cases ordered with
    | queued hl => simp [Lock.line, Session.queued]
    | held hl h =>
      rcases h.lock with ⟨-, -, -, lock⟩ | ⟨apart, -⟩
      · simp [lock, Lock.line, Session.locked]
      · exact absurd locking (apart next hr)
  · exact absurd locking (apart next hr)

end Routine

/-- A task that has or wants the lock has asked for it when it started. -/
theorem Life.asksLock {t : TaskId} {o : Operation} {e : Entry} {es : List Entry}
    (h : Life t o (e :: es)) {next : Next} (hr : e.result = .ok next) (locking : next.Locking) :
    ∃ f ∈ e :: es, f.AsksLock := by
  generalize hl : e :: es = l at h
  induction h generalizing e es next with
  | @started f _ _ sound hc =>
    cases hl
    have effect := sound.effect
    rw [hc] at effect
    exact ⟨f, List.mem_cons_self, ⟨o, hc⟩, effect.mem_line hr locking⟩
  | @resumed g f fs prior _ _ sound hf resumes _ ih =>
    cases hl
    have holding : g.cause.Holding := by
      rcases sound.effect.lock with ⟨holding, -⟩ | ⟨-, ⟨⟨p, started⟩, -⟩ | ⟨apart, -⟩⟩
      · exact holding
      · rw [started] at resumes
        exact absurd resumes Routine.Next.Resumes.not_started
      · exact absurd locking (apart next hr)
    obtain ⟨a, ha, asks⟩ := ih hf (resumes.holding.mp holding) rfl
    exact ⟨a, List.mem_cons_of_mem _ ha, asks⟩

namespace Crowd

variable {c d : Crowd}

theorem line_fresh (ho : c.Orderly) (h : c.Fitting) : ∀ t ∈ c.session.lock.line, t < c.nextTask := by
  intro t ht
  obtain ⟨next, hn⟩ := h.waits_of_mem_line ht
  obtain ⟨m, hm, -⟩ := Option.map_eq_some_iff.mp hn
  obtain ⟨mem, rfl⟩ := member?_eq_some hm
  exact (ho.alive m mem).2.fresh ho

/-- A task whose last turn is an order to the device has the lock. -/
theorem Orderly.holder (ho : d.Orderly) (h : d.Fitting) {e : Entry} {early : List Entry}
    (log : d.log = e :: early) (sets : e.setsMode = true) : d.session.lock.holder = some e.task := by
  have mem : e ∈ d.log := log ▸ List.mem_cons_self
  have first : ∀ f fs, d.turns e.task = f :: fs → f = e := by
    intro f fs turns
    rw [turns_self (c := { d with log := early }) log] at turns
    exact (List.cons.inj turns).1.symm
  rcases ho.known e mem with ⟨m, hm, id, -⟩ | ⟨x, hx, id, -⟩
  · obtain ⟨-, f, fs, turns, life, hr⟩ := ho.alive m hm
    cases first f fs (id ▸ turns)
    obtain ⟨x, stage, asks⟩ := (life.setsMode_iff List.mem_cons_self).mp sets
    rw [← id]
    refine h.writes m.id m.waits (waits_of_mem ho hm) ?_
    rw [Except.ok.inj (hr.symm.trans asks)]
    trivial
  · obtain ⟨f, fs, turns, life, ends⟩ := ho.ended x hx
    cases first f fs (id ▸ turns)
    obtain ⟨y, stage, asks⟩ := (life.setsMode_iff List.mem_cons_self).mp sets
    rw [asks] at ends
    cases ends

/-- The lock is passed on in the order of the numbers, and nobody in the line comes before a task
that has given an order to the device. -/
structure Ranked (c : Crowd) : Prop where
  line : c.session.lock.line.Pairwise (· < ·)
  past : ∀ e ∈ c.log, e.setsMode = true → ∀ t ∈ c.session.lock.line, e.task ≤ t
  log : c.log.Pairwise fun later earlier =>
    later.setsMode = true → earlier.setsMode = true → earlier.task ≤ later.task
  starts : c.log.Pairwise fun later earlier =>
    (∃ o, later.cause = .started o) → earlier.task < later.task

theorem ranked_start (config : Config) (ownsRunner : Bool) : (start config ownsRunner).Ranked where
  line := .nil
  past := List.forall_mem_nil _
  log := .nil
  starts := .nil

theorem moved_ranked (ho : c.Orderly) (hf : c.Fitting) (h : c.Ranked) (moved : Moved c d) :
    d.Ranked := by
  rcases moved_turned ho moved with ⟨log, -, -, lock⟩ | ⟨e, sound, before, fresh, log, session⟩
  · constructor
    · rw [lock]
      exact h.line
    · rw [log, lock]
      exact h.past
    · rw [log]
      exact h.log
    · rw [log]
      exact h.starts
  · have below := line_fresh ho hf
    have lock : d.session.lock = e.after.lock := by rw [session]
    have line := sound.effect.line (before ▸ hf.idle)
    rw [before, ← lock] at line
    -- only a task that starts joins the line, and its number is above all that were given before
    have sorted : d.session.lock.line.Pairwise (· < ·) := by
      rcases line with fewer | ⟨started, fewer⟩
      · exact h.line.sublist fewer
      · refine List.Pairwise.sublist fewer (List.pairwise_append.mpr ⟨h.line, List.pairwise_singleton _ _, ?_⟩)
        intro t ht u hu
        cases List.mem_singleton.mp hu
        exact fresh started ▸ below t ht
    have past : ∀ f ∈ c.log, f.setsMode = true → ∀ t ∈ d.session.lock.line, f.task ≤ t := by
      intro f hf sets t ht
      rcases line with fewer | ⟨started, fewer⟩
      · exact h.past f hf sets t (fewer.subset ht)
      · rcases List.mem_append.mp (fewer.subset ht) with old | new
        · exact h.past f hf sets t old
        · cases List.mem_singleton.mp new
          exact Nat.le_of_lt (fresh started ▸ ho.fresh f hf)
    -- a turn that gives an order to the device is one of the task that stands first
    have own : e.setsMode = true → d.session.lock.line = e.task :: d.session.lock.queue := by
      intro sets
      have holder := (moved_orderly ho moved).holder (moved_fitting ho hf moved) log sets
      unfold Lock.line
      rw [holder]
      rfl
    constructor
    · exact sorted
    · rw [log]
      refine List.forall_mem_cons.mpr ⟨fun sets t ht => ?_, past⟩
      rw [own sets] at ht sorted
      rcases List.mem_cons.mp ht with rfl | ht
      · exact Nat.le_refl _
      · exact Nat.le_of_lt (List.rel_of_pairwise_cons sorted ht)
    · rw [log]
      refine List.pairwise_cons.mpr ⟨fun f hf sets earlier => ?_, h.log⟩
      exact past f hf earlier e.task (own sets ▸ List.mem_cons_self)
    · rw [log]
      refine List.pairwise_cons.mpr ⟨fun f hf started => ?_, h.starts⟩
      exact fresh started ▸ ho.fresh f hf

theorem Reachable.ranked (h : c.Reachable) : c.Ranked :=
  h.induction ranked_start fun c mv hr hc => moved_ranked hr.orderly hr.fitting hc (step_moved c mv)

/-- Task `t` asked for the lock before task `u` did. -/
def AsksBefore (c : Crowd) (t u : TaskId) : Prop :=
  ∃ e f, [f, e] <+ c.log ∧ e.task = t ∧ f.task = u ∧ e.AsksLock ∧ f.AsksLock

/-- Two members of a list stand in it in the order that its relation allows. -/
theorem sublist_of_pairwise {α : Type} {R : α → α → Prop} {l : List α} (h : l.Pairwise R) {a b : α}
    (ha : a ∈ l) (hb : b ∈ l) (ne : a ≠ b) (no : ¬ R b a) : [a, b] <+ l := by
  induction h with
  | nil => cases ha
  | @cons x xs hx _ ih =>
    rcases List.mem_cons.mp ha with rfl | mem
    · have hb := (List.mem_cons.mp hb).resolve_left ne.symm
      exact (List.singleton_sublist.mpr hb).cons_cons a
    · rcases List.mem_cons.mp hb with rfl | hb
      · exact absurd (hx a mem) no
      · exact (ih mem hb).cons x

theorem Orderly.asksLock (h : c.Orderly) {e : Entry} (he : e ∈ c.log) (sets : e.setsMode = true) :
    ∃ f ∈ c.log, f.task = e.task ∧ f.AsksLock := by
  obtain ⟨late, early, log⟩ := List.append_of_mem he
  have life := h.life (log ▸ List.suffix_append late (e :: early))
  obtain ⟨x, stage, asks⟩ := (life.setsMode_iff List.mem_cons_self).mp sets
  obtain ⟨f, hf, asksLock⟩ := life.asksLock asks trivial
  refine ⟨f, ?_, (life.task f hf).1, asksLock⟩
  rw [log]
  rcases List.mem_cons.mp hf with rfl | hf
  · simp
  · simp [(List.mem_filter.mp hf).1]

theorem Reachable.asksBefore (hc : c.Reachable) {e f : Entry} (he : e ∈ c.log) (hf : f ∈ c.log)
    (sets : e.setsMode = true) (sets' : f.setsMode = true) (lt : e.task < f.task) :
    c.AsksBefore e.task f.task := by
  obtain ⟨a, ha, task, asks⟩ := hc.orderly.asksLock he sets
  obtain ⟨b, hb, task', asks'⟩ := hc.orderly.asksLock hf sets'
  rw [← task, ← task'] at lt
  refine ⟨a, b, ?_, task, task', asks, asks'⟩
  -- both turns are first ones, and first turns stand in the log in the order of their numbers
  refine sublist_of_pairwise hc.ranked.starts hb ha ?_ fun later => ?_
  · rintro rfl
    exact Nat.lt_irrefl _ lt
  · exact Nat.lt_asymm lt (later asks.1)

/-- Never are two transactions that change the mode of the device under way at once. Those of one
task follow each other with no other one between them, and tasks make them in the order in which
they asked for the lock, however the transactions before ended. Every task that waits for the lock
gets it and comes to its end. -/
theorem orders_take_turns (hc : c.Reachable) :
    (∀ m ∈ c.members, ∀ n ∈ c.members, m.waits.setsMode = true → n.waits.setsMode = true → m = n) ∧
      (∀ e f g, [g, f, e] <+ c.log → e.setsMode = true → f.setsMode = true → g.setsMode = true →
        g.task = e.task → f.task = e.task) ∧
      (∀ e f, [f, e] <+ c.log → e.setsMode = true → f.setsMode = true →
        e.task = f.task ∨ c.AsksBefore e.task f.task) ∧
      ∀ m ∈ c.members, (∃ k, m.waits = .queue k) →
        Inevitable (fun d => ∃ x ∈ d.endings, x.task = m.id) c := by
  have orderly := hc.orderly
  have follows : ∀ {e f}, [f, e] <+ c.log → f.setsMode = true → e.setsMode = true →
      e.task ≤ f.task := by
    intro e f hs
    exact List.rel_of_pairwise_cons (hc.ranked.log.sublist hs) (List.mem_singleton.mpr rfl)
  refine ⟨?_, ?_, ?_, ?_⟩
  · intro m hm n hn hms hns
    have holds : ∀ m ∈ c.members, m.waits.setsMode = true → c.session.lock.holder = some m.id := by
      intro m hm sets
      obtain ⟨-, f, fs, -, life, hr⟩ := orderly.alive m hm
      have proper := life.proper f List.mem_cons_self m.waits hr
      obtain ⟨x, stage, asks⟩ := proper.setsMode_iff.mp sets
      refine hc.fitting.writes m.id m.waits (waits_of_mem orderly hm) ?_
      rw [asks]
      trivial
    have same := (holds m hm hms).symm.trans (holds n hn hns)
    exact List.inj_on_of_nodup_map orderly.nodup hm hn (Option.some.inj same)
  · intro e f g hs he hf hg same
    have first : [f, e] <+ c.log := (List.sublist_cons_self g [f, e]).trans hs
    have second : [g, f] <+ c.log := (List.Sublist.cons_cons g (List.sublist_append_left [f] [e])).trans hs
    exact Nat.le_antisymm (same ▸ follows second hg hf) (follows first hf he)
  · intro e f hs he hf
    rcases Nat.eq_or_lt_of_le (follows hs hf he) with same | lt
    · exact .inl same
    · have mem : ∀ g ∈ [f, e], g ∈ c.log := fun g hg => hs.subset hg
      exact .inr (hc.asksBefore (mem e (by simp)) (mem f (by simp)) he hf lt)
  · rintro m hm ⟨k, waits⟩
    obtain ⟨-, f, fs, turns, life, -⟩ := orderly.alive m hm
    have mem : f ∈ c.turns m.id := turns ▸ List.mem_cons_self
    obtain ⟨hf, task⟩ := mem_turns.mp mem
    have serves := orderly.serves hm
    rw [waits] at serves
    have order : f.operation ≠ .dispose := by
      rw [(life.task f List.mem_cons_self).2.1]
      intro disposal
      rw [disposal] at serves
      cases serves.1
    rw [← task]
    exact hc.ends hf order

/-- A mode is selected, and while the device is asked, two slots and a passive mode are activated. The
first exchange runs into trouble, and the device does not answer the others. -/
def threeOrders : List Move :=
  [.start (.command "timePeriod0#enabled" (.bool true)),
    .start (.command "timePeriod2#enabled" (.bool true)),
    .start (.command "modeSelect" (.text "Auto")),
    .start (.command Order.manualToggle (.bool true)),
    .start (.activatePassive (.int 100) (.int 300)),
    .answer 2 ⟨0⟩ (.error (.refused (.noAddress "10.0.0.2"))),
    .grant 3, .answer 3 ⟨0⟩ (.ok none), .rest 3, .answer 3 ⟨0⟩ (.ok none),
    .grant 4, .answer 4 ⟨0⟩ (.ok none)]

theorem orders_take_turns_threeOrders :
    let c := (start { host := "10.0.0.2" } false).run threeOrders
    c.Reachable ∧ (c.log.filter (·.setsMode)).map (·.task) = [4, 3, 3, 2] ∧
      c.AsksBefore 2 3 ∧ c.AsksBefore 3 4 := by
  intro c
  have reachable : c.Reachable := ⟨_, _, _, rfl⟩
  have tasks : (c.log.filter (·.setsMode)).map (·.task) = [4, 3, 3, 2] := by decide +kernel
  obtain ⟨-, -, order, -⟩ := orders_take_turns reachable
  have asked : ∀ t u, [u, t] <+ [4, 3, 3, 2] → t ≠ u → c.AsksBefore t u := by
    intro t u hs ne
    rw [← tasks] at hs
    obtain ⟨l, hl, pair⟩ := List.sublist_map_iff.mp hs
    obtain ⟨f, rest, rfl, rfl, one⟩ := List.map_eq_cons_iff.mp pair.symm
    obtain ⟨e, rest, rfl, rfl, none⟩ := List.map_eq_cons_iff.mp one
    cases List.map_eq_nil_iff.mp none
    have sets : ∀ g ∈ [f, e], g.setsMode = true := fun g hg => (List.mem_filter.mp (hl.subset hg)).2
    exact (order e f (hl.trans List.filter_sublist) (sets e (by simp)) (sets f (by simp))).resolve_left ne
  exact ⟨reachable, tasks, asked 2 3 (by decide) (by decide), asked 3 4 (by decide) (by decide)⟩

end Crowd
end BatteryLink
