import BatteryLink.Proofs.Runner
/-!
Jobs that do not recur run once, on a runner of the session's own as on a scheduler of the host
application.
-/
namespace BatteryLink

open Routine (Cause Next Upkeep)
open Entrusted (Marks finishAt beginAt cancelAt)

namespace Clockwork

def beginning : Nat × RunnerCall TaskId → Option RunId
  | (_, .begin run) => some run
  | _ => none

/-- The runs that are about to begin. -/
def beginnings (ready : List (Nat × RunnerCall TaskId)) : List RunId := ready.filterMap beginning

/-- A handle that does not recur has at most one run, and that run begins once: after it has begun
the job has `begun`. -/
structure Single (begun : HandleId → Prop) (w : Clockwork) : Prop where
  idle : ∀ x ∈ w.runner.handles, x.plan.recurs = false → (x.phase = .starting ∨ x.phase = .delayed) →
    ¬ begun x.id ∧ ∀ l ∈ w.runner.live, l.handle ≠ x.id
  resting : ∀ x ∈ w.runner.handles, x.phase = .resting → x.plan.recurs = true
  due : ∀ l ∈ w.runner.live, l.id ∈ beginnings w.ready → ∀ x ∈ w.runner.handles, x.id = l.handle →
    x.plan.recurs = false → ¬ begun x.id
  one : ∀ x ∈ w.runner.handles, x.plan.recurs = false → ∀ l ∈ w.runner.live, ∀ m ∈ w.runner.live,
    l.handle = x.id → m.handle = x.id → l.id = m.id
  nodup : (beginnings w.ready).Nodup
  fresh : ∀ run ∈ beginnings w.ready, run < w.runner.nextRun
  live : ∀ l ∈ w.runner.live, l.id < w.runner.nextRun

variable {new : HandleId → Plan → Prop} {begun : HandleId → Prop} {w v : Clockwork}

theorem beginnings_append (l more : List (Nat × RunnerCall TaskId)) :
    beginnings (l ++ more) = beginnings l ++ beginnings more :=
  List.filterMap_append

theorem beginnings_rest (pre post : List (Nat × RunnerCall TaskId)) (a : Nat × RunnerCall TaskId) :
    (beginnings (pre ++ post)).Sublist (beginnings (pre ++ a :: post)) :=
  ((List.sublist_cons_self a post).append_left pre).filterMap _

theorem beginnings_more {ready : List (Nat × RunnerCall TaskId)}
    (more : List (Nat × RunnerCall TaskId)) (h : beginnings more = []) :
    (beginnings (ready ++ more)).Sublist (beginnings ready) := by
  rw [beginnings_append, h, List.append_nil]

theorem single_empty : Single begun {} where
  idle := List.forall_mem_nil _
  resting := List.forall_mem_nil _
  due := List.forall_mem_nil _
  one := List.forall_mem_nil _
  nodup := List.nodup_nil
  fresh := List.forall_mem_nil _
  live := List.forall_mem_nil _

/-- A handle as it may have been before. -/
structure Descends (x z : Handle) : Prop where
  id : x.id = z.id
  plan : x.plan = z.plan
  idle : z.phase = .starting ∨ z.phase = .delayed → x.phase = .starting ∨ x.phase = .delayed
  resting : z.phase = .resting → x.phase = .resting ∨ z.plan.recurs = true

theorem Descends.refl (x : Handle) : Descends x x := ⟨rfl, rfl, fun h => h, .inl⟩

/-- Nothing is launched and no run is started. -/
theorem Single.shrink (h : w.Single begun)
    (handles : ∀ z ∈ v.runner.handles, ∃ x ∈ w.runner.handles, Descends x z)
    (live : ∀ l ∈ v.runner.live, ∃ o ∈ w.runner.live, o.id = l.id ∧ o.handle = l.handle)
    (calls : (beginnings v.ready).Sublist (beginnings w.ready))
    (next : v.runner.nextRun = w.runner.nextRun) : v.Single begun where
  idle := by
    intro z hz single phase
    obtain ⟨x, hx, from_x⟩ := handles z hz
    obtain ⟨waits, none⟩ := h.idle x hx (from_x.plan ▸ single) (from_x.idle phase)
    rw [from_x.id] at waits none
    refine ⟨waits, fun l hl => ?_⟩
    obtain ⟨o, ho, -, handle⟩ := live l hl
    exact handle ▸ none o ho
  resting := by
    intro z hz phase
    obtain ⟨x, hx, from_x⟩ := handles z hz
    rcases from_x.resting phase with rests | recurs
    · exact from_x.plan ▸ h.resting x hx rests
    · exact recurs
  due := by
    intro l hl hc z hz hid single
    obtain ⟨x, hx, from_x⟩ := handles z hz
    obtain ⟨o, ho, id, handle⟩ := live l hl
    have waits := h.due o ho (id ▸ calls.subset hc) x hx ((from_x.id.trans hid).trans handle.symm)
      (from_x.plan ▸ single)
    exact from_x.id ▸ waits
  one := by
    intro z hz single l hl m hm hlz hmz
    obtain ⟨x, hx, from_x⟩ := handles z hz
    obtain ⟨o, ho, oid, ohandle⟩ := live l hl
    obtain ⟨p, hp, pid, phandle⟩ := live m hm
    have same := h.one x hx (from_x.plan ▸ single) o ho p hp (ohandle.trans (hlz.trans from_x.id.symm))
      (phandle.trans (hmz.trans from_x.id.symm))
    exact oid ▸ pid ▸ same
  nodup := h.nodup.sublist calls
  fresh := fun run hr => next ▸ h.fresh run (calls.subset hr)
  live := by
    intro l hl
    obtain ⟨o, ho, id, -⟩ := live l hl
    exact next ▸ id ▸ h.live o ho

theorem Single.mono {fewer : HandleId → Prop} (h : w.Single begun) (sub : ∀ id, fewer id → begun id) :
    w.Single fewer where
  idle := fun x hx single phase => ⟨fun hb => (h.idle x hx single phase).1 (sub _ hb), (h.idle x hx single phase).2⟩
  resting := h.resting
  due := fun l hl hc x hx hid single hb => h.due l hl hc x hx hid single (sub _ hb)
  one := h.one
  nodup := h.nodup
  fresh := h.fresh
  live := h.live

theorem descends_set {r : Runner TaskId} {x y : Handle} (hx : x ∈ r.handles) (from_x : Descends x y) :
    ∀ z ∈ (r.setHandle y).handles, ∃ x ∈ r.handles, Descends x z := by
  intro z hz
  rcases mem_setHandle hz with rfl | ⟨hz, -⟩
  · exact ⟨x, hx, from_x⟩
  · exact ⟨z, hz, .refl z⟩

/-- A handle starts a run: it was idle, or it recurs. -/
theorem Single.starts (h : w.Single begun) {x : Handle} (hx : x ∈ w.runner.handles)
    (alive : x.ended = false) (idle : ∀ run, x.phase ≠ .running run) :
    Single begun { w with
      runner := { w.runner.setHandle { x with phase := .running w.runner.nextRun } with
        live := w.runner.live ++ [{ id := w.runner.nextRun, handle := x.id }]
        nextRun := w.runner.nextRun + 1 }
      ready := w.ready ++ [(0, .begin w.runner.nextRun)] } := by
  have waits : x.plan.recurs = false → ¬ begun x.id ∧ ∀ l ∈ w.runner.live, l.handle ≠ x.id := by
    intro single
    apply h.idle x hx single
    cases hp : x.phase with
    | starting => exact .inl rfl
    | delayed => exact .inr rfl
    | running run => exact absurd hp (idle run)
    | resting => cases single.symm.trans (h.resting x hx hp)
    | ended cancelled =>
      unfold Handle.ended at alive
      rw [hp] at alive
      cases alive
  have calls : beginnings (w.ready ++ [(0, .begin w.runner.nextRun)]) =
      beginnings w.ready ++ [w.runner.nextRun] := beginnings_append _ _
  have handles : ∀ z ∈ (w.runner.setHandle { x with phase := .running w.runner.nextRun }).handles,
      (z.id = x.id ∧ z.plan = x.plan ∧ z.phase = .running w.runner.nextRun) ∨
        z ∈ w.runner.handles ∧ z.id ≠ x.id := by
    intro z hz
    rcases mem_setHandle hz with rfl | rest
    · exact .inl ⟨rfl, rfl, rfl⟩
    · exact .inr rest
  have live : ∀ l ∈ w.runner.live ++ [{ id := w.runner.nextRun, handle := x.id }],
      l ∈ w.runner.live ∨ l = { id := w.runner.nextRun, handle := x.id } :=
    fun l hl => (List.mem_append.mp hl).imp_right List.mem_singleton.mp
  constructor
  · intro z hz single phase
    rcases handles z hz with ⟨-, -, running⟩ | ⟨hz, other⟩
    · rcases phase with phase | phase <;> cases running.symm.trans phase
    · obtain ⟨unbegun, none⟩ := h.idle z hz single phase
      refine ⟨unbegun, fun l hl => ?_⟩
      rcases live l hl with hl | rfl
      · exact none l hl
      · exact other.symm
  · intro z hz phase
    rcases handles z hz with ⟨-, -, running⟩ | ⟨hz, -⟩
    · cases running.symm.trans phase
    · exact h.resting z hz phase
  · intro l hl hc z hz hid single
    rw [calls] at hc
    rcases live l hl with hl | rfl
    · have hc : l.id ∈ beginnings w.ready := by
        rcases List.mem_append.mp hc with hc | hc
        · exact hc
        · exact absurd (List.mem_singleton.mp hc) (Nat.ne_of_lt (h.live l hl))
      rcases handles z hz with ⟨zid, plan, -⟩ | ⟨hz, -⟩
      · rw [zid]
        exact (waits (plan ▸ single)).1
      · exact h.due l hl hc z hz hid single
    · rcases handles z hz with ⟨zid, plan, -⟩ | ⟨-, other⟩
      · rw [zid]
        exact (waits (plan ▸ single)).1
      · exact absurd hid other
  · intro z hz single l hl m hm hlz hmz
    rcases handles z hz with ⟨zid, plan, -⟩ | ⟨hz, other⟩
    · obtain ⟨-, none⟩ := waits (plan ▸ single)
      rcases live l hl with hl | rfl
      · exact absurd (hlz.trans zid) (none l hl)
      · rcases live m hm with hm | rfl
        · exact absurd (hmz.trans zid) (none m hm)
        · rfl
    · rcases live l hl with hl | rfl
      · rcases live m hm with hm | rfl
        · exact h.one z hz single l hl m hm hlz hmz
        · exact absurd hmz.symm other
      · exact absurd hlz.symm other
  · change (beginnings (w.ready ++ [(0, .begin w.runner.nextRun)])).Nodup
    rw [calls]
    refine List.nodup_append.mpr ⟨h.nodup, List.nodup_singleton _, fun a ha b hb => ?_⟩
    rw [List.mem_singleton.mp hb]
    exact Nat.ne_of_lt (h.fresh a ha)
  · intro run hr
    rw [calls] at hr
    rcases List.mem_append.mp hr with hr | hr
    · exact Nat.lt_succ_of_lt (h.fresh run hr)
    · rw [List.mem_singleton.mp hr]
      exact Nat.lt_succ_self _
  · intro l hl
    rcases live l hl with hl | rfl
    · exact Nat.lt_succ_of_lt (h.live l hl)
    · exact Nat.lt_succ_self _

theorem descends_of_goesOn {x y : Handle} (h : x.GoesOn y) : Descends x y := by
  refine ⟨h.id.symm, h.plan.symm, fun idle => ?_, fun rests => ?_⟩
  · rcases h.phase with same | ⟨starting, -⟩ | ⟨resting, -⟩
    · exact same ▸ idle
    · exact .inl starting
    · rcases idle with idle | idle <;> cases resting.symm.trans idle
  · rcases h.phase with same | ⟨-, delayed⟩ | ⟨-, recurs⟩
    · exact .inl (same ▸ rests)
    · cases delayed.symm.trans rests
    · exact .inr recurs

/-- Nothing is launched for a job that has begun. -/
theorem Tick.keeps_single (t : Tick new w v) (sound : w.Sound) (h : w.Single begun)
    (fresh : ∀ id plan, new id plan → ¬ begun id) : v.Single begun := by
  have handles : ∀ z ∈ w.runner.handles, ∃ x ∈ w.runner.handles, Descends x z :=
    fun z hz => ⟨z, hz, .refl z⟩
  have live : ∀ l ∈ w.runner.live, ∃ o ∈ w.runner.live, o.id = l.id ∧ o.handle = l.handle :=
    fun l hl => ⟨l, hl, rfl, rfl⟩
  have none_told : ∀ told : List TaskId, beginnings (told.map fun who => (1, .stopped who)) = [] := by
    intro told
    apply List.filterMap_eq_nil_iff.mpr
    intro c hc
    obtain ⟨_, -, rfl⟩ := List.mem_map.mp hc
    rfl
  cases t with
  | calls n id => exact h.shrink handles live (beginnings_more [(n, .wake id)] rfl) rfl
  | sleeps id => exact h.shrink handles live (.refl _) rfl
  | @rouses pre post call n heq =>
    obtain ⟨id, rfl⟩ := sound.asleep call (heq ▸ List.mem_append_right _ List.mem_cons_self)
    exact h.shrink handles live (beginnings_more [(n, .wake id)] rfl) rfl
  | takes heq _ _ => exact h.shrink handles live (heq ▸ beginnings_rest _ _ _) rfl
  | @launches id plan hn unused =>
    have unborn : ∀ l ∈ w.runner.live, l.handle ≠ id := by
      intro l hl
      obtain ⟨x, hx, hid⟩ := sound.origins l hl
      exact hid ▸ unused x hx
    have cases_mem : ∀ z ∈ w.runner.handles ++ [({ id, plan } : Handle)],
        z ∈ w.runner.handles ∨ z = { id, plan } :=
      fun z hz => (List.mem_append.mp hz).imp_right List.mem_singleton.mp
    refine ⟨?_, ?_, ?_, ?_, h.nodup, h.fresh, h.live⟩
    · intro z hz single phase
      rcases cases_mem z hz with hz | rfl
      · exact h.idle z hz single phase
      · exact ⟨fresh id plan hn, unborn⟩
    · intro z hz phase
      rcases cases_mem z hz with hz | rfl
      · exact h.resting z hz phase
      · cases phase
    · intro l hl hc z hz hid single
      rcases cases_mem z hz with hz | rfl
      · exact h.due l hl hc z hz hid single
      · exact absurd hid.symm (unborn l hl)
    · intro z hz single l hl m hm hlz hmz
      rcases cases_mem z hz with hz | rfl
      · exact h.one z hz single l hl m hm hlz hmz
      · exact absurd hlz (unborn l hl)
  | marks hx _ goes => exact h.shrink (descends_set hx (descends_of_goesOn goes)) live (.refl _) rfl
  | @ends x cancelled waiters told hx alive dismissed =>
    have ends : Descends x { x with phase := .ended cancelled } := by
      refine ⟨rfl, rfl, fun idle => ?_, nofun⟩
      rcases idle with idle | idle <;> cases idle
    exact h.shrink (descends_set hx ends) live (beginnings_more _ (none_told told)) rfl
  | starts hx alive _ idle => exact h.starts hx alive idle
  | @runEnds run wakes waiters told _ =>
    refine h.shrink handles (fun l hl => ?_) (beginnings_more _ ?_) rfl
    · obtain ⟨o, ho, id, handle, -⟩ := mem_markEnded hl
      exact ⟨o, ho, id.symm, handle.symm⟩
    · have none_woken : beginnings (wakes.map fun h => (1, .wake h)) = [] := by
        apply List.filterMap_eq_nil_iff.mpr
        intro c hc
        obtain ⟨_, -, rfl⟩ := List.mem_map.mp hc
        rfl
      have rest := beginnings_append (wakes.map fun h => (1, .wake h)) (told.map fun who => (1, .stopped who))
      rw [none_woken, none_told told] at rest
      exact rest
  | forgetsHandle heq => exact h.shrink handles live (heq ▸ beginnings_rest _ _ _) rfl
  | forgetsRun heq =>
    exact h.shrink handles (fun l hl => live l (List.mem_filter.mp hl).1) (heq ▸ beginnings_rest _ _ _) rfl

theorem Ticks.keep_single (t : Ticks new w v) (sound : w.Sound) (h : w.Single begun)
    (fresh : ∀ id plan, new id plan → ¬ begun id) : v.Single begun := by
  induction t with
  | refl => exact h
  | tail ts t ih => exact t.keeps_single (Ticks.sound ts sound) ih fresh

theorem Shut.single {who : TaskId} {waits : Bool} (shut : Shut who w v waits) (h : w.Single begun) :
    v.Single begun := by
  have handles : ∀ z ∈ w.runner.handles, ∃ x ∈ w.runner.handles, Descends x z :=
    fun z hz => ⟨z, hz, .refl z⟩
  have live : ∀ l ∈ w.runner.live, ∃ o ∈ w.runner.live, o.id = l.id ∧ o.handle = l.handle :=
    fun l hl => ⟨l, hl, rfl, rfl⟩
  cases shut with
  | nothing _ _ => exact h
  | done _ => exact h.shrink handles live (beginnings_more [(1, .stopped who)] rfl) rfl
  | waits _ => exact h.shrink handles live (.refl _) rfl

/-- A run begins: its job had not begun, and it has from then on. -/
theorem Single.begin (h : w.Single begun) {pre post : List (Nat × RunnerCall TaskId)} {n : Nat}
    {l : LiveRun} (heq : w.ready = pre ++ (n, .begin l.id) :: post) (hl : l ∈ w.runner.live) :
    (∀ x ∈ w.runner.handles, x.id = l.handle → x.plan.recurs = false → ¬ begun x.id) ∧
      Single (fun id => begun id ∨ id = l.handle) { w with ready := pre ++ post } := by
  have calls : beginnings w.ready = beginnings pre ++ l.id :: beginnings post := by
    rw [heq, beginnings_append]
    rfl
  have due : l.id ∈ beginnings w.ready := calls ▸ List.mem_append_right _ List.mem_cons_self
  have rest : beginnings (pre ++ post) = beginnings pre ++ beginnings post := beginnings_append _ _
  have nodup := h.nodup
  rw [calls, List.nodup_middle, ← rest] at nodup
  obtain ⟨other, nodup⟩ := List.nodup_cons.mp nodup
  have sub : ∀ run ∈ beginnings (pre ++ post), run ∈ beginnings w.ready :=
    fun run hr => (heq ▸ beginnings_rest pre post _).subset hr
  refine ⟨fun x hx hid single => h.due l hl due x hx hid single, ?_⟩
  refine ⟨?_, h.resting, ?_, h.one, nodup, fun run hr => h.fresh run (sub run hr), h.live⟩
  · intro x hx single phase
    obtain ⟨waits, none⟩ := h.idle x hx single phase
    exact ⟨fun hb => hb.elim waits fun same => none l hl same.symm, none⟩
  · intro m hm hc x hx hid single hb
    rcases hb with hb | same
    · exact h.due m hm (sub _ hc) x hx hid single hb
    · rw [h.one x hx single m hm l hl hid.symm same.symm] at hc
      exact other hc

end Clockwork

def Begun (jobs : List Entrusted) (id : JobId) : Prop := ∃ j ∈ jobs, j.id = id ∧ j.begun = true

/-- Marks that begin no job. -/
theorem begun_map {jobs : List Entrusted} {f : Entrusted → Entrusted} (ids : ∀ j, (f j).id = j.id)
    (same : ∀ j, (f j).begun = j.begun) {id : JobId} (h : Begun (jobs.map f) id) : Begun jobs id := by
  obtain ⟨k, hk, hid, hb⟩ := h
  obtain ⟨j, hj, rfl⟩ := List.mem_map.mp hk
  exact ⟨j, hj, (ids j).symm.trans hid, (same j).symm.trans hb⟩

theorem begun_finishAt {jobs : List Entrusted} {job : Option JobId} {id : JobId}
    (h : Begun (finishAt jobs job) id) : Begun jobs id :=
  begun_map (Entrusted.marks_finishAt job).id (fun j => by split <;> rfl) h

theorem begun_beginAt {jobs : List Entrusted} {id i : JobId} (h : Begun (beginAt jobs id) i) :
    Begun jobs i ∨ i = id := by
  obtain ⟨k, hk, hid, hb⟩ := h
  obtain ⟨j, hj, rfl⟩ := List.mem_map.mp hk
  by_cases same : j.id = id
  · rw [if_pos same] at hid
    exact .inr (hid.symm.trans same)
  · rw [if_neg same] at hid hb
    exact .inl ⟨j, hj, hid, hb⟩

theorem Errands.begun {id : JobId} {ns : List Notice} (h : Errands id ns) {late : Bool}
    {jobs : List Entrusted} {i : JobId} (hi : Begun (ns.foldl (Entrusted.heed late) jobs) i) :
    Begun jobs i := by
  cases h with
  | none => exact hi
  | planned plan job =>
    obtain ⟨j, hj, rest⟩ := hi
    rcases List.mem_cons.mp hj with rfl | hj
    · cases rest.2
    · exact ⟨j, hj, rest⟩
  | cancelled ids =>
    rw [Entrusted.foldl_heed_cancelled] at hi
    exact begun_map (fun j => by split <;> rfl) (fun j => by split <;> rfl) hi

namespace Crowd

open Clockwork (Ticks Single)

variable {c d : Crowd} {t : Task} {cause : Cause}

/-- Runs begin once. -/
def Singular (c : Crowd) : Prop := c.clock.Single (Begun c.jobs)

theorem Singular.ticks (h : c.Singular) (clocked : c.Clocked) (t : Ticks (New c d) c.clock d.clock)
    (begun : ∀ id, Begun d.jobs id → Begun c.jobs id) : d.Singular := by
  refine (t.keep_single clocked.sound h ?_).mono begun
  rintro id plan ⟨-, none⟩ ⟨j, hj, hid, -⟩
  exact none ⟨j, hj, hid⟩

theorem turned_singular (own : c.session.ownsRunner = true) (ho : c.Orderly) (hk : c.Kept)
    (clocked : c.Clocked) (h : c.Singular) (serves : cause.Serves t.operation) :
    (c.turned t cause).Singular := by
  apply h.ticks clocked (turned_ticks own ho hk clocked.known serves)
  intro id hb
  rw [turned_jobs] at hb
  exact (turned_errands ho serves).begun hb

theorem finish_singular (h : c.Singular) (sound : c.clock.Sound) (r : Except Trouble Outcome) :
    (c.finish t r).Singular := by
  have t' := finish_ticks (fun _ _ => False) c t r
  exact (t'.keep_single sound h fun _ _ => False.elim).mono fun id => begun_finishAt

theorem goOn_singular (h : c.Singular) (sound : c.clock.Sound) (r : Except Trouble Next) :
    (c.goOn t r).Singular := by
  cases r with
  | error e => exact finish_singular h sound _
  | ok next =>
    cases next with
    | done o => exact finish_singular h sound _
    | stopRunner =>
      obtain ⟨v, ticks, -, shut⟩ := Clockwork.shutdown_cases (fun _ _ => False) sound t.id
      have single := shut.single (ticks.keep_single sound h fun _ _ => False.elim)
      have sound := shut.sound (ticks.sound sound)
      unfold goOn
      dsimp only
      generalize c.clock.after (c.clock.runner.shutdown t.id none).1 _ = clk at single sound
      split
      · exact single
      · exact finish_singular (c := { c with clock := clk }) single sound _
    | ask x k => exact h
    | pause w => exact h
    | queue k => exact h

theorem advance_singular (own : c.session.ownsRunner = true) (ho : c.Orderly) (hk : c.Kept)
    (clocked : c.Clocked) (h : c.Singular) (serves : cause.Serves t.operation) :
    (c.advance t cause).Singular := by
  have turned := turned_singular own ho hk clocked h serves
  have sound := (turned_ticks own ho hk clocked.known serves).sound clocked.sound
  exact goOn_singular turned sound _

theorem origin?_eq_some {r : Runner TaskId} {run : RunId} {id : HandleId} (h : r.origin? run = some id) :
    ∃ l ∈ r.live, l.id = run ∧ l.handle = id := by
  obtain ⟨l, hl, rfl⟩ := Option.map_eq_some_iff.mp h
  exact ⟨l, List.mem_of_find?_eq_some hl, by simpa using List.find?_some hl, rfl⟩

/-- A run that begins is the first one of its job, unless the job recurs. -/
theorem Singular.began (h : c.Singular) (clocked : c.Clocked) (hk : c.Kept) {i : Nat} {run : RunId}
    {id : JobId} {clock : Clockwork} (ht : c.clock.take? i = some (.begin run, clock))
    (origin : clock.runner.origin? run = some id) :
    (∀ j ∈ c.jobs, j.id = id → j.plan.recurs = false → ¬ Begun c.jobs id) ∧
      clock.Single fun i => Begun c.jobs i ∨ i = id := by
  obtain ⟨pre, n, post, heq, rfl, -⟩ := Clockwork.take?_eq ht
  obtain ⟨l, hl, rfl, rfl⟩ := origin?_eq_some origin
  obtain ⟨unbegun, single⟩ := Clockwork.Single.begin h heq hl
  refine ⟨fun j hj hid once => ?_, single⟩
  obtain ⟨x, hx, hxl⟩ := clocked.sound.origins l hl
  obtain ⟨k, hk', kid, plan⟩ := clocked.known x hx
  cases List.inj_on_of_nodup_map hk.books.ids hj hk' (hid.trans (hxl.symm.trans kid.symm))
  exact hxl ▸ unbegun x hx hxl (plan ▸ once)

theorem begin_singular (own : c.session.ownsRunner = true) (ho : c.Orderly) (hk : c.Kept)
    (clocked : c.Clocked) {id : JobId} (h : c.clock.Single fun i => Begun c.jobs i ∨ i = id)
    (run : Option RunId) : (c.begin id run).Singular := by
  unfold begin
  split
  · exact h.mono fun _ hb => .inl hb
  · have marks := Entrusted.marks_beginAt id
    have begun : Singular { c with jobs := beginAt c.jobs id, nextTask := c.nextTask + 1 } :=
      h.mono fun _ hb => begun_beginAt hb
    have kept : Kept { c with jobs := beginAt c.jobs id, nextTask := c.nextTask + 1 } :=
      ⟨hk.books.begin id, fun m hm => (hk.assigned m hm).grow (marks.grows c.jobs)⟩
    have clocked : Clocked { c with jobs := beginAt c.jobs id, nextTask := c.nextTask + 1 } :=
      clocked.with_marks (fun _ => .refl) rfl marks rfl fun he => he
    exact advance_singular (c := { c with jobs := beginAt c.jobs id, nextTask := c.nextTask + 1 }) own
      (ho.with_jobs (beginAt c.jobs id) c.clock).later kept clocked begun rfl

theorem with_clock_singular (h : c.Singular) (clocked : c.Clocked) {clock : Clockwork}
    (t : ∀ new, Ticks new c.clock clock) : { c with clock }.Singular :=
  h.ticks clocked (t _) fun _ hb => hb

theorem moved_singular (own : c.session.ownsRunner = true) (ho : c.Orderly) (hk : c.Kept)
    (clocked : c.Clocked) (h : c.Singular) (moved : Moved c d) : d.Singular := by
  cases moved with
  | same => exact h
  | asked _ =>
    have later : Clocked { c with nextTask := c.nextTask + 1 } :=
      ⟨clocked.sound, clocked.known, clocked.quiet, clocked.winding, clocked.gone⟩
    exact advance_singular (c := { c with nextTask := c.nextTask + 1 }) own ho.later
      ⟨hk.books, hk.assigned⟩ later h rfl
  | resumed hm hw _ => exact advance_singular own ho hk clocked h (hw.serves (ho.serves hm))
  | @atOnce turn hi =>
    have errands := instant_errands hi ho.swept
    have clock : (c.atOnce turn).clock =
        (turn.exec c.session).2.outbox.foldl Clockwork.heed c.clock :=
      if_pos ((calm_instant hi c.session).ownsRunner.trans own)
    exact h.ticks clocked (errands_ticks hk clocked.known errands rfl clock) fun _ hb => errands.begun hb
  | host _ => exact h
  | ran no _ _ => cases no.symm.trans own
  | @began i run id clock ht origin =>
    obtain ⟨-, single⟩ := h.began clocked hk ht origin
    obtain ⟨pre, n, post, heq, rfl, -⟩ := Clockwork.take?_eq ht
    have taken : Clocked { c with clock := { c.clock with ready := pre ++ post } } :=
      with_clock_clocked clocked fun _ => .single (.takes heq nofun nofun)
    exact begin_singular (c := { c with clock := { c.clock with ready := pre ++ post } }) own
      (ho.with_jobs c.jobs _) (hk.with_clock _) taken single _
  | @stopped i m clock ht _ _ =>
    obtain ⟨pre, n, post, heq, rfl, -⟩ := Clockwork.take?_eq ht
    have ticks : ∀ new, Ticks new c.clock { c.clock with ready := pre ++ post } :=
      fun _ => .single (.takes heq nofun nofun)
    have taken := with_clock_singular h clocked ticks
    exact finish_singular taken ((ticks fun _ _ => False).sound clocked.sound) _
  | ticked ht => exact with_clock_singular h clocked fun _ => Clockwork.ticks_take ht
  | woke i turns => exact with_clock_singular h clocked fun _ => Clockwork.ticks_rouse i turns

theorem Reachable.singular {c : Crowd} (h : c.Reachable) (own : c.session.ownsRunner = true) :
    c.Singular := by
  refine h.induction (P := fun c => c.session.ownsRunner = true → c.Singular) ?_ ?_ own
  · exact fun _ _ _ => Clockwork.single_empty
  · intro c mv hc ih own
    have moved := step_moved c mv
    have owned := (moved_owns hc.orderly moved).symm.trans own
    exact moved_singular owned hc.orderly hc.kept (hc.clocked owned) (ih owned) moved

/-- The follow-ups in the log are those of jobs that were planned and begun, and all turns of one
follow-up are turns of one task. -/
structure Served (c : Crowd) : Prop where
  planned : ∀ e ∈ c.log, ∀ id plan job, .scheduled id plan job ∈ e.after.outbox →
    ∃ j ∈ c.jobs, j.id = id ∧ j.job = job
  begun : ∀ e ∈ c.log, ∀ id toggle, e.operation = .followUp id toggle →
    ∃ j ∈ c.jobs, j.id = id ∧ j.job = .followUp id toggle ∧ j.begun = true
  once : ∀ e ∈ c.log, ∀ f ∈ c.log, ∀ id t u, e.operation = .followUp id t →
    f.operation = .followUp id u → e.task = f.task

theorem Served.grow (h : c.Served) (log : d.log = c.log) (grows : Grows c.jobs d.jobs) : d.Served := by
  refine ⟨fun e he id plan job hm => ?_, fun e he id toggle ho => ?_, fun e he f hf => ?_⟩
  · obtain ⟨j, hj, hid, hjob⟩ := h.planned e (log ▸ he) id plan job hm
    obtain ⟨k, hk, stays⟩ := grows j hj
    exact ⟨k, hk, stays.id.trans hid, stays.job.trans hjob⟩
  · obtain ⟨j, hj, hid, hjob, hb⟩ := h.begun e (log ▸ he) id toggle ho
    obtain ⟨k, hk, stays⟩ := grows j hj
    exact ⟨k, hk, stays.id.trans hid, stays.job.trans hjob, stays.begun hb⟩
  · exact h.once e (log ▸ he) f (log ▸ hf)

/-- A turn that belongs to a follow-up belongs to one that has begun, and to no other task. -/
theorem advance_served (ho : c.Orderly) (h : c.Served) (serves : cause.Serves t.operation)
    (known : ∀ id toggle, t.operation = .followUp id toggle →
      (∃ j ∈ c.jobs, j.id = id ∧ j.job = .followUp id toggle ∧ j.begun = true) ∧
      ∀ f ∈ c.log, ∀ u, f.operation = .followUp id u → f.task = t.id) :
    (c.advance t cause).Served := by
  have errands := turned_errands ho serves
  have grows := turned_grows ho serves
  have served : (c.turned t cause).Served := by
    have cases_mem : ∀ e ∈ (c.turned t cause).log, e = c.entry t cause ∨ e ∈ c.log :=
      fun e he => List.mem_cons.mp he
    refine ⟨fun e he id plan job hm => ?_, fun e he id toggle op => ?_, ?_⟩
    · rcases cases_mem e he with rfl | he
      · have hm : .scheduled id plan job ∈ (c.entry t cause).after.chores := List.mem_filter.mpr ⟨hm, rfl⟩
        obtain ⟨j, hj, hid, -, hjob⟩ := planned_mem errands hm (c.entry t cause).after.disposed c.jobs
        exact ⟨j, turned_jobs c t cause ▸ hj, hid, hjob⟩
      · obtain ⟨j, hj, hid, hjob⟩ := h.planned e he id plan job hm
        obtain ⟨k, hk, stays⟩ := grows j hj
        exact ⟨k, hk, stays.id.trans hid, stays.job.trans hjob⟩
    · have begun : ∃ j ∈ c.jobs, j.id = id ∧ j.job = .followUp id toggle ∧ j.begun = true := by
        rcases cases_mem e he with rfl | he
        · exact (known id toggle op).1
        · exact h.begun e he id toggle op
      obtain ⟨j, hj, hid, hjob, hb⟩ := begun
      obtain ⟨k, hk, stays⟩ := grows j hj
      exact ⟨k, hk, stays.id.trans hid, stays.job.trans hjob, stays.begun hb⟩
    · intro e he f hf id u v eop fop
      rcases cases_mem e he with rfl | he
      · rcases cases_mem f hf with rfl | hf
        · rfl
        · exact ((known id u eop).2 f hf v fop).symm
      · rcases cases_mem f hf with rfl | hf
        · exact (known id v fop).2 e he u eop
        · exact h.once e he f hf id u v eop fop
  change ((c.turned t cause).goOn t (c.entry t cause).result).Served
  rcases goOn_eq (c.turned t cause) t (c.entry t cause).result with ⟨next, clock, -, -, eq⟩ | ⟨out, clock, -, eq⟩
  · rw [eq]
    exact served.grow rfl (.refl _)
  · rw [eq]
    exact served.grow rfl (grows_finishAt _ _)

theorem begin_served (ho : c.Orderly) (hk : c.Kept) (h : c.Served) {id : JobId}
    (unbegun : ∀ j ∈ c.jobs, j.id = id → j.plan.recurs = false → ¬ Begun c.jobs id) (run : Option RunId) :
    (c.begin id run).Served := by
  unfold begin
  split
  · exact h
  · next j hj =>
    obtain ⟨mem, rfl⟩ := job?_eq_some hj
    have marks := Entrusted.marks_beginAt j.id
    have begun : Served { c with jobs := beginAt c.jobs j.id, nextTask := c.nextTask + 1 } :=
      h.grow rfl (marks.grows c.jobs)
    refine advance_served (c := { c with jobs := beginAt c.jobs j.id, nextTask := c.nextTask + 1 })
      (ho.with_jobs (beginAt c.jobs j.id) c.clock).later begun rfl fun id toggle op => ?_
    have job := Job.operation_followUp op
    have followUp : j.isFollowUp = true := by
      unfold Entrusted.isFollowUp
      rw [job]
      rfl
    obtain ⟨once, _, same⟩ := (hk.books.sound j mem).followUp followUp
    cases job.symm.trans same
    refine ⟨⟨_, List.mem_map_of_mem mem, marks.id j, (marks.job j).trans job, ?_⟩, ?_⟩
    · rw [if_pos rfl]
    · intro f hf u fop
      obtain ⟨k, hk', kid, -, hb⟩ := h.begun f hf j.id u fop
      exact absurd ⟨k, hk', kid, hb⟩ (unbegun j mem rfl once)

theorem moved_served (hc : c.Reachable) (h : c.Served) (moved : Moved c d) : d.Served := by
  have ho := hc.orderly
  have hk := hc.kept
  cases moved with
  | same => exact h
  | @asked o offered =>
    refine advance_served (c := { c with nextTask := c.nextTask + 1 }) ho.later
      (h.grow rfl (.refl _)) rfl fun id toggle op => ?_
    have op : o = .followUp id toggle := op
    rw [op] at offered
    cases offered
  | @resumed m cause hm hw _ =>
    apply advance_served ho h (hw.serves (ho.serves hm))
    intro id toggle op
    obtain ⟨e, es, he, life, -⟩ := (ho.alive m hm).2
    obtain ⟨task, operation, -⟩ := life.task e List.mem_cons_self
    have mem : e ∈ c.log := (mem_turns.mp (he ▸ List.mem_cons_self : e ∈ c.turns m.id)).1
    have eop := operation.trans op
    exact ⟨h.begun e mem id toggle eop, fun f hf u fop => (h.once f hf e mem id u toggle fop eop).trans task⟩
  | @atOnce turn hi =>
    exact h.grow rfl (grows_errands (instant_errands hi ho.swept) (turn.exec c.session).2.disposed c.jobs)
  | host _ => exact h.grow rfl (.refl _)
  | @ran j hosted hj may =>
    obtain ⟨mem, -⟩ := job?_eq_some hj
    refine begin_served ho hk h (fun k hk' hid single begun => ?_) none
    obtain ⟨l, hl, lid, hb⟩ := begun
    cases List.inj_on_of_nodup_map hk.books.ids hk' mem hid
    cases List.inj_on_of_nodup_map hk.books.ids hl mem lid
    unfold mayRun at may
    rw [single, hb] at may
    simp at may
  | @began i run id clock ht origin =>
    cases own : c.session.ownsRunner with
    | false => exact absurd ht (hc.clockless own).still
    | true =>
      obtain ⟨unbegun, -⟩ := (hc.singular own).began (hc.clocked own) hk ht origin
      exact begin_served (c := { c with clock }) (ho.with_jobs c.jobs clock) (hk.with_clock clock)
        (h.grow rfl (.refl _)) unbegun _
  | @stopped _ m clock _ _ _ => exact h.grow rfl (grows_finishAt c.jobs m.job)
  | ticked _ => exact h.grow rfl (.refl _)
  | woke _ _ => exact h.grow rfl (.refl _)

theorem served_start (config : Config) (ownsRunner : Bool) : (start config ownsRunner).Served :=
  ⟨List.forall_mem_nil _, List.forall_mem_nil _, List.forall_mem_nil _⟩

theorem Reachable.served {c : Crowd} (h : c.Reachable) : c.Served :=
  h.induction served_start fun c mv hc ih => moved_served hc ih (step_moved c mv)

end Crowd

end BatteryLink
