import BatteryLink.Proofs.Upkeep
/-!
Jobs and their books. The polls that follow orders stand in the books of the session until they are
over, and so does the recurring poll that was planned last; the end of the session cancels what
stands there.
-/
namespace BatteryLink

open Routine (Cause Next Effect Upkeep)

namespace Entrusted

/-- Whether a job may still do something. -/
def live (j : Entrusted) : Bool := !j.cancelled && !j.finished

def isFollowUp (j : Entrusted) : Bool := j.job.isFollowUp

/-- Jobs as sessions plan them. -/
inductive Planned : JobId → Plan → Job → Prop
  | followUp (id : JobId) (delay : Span) (toggle : Option String) :
      Planned id (.after delay) (.followUp id toggle)
  | poll (id : JobId) (rest : Span) : Planned id (.every rest) .poll
  | once (id : JobId) {job : Job} : job.isFollowUp = false → Planned id .once job

theorem Planned.of_followUp {id : JobId} {plan : Plan} {job : Job} (h : Planned id plan job)
    (hf : job.isFollowUp = true) : plan.recurs = false ∧ ∃ toggle, job = .followUp id toggle := by
  cases h with
  | followUp delay toggle => exact ⟨rfl, toggle, rfl⟩
  | poll rest => cases hf
  | once other => exact absurd hf (Bool.eq_false_iff.mp other)

def Sound (j : Entrusted) : Prop := Planned j.id j.plan j.job

theorem Sound.followUp {j : Entrusted} (h : j.Sound) (hf : j.isFollowUp = true) :
    j.plan.recurs = false ∧ ∃ toggle, j.job = .followUp j.id toggle :=
  Planned.of_followUp h hf

theorem Sound.recurs {j : Entrusted} (h : j.Sound) (hr : j.plan.recurs = true) :
    j.isFollowUp = false := by
  rw [Bool.eq_false_iff]
  intro hf
  rw [(h.followUp hf).1] at hr
  cases hr

/-- Marks on a job leave alone what it is. -/
structure Marks (f : Entrusted → Entrusted) : Prop where
  id : ∀ j, (f j).id = j.id
  plan : ∀ j, (f j).plan = j.plan
  job : ∀ j, (f j).job = j.job
  late : ∀ j, (f j).late = j.late
  begun : ∀ j, j.begun = true → (f j).begun = true

/-- Jobs of which some are cancelled. -/
def cancelAt (jobs : List Entrusted) (ids : List JobId) : List Entrusted :=
  jobs.map fun j => if j.id ∈ ids then { j with cancelled := true } else j

theorem cancelAt_eq (jobs : List Entrusted) (ids : List JobId) :
    ∃ f, Marks f ∧ cancelAt jobs ids = jobs.map f ∧
      (∀ j, (f j).cancelled = true ↔ j.cancelled = true ∨ j.id ∈ ids) ∧
      ∀ j, (f j).finished = j.finished := by
  refine ⟨_, ?_, rfl, ?_, ?_⟩
  · constructor <;> intro j <;> split <;> first | rfl | exact fun h => h
  · intro j
    split
    · next hm => simp [hm]
    · next hm => simp [hm]
  · intro j
    split <;> rfl

theorem marks_beginAt (id : JobId) :
    Marks fun j => if j.id = id then { j with begun := true } else j := by
  constructor <;> intro j <;> split <;> first | rfl | exact fun h => h | exact fun _ => rfl

theorem marks_finishAt (job : Option JobId) :
    Marks fun j => if some j.id = job ∧ j.plan.recurs = false then { j with finished := true } else j := by
  constructor <;> intro j <;> split <;> first | rfl | exact fun h => h

theorem foldl_heed_cancelled (late : Bool) (jobs : List Entrusted) (ids : List JobId) :
    (ids.map Notice.cancelled).foldl (heed late) jobs = cancelAt jobs ids := by
  induction ids generalizing jobs with
  | nil => simp [cancelAt]
  | cons id ids ih =>
    rw [List.map_cons, List.foldl_cons, ih]
    unfold heed cancelAt
    rw [List.map_map]
    apply List.map_congr_left
    intro j _
    by_cases h : j.id = id
    · simp [h]
    · simp [h]

/-- A scheduler hears of nothing but chores. -/
theorem foldl_heed_chores (late : Bool) (jobs : List Entrusted) (ns : List Notice) :
    ns.foldl (heed late) jobs = (ns.filter Notice.isChore).foldl (heed late) jobs := by
  rw [List.foldl_filter]
  congr 1
  funext jobs n
  cases n <;> rfl

end Entrusted

open Entrusted (Marks cancelAt finishAt beginAt)

/-- No recurring job has a higher number. -/
def Latest (jobs : List Entrusted) (id : JobId) : Prop :=
  ∀ k ∈ jobs, k.plan.recurs = true → k.id ≤ id

/-- The books of a session fit the jobs that its scheduler has got. -/
structure Session.Books (s : Session) (jobs : List Entrusted) : Prop where
  ids : (jobs.map (·.id)).Nodup
  fresh : ∀ j ∈ jobs, j.id < s.nextJob
  sound : ∀ j ∈ jobs, j.Sound
  nodup : s.pending.Nodup
  pending : ∀ id, id ∈ s.pending ↔ ∃ j ∈ jobs, j.id = id ∧ j.isFollowUp = true ∧ j.live = true
  /-- Follow-ups that are live after the end were planned after it. -/
  late : s.disposed = true → ∀ j ∈ jobs, j.isFollowUp = true → j.live = true → j.late = true
  lateness : ∀ j ∈ jobs, j.late = true → s.disposed = true ∧ j.isFollowUp = true
  pollJob : ∀ id, s.pollJob = some id ↔ s.disposed = false ∧
    ∃ j ∈ jobs, j.id = id ∧ j.plan.recurs = true ∧ Latest jobs id
  recurring : ∀ j ∈ jobs, j.plan.recurs = true → j.finished = false ∧
    (j.cancelled = true ↔ s.disposed = true ∧ Latest jobs j.id)

theorem latest_cons {j : Entrusted} {jobs : List Entrusted} (h : j.plan.recurs = false) (id : JobId) :
    Latest (j :: jobs) id ↔ Latest jobs id := by
  unfold Latest
  rw [List.forall_mem_cons]
  simp [h]

theorem Entrusted.Marks.latest {f : Entrusted → Entrusted} (h : Marks f) (jobs : List Entrusted)
    (id : JobId) : Latest (jobs.map f) id ↔ Latest jobs id := by
  unfold Latest
  rw [List.forall_mem_map]
  simp only [h.id, h.plan]

theorem Entrusted.Marks.isFollowUp {f : Entrusted → Entrusted} (h : Marks f) (j : Entrusted) :
    (f j).isFollowUp = j.isFollowUp := by
  unfold Entrusted.isFollowUp
  rw [h.job]

namespace Session.Books

variable {s u : Session} {jobs : List Entrusted}

theorem start (config : Config) (ownsRunner : Bool) : (Session.start config ownsRunner).Books [] where
  ids := List.nodup_nil
  fresh := List.forall_mem_nil _
  sound := List.forall_mem_nil _
  nodup := List.nodup_nil
  pending := by simp [Session.start]
  late := fun _ => List.forall_mem_nil _
  lateness := List.forall_mem_nil _
  pollJob := by simp [Session.start]
  recurring := List.forall_mem_nil _

theorem keep (h : s.Books jobs) (keeps : s.Keeps u) : u.Books jobs := by
  obtain ⟨hd, pollJob, pending, nextJob⟩ := keeps
  constructor
  · exact h.ids
  · rw [nextJob]
    exact h.fresh
  · exact h.sound
  · rw [pending]
    exact h.nodup
  · rw [pending]
    exact h.pending
  · rw [hd]
    exact h.late
  · rw [hd]
    exact h.lateness
  · rw [pollJob, hd]
    exact h.pollJob
  · rw [hd]
    exact h.recurring

theorem ids_cons (h : s.Books jobs) {j : Entrusted} (hj : j.id = s.nextJob) :
    ((j :: jobs).map (·.id)).Nodup := by
  refine List.nodup_cons.mpr ⟨?_, h.ids⟩
  intro hm
  obtain ⟨k, hk, he⟩ := List.mem_map.mp hm
  exact Nat.ne_of_lt (h.fresh k hk) (he.trans hj)

theorem fresh_cons (h : s.Books jobs) {j : Entrusted} (hj : j.id = s.nextJob)
    (hn : u.nextJob = s.nextJob + 1) : ∀ k ∈ j :: jobs, k.id < u.nextJob := by
  rw [hn]
  refine List.forall_mem_cons.mpr ⟨?_, fun k hk => Nat.lt_succ_of_lt (h.fresh k hk)⟩
  rw [hj]
  exact Nat.lt_succ_self _

theorem notMem_pending (h : s.Books jobs) : s.nextJob ∉ s.pending := by
  intro hm
  obtain ⟨j, hj, he, -⟩ := (h.pending _).mp hm
  exact Nat.ne_of_lt (h.fresh j hj) he

/-- A job that does not recur is no news for the recurring poll. -/
theorem pollJob_cons (h : s.Books jobs) {j : Entrusted} (hj : j.plan.recurs = false)
    (hd : u.disposed = s.disposed) (hp : u.pollJob = s.pollJob) (id : JobId) :
    u.pollJob = some id ↔ u.disposed = false ∧
      ∃ k ∈ j :: jobs, k.id = id ∧ k.plan.recurs = true ∧ Latest (j :: jobs) id := by
  rw [hp, hd, h.pollJob]
  simp [latest_cons hj, hj]

theorem recurring_cons (h : s.Books jobs) {j : Entrusted} (hj : j.plan.recurs = false)
    (hd : u.disposed = s.disposed) :
    ∀ k ∈ j :: jobs, k.plan.recurs = true → k.finished = false ∧
      (k.cancelled = true ↔ u.disposed = true ∧ Latest (j :: jobs) k.id) := by
  refine List.forall_mem_cons.mpr ⟨fun hr => ?_, fun k hk hr => ?_⟩
  · rw [hj] at hr
    cases hr
  · rw [latest_cons hj, hd]
    exact h.recurring k hk hr

theorem followUp (h : s.Books jobs) (hd : u.disposed = s.disposed) (hp : u.pollJob = s.pollJob)
    (pending : u.pending = s.pending ++ [s.nextJob]) (nextJob : u.nextJob = s.nextJob + 1)
    (delay : Span) (toggle : Option String) :
    u.Books ({
      id := s.nextJob
      plan := .after delay
      job := .followUp s.nextJob toggle
      late := u.disposed } :: jobs) := by
  constructor
  · exact h.ids_cons rfl
  · exact h.fresh_cons rfl nextJob
  · exact List.forall_mem_cons.mpr ⟨Entrusted.Planned.followUp _ _ _, h.sound⟩
  · rw [pending]
    refine List.nodup_append.mpr ⟨h.nodup, List.pairwise_singleton _ _, fun x hx y hy => ?_⟩
    rintro rfl
    rw [List.mem_singleton.mp hy] at hx
    exact h.notMem_pending hx
  · intro id
    rw [pending, List.mem_append, h.pending, List.mem_singleton]
    constructor
    · rintro (⟨j, hj, rest⟩ | rfl)
      · exact ⟨j, List.mem_cons_of_mem _ hj, rest⟩
      · exact ⟨_, List.mem_cons_self, rfl, rfl, rfl⟩
    · rintro ⟨j, hj, he, rest⟩
      rcases List.mem_cons.mp hj with rfl | hj
      · exact .inr he.symm
      · exact .inl ⟨j, hj, he, rest⟩
  · exact fun disposed => List.forall_mem_cons.mpr ⟨fun _ _ => disposed, h.late (hd ▸ disposed)⟩
  · refine List.forall_mem_cons.mpr ⟨fun disposed => ⟨disposed, rfl⟩, ?_⟩
    rw [hd]
    exact h.lateness
  · exact h.pollJob_cons rfl hd hp
  · exact h.recurring_cons rfl hd

theorem once (h : s.Books jobs) (hd : u.disposed = s.disposed) (hp : u.pollJob = s.pollJob)
    (pending : u.pending = s.pending) (nextJob : u.nextJob = s.nextJob + 1) {job : Job}
    (other : job.isFollowUp = false) (live : s.disposed = false) :
    u.Books ({ id := s.nextJob, plan := .once, job, late := u.disposed } :: jobs) := by
  have late : u.disposed = false := hd.trans live
  constructor
  · exact h.ids_cons rfl
  · exact h.fresh_cons rfl nextJob
  · exact List.forall_mem_cons.mpr ⟨.once _ other, h.sound⟩
  · rw [pending]
    exact h.nodup
  · intro id
    rw [pending, h.pending]
    simp [Entrusted.isFollowUp, other]
  · intro disposed
    rw [late] at disposed
    cases disposed
  · refine List.forall_mem_cons.mpr ⟨fun disposed => ?_, ?_⟩
    · rw [late] at disposed
      cases disposed
    · rw [hd]
      exact h.lateness
  · exact h.pollJob_cons rfl hd hp
  · exact h.recurring_cons rfl hd

theorem poll (h : s.Books jobs) (hd : u.disposed = s.disposed) (live : s.disposed = false)
    (hp : u.pollJob = some s.nextJob) (pending : u.pending = s.pending)
    (nextJob : u.nextJob = s.nextJob + 1) (rest : Span) :
    u.Books ({ id := s.nextJob, plan := .every rest, job := .poll, late := u.disposed } :: jobs) := by
  have late : u.disposed = false := hd.trans live
  generalize hn : ({ id := s.nextJob, plan := .every rest, job := .poll, late := u.disposed } :
    Entrusted) = n
  have id : n.id = s.nextJob := by rw [← hn]
  have recurs : n.plan.recurs = true := by rw [← hn]; rfl
  have latest : ∀ i, Latest (n :: jobs) i ↔ s.nextJob ≤ i ∧ Latest jobs i := by
    intro i
    unfold Latest
    rw [List.forall_mem_cons, id]
    exact and_congr_left fun _ => ⟨fun h => h recurs, fun h _ => h⟩
  have top : Latest jobs s.nextJob := fun k hk _ => Nat.le_of_lt (h.fresh k hk)
  have finished : n.finished = false := by rw [← hn]
  have cancelled : n.cancelled = false := by rw [← hn]
  have other : n.isFollowUp = false := by rw [← hn]; rfl
  have planned : n.Sound := by rw [← hn]; exact .poll _ _
  have lateness : n.late = false := by rw [← hn]; exact late
  constructor
  · exact h.ids_cons id
  · exact h.fresh_cons id nextJob
  · exact List.forall_mem_cons.mpr ⟨planned, h.sound⟩
  · rw [pending]
    exact h.nodup
  · intro i
    rw [pending, h.pending]
    simp [other]
  · intro disposed
    rw [late] at disposed
    cases disposed
  · refine List.forall_mem_cons.mpr ⟨fun disposed => ?_, ?_⟩
    · rw [lateness] at disposed
      cases disposed
    · rw [hd]
      exact h.lateness
  · intro i
    rw [hp, Option.some_inj]
    constructor
    · rintro rfl
      exact ⟨late, n, List.mem_cons_self, id, recurs, (latest _).mpr ⟨Nat.le_refl _, top⟩⟩
    · rintro ⟨-, j, hj, rfl, -, hl⟩
      rcases List.mem_cons.mp hj with rfl | hj
      · exact id.symm
      · exact absurd (h.fresh j hj) (Nat.not_lt.mpr ((latest _).mp hl).1)
  · refine List.forall_mem_cons.mpr ⟨fun _ => ⟨finished, ?_⟩, fun j hj hr => ?_⟩
    · simp [late, cancelled]
    · refine ⟨(h.recurring j hj hr).1, ?_⟩
      rw [(h.recurring j hj hr).2]
      simp [late, live]

theorem ids_map (h : s.Books jobs) {f : Entrusted → Entrusted} (marks : Marks f) :
    ((jobs.map f).map (·.id)).Nodup := by
  rw [List.map_map]
  have same : (fun j : Entrusted => j.id) ∘ f = fun j => j.id := funext marks.id
  rw [same]
  exact h.ids

theorem fresh_map (h : s.Books jobs) {f : Entrusted → Entrusted} (marks : Marks f)
    (nextJob : u.nextJob = s.nextJob) : ∀ j ∈ jobs.map f, j.id < u.nextJob := by
  rw [List.forall_mem_map, nextJob]
  intro j hj
  rw [marks.id]
  exact h.fresh j hj

theorem sound_map (h : s.Books jobs) {f : Entrusted → Entrusted} (marks : Marks f) :
    ∀ j ∈ jobs.map f, j.Sound := by
  rw [List.forall_mem_map]
  intro j hj
  unfold Entrusted.Sound
  rw [marks.id, marks.plan, marks.job]
  exact h.sound j hj

/-- Marks that keep the books, with the follow-ups crossed out that are over. -/
theorem mark (h : s.Books jobs) {f : Entrusted → Entrusted} (marks : Marks f)
    (hd : u.disposed = s.disposed) (hp : u.pollJob = s.pollJob) (nextJob : u.nextJob = s.nextJob)
    (nodup : u.pending.Nodup)
    (pending : ∀ id, id ∈ u.pending ↔
      ∃ j ∈ jobs, j.id = id ∧ j.isFollowUp = true ∧ (f j).live = true)
    (mono : ∀ j, (f j).live = true → j.live = true)
    (recurring : ∀ j, j.plan.recurs = true → (f j).finished = j.finished ∧ (f j).cancelled = j.cancelled) :
    u.Books (jobs.map f) := by
  constructor
  · exact h.ids_map marks
  · exact h.fresh_map marks nextJob
  · exact h.sound_map marks
  · exact nodup
  · intro id
    rw [pending]
    simp only [List.mem_map, exists_exists_and_eq_and, marks.id, marks.isFollowUp]
  · rw [hd]
    intro disposed
    rw [List.forall_mem_map]
    intro j hj hf hl
    rw [marks.isFollowUp] at hf
    rw [marks.late]
    exact h.late disposed j hj hf (mono j hl)
  · rw [List.forall_mem_map]
    intro j hj
    rw [marks.late, marks.isFollowUp, hd]
    exact h.lateness j hj
  · intro id
    rw [hp, hd, h.pollJob]
    simp only [List.mem_map, exists_exists_and_eq_and, marks.id, marks.plan, marks.latest]
  · rw [List.forall_mem_map]
    intro j hj hr
    rw [marks.plan] at hr
    rw [(recurring j hr).1, (recurring j hr).2, marks.latest, marks.id, hd]
    exact h.recurring j hj hr

theorem begin (h : s.Books jobs) (id : JobId) : s.Books (beginAt jobs id) := by
  have live : ∀ j : Entrusted, (if j.id = id then { j with begun := true } else j).live = j.live := by
    intro j
    split <;> rfl
  refine h.mark (Entrusted.marks_beginAt id) rfl rfl rfl h.nodup ?_ ?_ ?_
  · intro i
    rw [h.pending]
    simp only [live]
  · intro j hl
    rwa [live] at hl
  · intro j _
    split <;> exact ⟨rfl, rfl⟩

theorem live_finish {job : Option JobId} {j : Entrusted}
    (hl : (if some j.id = job ∧ j.plan.recurs = false then { j with finished := true } else j).live = true) :
    j.live = true := by
  split at hl
  · simp [Entrusted.live] at hl
  · exact hl

theorem recurs_finish {job : Option JobId} {j : Entrusted} (hr : j.plan.recurs = true) :
    (if some j.id = job ∧ j.plan.recurs = false then { j with finished := true } else j) = j := by
  rw [if_neg (by simp [hr])]

theorem finish (h : s.Books jobs) {job : Option JobId}
    (other : ∀ j ∈ jobs, some j.id = job → j.isFollowUp = false) : s.Books (finishAt jobs job) := by
  refine h.mark (Entrusted.marks_finishAt job) rfl rfl rfl h.nodup ?_ (fun j => live_finish) ?_
  · intro id
    rw [h.pending]
    constructor
    · rintro ⟨j, hj, he, hf, hl⟩
      have apart : some j.id ≠ job := fun h => absurd hf (Bool.eq_false_iff.mp (other j hj h))
      exact ⟨j, hj, he, hf, by rwa [if_neg fun h => apart h.1]⟩
    · rintro ⟨j, hj, he, hf, hl⟩
      exact ⟨j, hj, he, hf, live_finish hl⟩
  · intro j hr
    rw [recurs_finish hr]
    exact ⟨rfl, rfl⟩

/-- A follow-up ends and is crossed out. -/
theorem settle (h : s.Books jobs) (hd : u.disposed = s.disposed) (hp : u.pollJob = s.pollJob)
    (id : JobId) (pending : u.pending = s.pending.erase id) (nextJob : u.nextJob = s.nextJob) :
    u.Books (finishAt jobs (some id)) := by
  refine h.mark (Entrusted.marks_finishAt (some id)) hd hp nextJob ?_ ?_ (fun j => live_finish) ?_
  · rw [pending]
    exact h.nodup.erase id
  · intro i
    rw [pending, h.nodup.mem_erase_iff, h.pending]
    constructor
    · rintro ⟨hi, j, hj, rfl, hf, hl⟩
      refine ⟨j, hj, rfl, hf, ?_⟩
      rwa [if_neg fun h => hi (Option.some_inj.mp h.1)]
    · rintro ⟨j, hj, rfl, hf, hl⟩
      refine ⟨?_, j, hj, rfl, hf, live_finish hl⟩
      rintro rfl
      rw [if_pos ⟨rfl, ((h.sound j hj).followUp hf).1⟩] at hl
      simp [Entrusted.live] at hl
  · intro j hr
    rw [recurs_finish hr]
    exact ⟨rfl, rfl⟩

theorem mem_upkeep (id : JobId) : id ∈ s.upkeep ↔ s.pollJob = some id ∨ id ∈ s.pending := by
  unfold upkeep
  simp

/-- A recurring job is no follow-up. -/
theorem recurring_notMem (h : s.Books jobs) {j : Entrusted} (hj : j ∈ jobs) (hr : j.plan.recurs = true) :
    j.id ∉ s.pending := by
  intro hp
  obtain ⟨k, hk, he, hf, -⟩ := (h.pending _).mp hp
  rw [List.inj_on_of_nodup_map h.ids hk hj he, (h.sound j hj).recurs hr] at hf
  cases hf

theorem mem_upkeep_recurring (h : s.Books jobs) {j : Entrusted} (hj : j ∈ jobs)
    (hr : j.plan.recurs = true) : j.id ∈ s.upkeep ↔ s.disposed = false ∧ Latest jobs j.id := by
  rw [mem_upkeep, h.pollJob]
  constructor
  · rintro (⟨live, -, -, -, -, latest⟩ | hp)
    · exact ⟨live, latest⟩
    · exact absurd hp (h.recurring_notMem hj hr)
  · rintro ⟨live, latest⟩
    exact .inl ⟨live, j, hj, rfl, hr, latest⟩

theorem nodup_upkeep (h : s.Books jobs) : s.upkeep.Nodup := by
  unfold upkeep
  rw [(List.mergeSort_perm _ _).nodup_iff]
  cases hp : s.pollJob with
  | none => exact h.nodup
  | some id =>
    obtain ⟨-, j, hj, rfl, hr, -⟩ := (h.pollJob id).mp hp
    exact List.nodup_cons.mpr ⟨h.recurring_notMem hj hr, h.nodup⟩

/-- At its end a session cancels what stands in its books. -/
theorem close (h : s.Books jobs) (hd : u.disposed = true) (hp : u.pollJob = none)
    (pending : u.pending = []) (nextJob : u.nextJob = s.nextJob) :
    u.Books (cancelAt jobs s.upkeep) := by
  obtain ⟨f, marks, eq, cancelled, finished⟩ := Entrusted.cancelAt_eq jobs s.upkeep
  rw [eq]
  have dead : ∀ j ∈ jobs, j.isFollowUp = true → (f j).live = false := by
    intro j hj hf
    rw [Bool.eq_false_iff]
    intro hl
    obtain ⟨kept, unfinished⟩ := Bool.and_eq_true_iff.mp hl
    rw [finished] at unfinished
    have stands : ¬ (j.cancelled = true ∨ j.id ∈ s.upkeep) := by
      rw [← cancelled, Bool.not_eq_true]
      simpa using kept
    obtain ⟨uncancelled, away⟩ := not_or.mp stands
    have live : j.live = true := by
      unfold Entrusted.live
      rw [Bool.eq_false_iff.mpr uncancelled, unfinished]
      rfl
    exact away ((mem_upkeep j.id).mpr (.inr ((h.pending j.id).mpr ⟨j, hj, rfl, hf, live⟩)))
  constructor
  · exact h.ids_map marks
  · exact h.fresh_map marks nextJob
  · exact h.sound_map marks
  · rw [pending]
    exact List.nodup_nil
  · intro id
    rw [pending]
    simp only [List.mem_map, exists_exists_and_eq_and, marks.isFollowUp, List.not_mem_nil, false_iff]
    rintro ⟨j, hj, -, hf, hl⟩
    exact Bool.false_ne_true ((dead j hj hf).symm.trans hl)
  · intro _
    rw [List.forall_mem_map]
    intro j hj hf hl
    rw [marks.isFollowUp] at hf
    exact absurd hl (Bool.eq_false_iff.mp (dead j hj hf))
  · rw [List.forall_mem_map]
    intro j hj hl
    rw [marks.late] at hl
    rw [marks.isFollowUp]
    exact ⟨hd, (h.lateness j hj hl).2⟩
  · intro id
    simp [hp, hd]
  · rw [List.forall_mem_map]
    intro j hj hr
    rw [marks.plan] at hr
    obtain ⟨unfinished, hc⟩ := h.recurring j hj hr
    refine ⟨(finished j).trans unfinished, ?_⟩
    rw [cancelled, hc, h.mem_upkeep_recurring hj hr, marks.latest, marks.id, hd]
    cases s.disposed <;> simp

end Session.Books

/-- A job with more marks. -/
structure Entrusted.Stays (j k : Entrusted) : Prop where
  id : k.id = j.id
  plan : k.plan = j.plan
  job : k.job = j.job
  begun : j.begun = true → k.begun = true

theorem Entrusted.Marks.stays {f : Entrusted → Entrusted} (h : Marks f) (j : Entrusted) : j.Stays (f j) :=
  ⟨h.id j, h.plan j, h.job j, h.begun j⟩

/-- Every job is still there. -/
def Grows (jobs more : List Entrusted) : Prop := ∀ j ∈ jobs, ∃ k ∈ more, j.Stays k

theorem Grows.refl (jobs : List Entrusted) : Grows jobs jobs := fun j hj => ⟨j, hj, rfl, rfl, rfl, id⟩

theorem Grows.trans {jobs more most : List Entrusted} (h : Grows jobs more) (k : Grows more most) :
    Grows jobs most := by
  intro j hj
  obtain ⟨l, hl, jl⟩ := h j hj
  obtain ⟨m, hm, lm⟩ := k l hl
  exact ⟨m, hm, lm.id.trans jl.id, lm.plan.trans jl.plan, lm.job.trans jl.job, fun hb => lm.begun (jl.begun hb)⟩

theorem Grows.cons (j : Entrusted) (jobs : List Entrusted) : Grows jobs (j :: jobs) :=
  fun k hk => ⟨k, List.mem_cons_of_mem _ hk, rfl, rfl, rfl, id⟩

theorem Entrusted.Marks.grows {f : Entrusted → Entrusted} (h : Marks f) (jobs : List Entrusted) :
    Grows jobs (jobs.map f) :=
  fun j hj => ⟨f j, List.mem_map_of_mem hj, h.stays j⟩

def Session.entrusts (u : Session) (jobs : List Entrusted) : List Entrusted :=
  u.chores.foldl (Entrusted.heed u.disposed) jobs

theorem grows_cancelAt (jobs : List Entrusted) (ids : List JobId) : Grows jobs (cancelAt jobs ids) := by
  obtain ⟨f, marks, eq, -⟩ := Entrusted.cancelAt_eq jobs ids
  rw [eq]
  exact marks.grows jobs

/-- A turn keeps the books, if its job is crossed out when a follow-up ends. -/
theorem Routine.Upkeep.books {o : Operation} {s u : Session} {r : Except Trouble Next}
    (h : Upkeep o s (r, u)) {jobs : List Entrusted} (books : s.Books jobs) :
    Grows jobs (u.entrusts jobs) ∧
      ((u.Books (u.entrusts jobs) ∧ ((∃ id toggle, o = .followUp id toggle) → Routine.Waits r)) ∨
        ∃ id toggle, o = .followUp id toggle ∧ Routine.Ended r ∧
          u.Books (finishAt (u.entrusts jobs) (some id))) := by
  unfold Session.entrusts
  cases h with
  | same _ keeps chores waits =>
    rw [chores]
    exact ⟨.refl jobs, .inl ⟨books.keep keeps, waits⟩⟩
  | @planned _ _ toggle ho disposed pollJob pending nextJob chores =>
    rw [chores]
    refine ⟨.cons _ jobs, .inl ⟨books.followUp disposed pollJob pending nextJob _ toggle, ?_⟩⟩
    rintro ⟨id, toggle, rfl⟩
    cases ho.1
  | @settled _ _ id toggle ho ended disposed pollJob pending nextJob chores =>
    rw [chores]
    exact ⟨.refl jobs, .inr ⟨id, toggle, ho, ended, books.settle disposed pollJob id pending nextJob⟩⟩
  | polling ho live disposed pollJob pending nextJob chores =>
    rw [chores]
    refine ⟨.cons _ jobs, .inl ⟨books.poll disposed live pollJob pending nextJob _, ?_⟩⟩
    rintro ⟨id, toggle, he⟩
    cases ho.symm.trans he
  | closed ho disposed pollJob pending nextJob chores =>
    rw [chores, Entrusted.foldl_heed_cancelled]
    refine ⟨grows_cancelAt jobs _, .inl ⟨books.close disposed pollJob pending nextJob, ?_⟩⟩
    rintro ⟨id, toggle, he⟩
    cases ho.symm.trans he

/-- The job of a task is one of the jobs, and a task of a follow-up has its job. -/
structure Task.Assigned (t : Task) (jobs : List Entrusted) : Prop where
  followUp : ∀ id toggle, t.operation = .followUp id toggle → t.job = some id
  known : ∀ id, t.job = some id → ∃ j ∈ jobs, j.id = id ∧ j.job.operation = t.operation

theorem Task.Assigned.grow {t : Task} {jobs more : List Entrusted} (h : t.Assigned jobs)
    (grows : Grows jobs more) : t.Assigned more := by
  refine ⟨h.followUp, fun id hid => ?_⟩
  obtain ⟨j, hj, he, ho⟩ := h.known id hid
  obtain ⟨k, hk, stays⟩ := grows j hj
  exact ⟨k, hk, stays.id.trans he, by rw [stays.job]; exact ho⟩

/-- The end of a task that is no follow-up crosses out no follow-up. -/
theorem Task.Assigned.other {t : Task} {s : Session} {jobs : List Entrusted} (h : t.Assigned jobs)
    (books : s.Books jobs) (ho : ∀ id toggle, t.operation ≠ .followUp id toggle) :
    ∀ j ∈ jobs, some j.id = t.job → j.isFollowUp = false := by
  intro j hj hid
  rw [Bool.eq_false_iff]
  intro hf
  obtain ⟨k, hk, he, op⟩ := h.known j.id hid.symm
  cases List.inj_on_of_nodup_map books.ids hk hj he
  obtain ⟨-, toggle, job⟩ := (books.sound j hj).followUp hf
  rw [job] at op
  exact ho _ _ op.symm

theorem Job.operation_followUp {job : Job} {id : JobId} {toggle : Option String}
    (h : job.operation = .followUp id toggle) : job = .followUp id toggle := by
  cases job <;> cases h
  rfl

namespace Crowd

/-- The books fit the jobs, and tasks have the jobs that they were started for. -/
structure Kept (c : Crowd) : Prop where
  books : c.session.Books c.jobs
  assigned : ∀ m ∈ c.members, m.toTask.Assigned c.jobs

/-- The jobs and the members after a turn. -/
theorem advance_jobs (c : Crowd) (t : Task) (cause : Cause) :
    ∃ r u, (cause.turn t.id).exec c.session = (r, u) ∧
      (c.advance t cause).session = { u with outbox := [] } ∧
      (((c.advance t cause).jobs = u.entrusts c.jobs ∧ Routine.Waits r ∧
        ∀ m ∈ (c.advance t cause).members, m.toTask = t ∨ m ∈ c.members) ∨
      ((c.advance t cause).jobs = finishAt (u.entrusts c.jobs) t.job ∧
        (Routine.Ended r ∨ r = .ok .stopRunner) ∧
        ∀ m ∈ (c.advance t cause).members, m ∈ c.members)) := by
  refine ⟨(c.entry t cause).result, (c.entry t cause).after, rfl, ?_⟩
  generalize hd : { c with log := c.entry t cause :: c.log }.adopt (c.entry t cause).after = d
  have jobs : d.jobs = (c.entry t cause).after.entrusts c.jobs := by
    rw [← hd]
    exact Entrusted.foldl_heed_chores _ _ _
  have session : d.session = { (c.entry t cause).after with outbox := [] } := by
    rw [← hd]
    rfl
  have members : d.members = c.members := by
    rw [← hd]
    rfl
  have advance : c.advance t cause = d.goOn t (c.entry t cause).result := by
    rw [← hd]
    rfl
  rw [advance, ← jobs, ← session]
  rcases goOn_eq d t (c.entry t cause).result with ⟨next, clock, hr, hn, h⟩ | ⟨out, clock, hr, h⟩
  · rw [h]
    refine ⟨rfl, .inl ⟨rfl, ⟨next, hr, hn⟩, fun m hm => ?_⟩⟩
    rcases List.mem_cons.mp hm with rfl | hm
    · exact .inl rfl
    · exact .inr (members ▸ (mem_others.mp hm).1)
  · rw [h]
    refine ⟨rfl, .inr ⟨rfl, ?_, fun m hm => members ▸ (mem_others.mp hm).1⟩⟩
    generalize (c.entry t cause).result = r at hr
    cases hr with
    | failed e => exact .inl (Routine.ended_error e)
    | done o =>
      refine .inl fun next hn => ?_
      cases hn
      exact ⟨o, rfl⟩
    | stopped => exact .inr rfl

theorem kept_start (config : Config) (ownsRunner : Bool) : (start config ownsRunner).Kept where
  books := Session.Books.start config ownsRunner
  assigned := List.forall_mem_nil _

theorem grows_finishAt (jobs : List Entrusted) (job : Option JobId) : Grows jobs (finishAt jobs job) :=
  (Entrusted.marks_finishAt job).grows jobs

theorem books_swept {u : Session} {jobs : List Entrusted} (h : u.Books jobs) :
    { u with outbox := [] }.Books jobs :=
  h.keep ⟨rfl, rfl, rfl, rfl⟩

theorem advance_kept {c : Crowd} (h : c.Kept) (swept : c.session.outbox = []) {t : Task}
    {cause : Cause} (assigned : t.Assigned c.jobs) (serves : cause.Serves t.operation) :
    (c.advance t cause).Kept := by
  obtain ⟨r, u, exec, session, rest⟩ := advance_jobs c t cause
  have effect := Routine.turn_effect t.id cause c.session
  rw [exec] at effect
  obtain ⟨grows, kept⟩ := (effect.upkeep swept serves).books h.books
  rcases rest with ⟨jobs, waits, members⟩ | ⟨jobs, ends, members⟩
  · refine ⟨?_, ?_⟩
    · rw [session, jobs]
      rcases kept with ⟨books, -⟩ | ⟨id, toggle, -, ended, -⟩
      · exact books_swept books
      · obtain ⟨next, hr, hn⟩ := waits
        obtain ⟨o, ho⟩ := ended next hr
        exact absurd ho (hn o)
    · rw [jobs]
      intro m hm
      rcases members m hm with same | old
      · rw [same]
        exact assigned.grow grows
      · exact (h.assigned m old).grow grows
  · have more := grows.trans (grows_finishAt (u.entrusts c.jobs) t.job)
    refine ⟨?_, ?_⟩
    · rw [session, jobs]
      apply books_swept
      rcases kept with ⟨books, waits⟩ | ⟨id, toggle, ho, -, books⟩
      · refine books.finish ((assigned.grow grows).other books ?_)
        intro id toggle ho
        obtain ⟨next, hr, hn⟩ := waits ⟨id, toggle, ho⟩
        rcases ends with ended | stop
        · obtain ⟨o, hd⟩ := ended next hr
          exact hn o hd
        · have serves := (effect.course serves _ stop).1
          rw [ho] at serves
          cases serves
      · rw [assigned.followUp id toggle ho]
        exact books
    · rw [jobs]
      intro m hm
      exact (h.assigned m (members m hm)).grow more

theorem Kept.with_clock {c : Crowd} (h : c.Kept) (clock : Clockwork) : { c with clock }.Kept :=
  ⟨h.books, h.assigned⟩

theorem spawn_kept {c : Crowd} (h : c.Kept) (swept : c.session.outbox = []) {o : Operation}
    {job : Option JobId} {run : Option RunId} (assigned : Task.Assigned ⟨c.nextTask, o, job, run⟩ c.jobs) :
    (c.spawn o job run).Kept := by
  have later : Kept { c with nextTask := c.nextTask + 1 } := ⟨h.books, h.assigned⟩
  exact advance_kept later swept assigned rfl

/-- The task that begins a job has that job. -/
theorem Kept.begins {c : Crowd} (h : c.Kept) {j : Entrusted} (hj : c.job? j.id = some j) (t : TaskId)
    (run : Option RunId) : { c with jobs := beginAt c.jobs j.id }.Kept ∧
      Task.Assigned ⟨t, j.job.operation, some j.id, run⟩ (beginAt c.jobs j.id) := by
  obtain ⟨mem, -⟩ := job?_eq_some hj
  have grows := (Entrusted.marks_beginAt j.id).grows c.jobs
  refine ⟨⟨h.books.begin j.id, fun m hm => (h.assigned m hm).grow grows⟩, fun id toggle ho => ?_,
    fun id hid => ?_⟩
  · have job := Job.operation_followUp ho
    have followUp : j.isFollowUp = true := by
      unfold Entrusted.isFollowUp
      rw [job]
      rfl
    obtain ⟨-, _, same⟩ := (h.books.sound j mem).followUp followUp
    cases job.symm.trans same
    rfl
  · cases hid
    obtain ⟨k, hk, stays⟩ := grows j mem
    exact ⟨k, hk, stays.id, by rw [stays.job]⟩

theorem begin_kept {c : Crowd} (h : c.Kept) (swept : c.session.outbox = []) (id : JobId)
    (run : Option RunId) : (c.begin id run).Kept := by
  unfold begin
  split
  · exact h
  · next j hj =>
    obtain ⟨-, rfl⟩ := job?_eq_some hj
    obtain ⟨begun, assigned⟩ := h.begins hj c.nextTask run
    exact spawn_kept begun swept assigned

/-- An act that takes no time adds a job to the books. -/
theorem atOnce_kept {c : Crowd} (h : c.Kept) (swept : c.session.outbox = []) {turn : Turn Bool}
    (hi : Instant turn) : (c.atOnce turn).Kept := by
  obtain ⟨job, other, hu⟩ := exec_instant hi c.session
  have same : (c.atOnce turn).session = { (turn.exec c.session).2 with outbox := [] } := rfl
  have jobs : (c.atOnce turn).jobs = (turn.exec c.session).2.entrusts c.jobs :=
    Entrusted.foldl_heed_chores _ _ _
  have members : (c.atOnce turn).members = c.members := rfl
  rw [hu] at same jobs
  cases hd : c.session.disposed with
  | true =>
    rw [hd, if_pos rfl] at same jobs
    have none : c.session.chores = [] := by simp [Session.chores, swept]
    unfold Session.entrusts at jobs
    rw [none] at jobs
    refine ⟨?_, ?_⟩
    · rw [same, jobs]
      exact books_swept h.books
    · rw [members, jobs]
      exact h.assigned
  | false =>
    rw [hd, if_neg Bool.false_ne_true] at same jobs
    have chores : (c.session.entrusted .once fun _ => job).chores =
        [.scheduled c.session.nextJob .once job] := by
      simp [Session.chores, Session.entrusted, Session.emit, swept, Notice.isChore]
    unfold Session.entrusts at jobs
    rw [chores] at jobs
    refine ⟨?_, ?_⟩
    · have books := h.books.once (u := c.session.entrusted .once fun _ => job) rfl rfl rfl rfl other hd
      rw [same, jobs]
      exact books_swept books
    · rw [members, jobs]
      exact fun m hm => (h.assigned m hm).grow (.cons _ _)

/-- The end of the runner ends a disposal. -/
theorem stopped_kept {c : Crowd} (h : c.Kept) {m : Member} (hm : m ∈ c.members)
    (ho : m.operation = .dispose) : (c.finish m.toTask (.ok .nothing)).Kept := by
  obtain ⟨clock, heq⟩ := finish_eq c m.toTask (.ok .nothing)
  rw [heq]
  refine ⟨h.books.finish ((h.assigned m hm).other h.books ?_), fun n hn => ?_⟩
  · rw [ho]
    nofun
  · exact (h.assigned n (mem_others.mp hn).1).grow (grows_finishAt _ _)

theorem moved_kept {c d : Crowd} (ho : c.Orderly) (h : c.Kept) (moved : Moved c d) : d.Kept := by
  cases moved with
  | same => exact h
  | @asked o offered =>
    refine spawn_kept h ho.swept ⟨fun id toggle op => ?_, nofun⟩
    have op : o = .followUp id toggle := op
    rw [op] at offered
    cases offered
  | resumed hm hw _ => exact advance_kept h ho.swept (h.assigned _ hm) (hw.serves (ho.serves hm))
  | atOnce hi => exact atOnce_kept h ho.swept hi
  | host _ => exact ⟨h.books.keep ⟨rfl, rfl, rfl, rfl⟩, h.assigned⟩
  | ran _ _ _ => exact begin_kept h ho.swept _ _
  | @began _ _ _ clock _ _ => exact begin_kept (h.with_clock clock) ho.swept _ _
  | @stopped _ m clock _ hm hw =>
    have serves := ho.serves hm
    rw [hw] at serves
    exact stopped_kept (h.with_clock clock) hm serves
  | ticked _ => exact h.with_clock _
  | woke i turns => exact h.with_clock _

theorem Reachable.kept {c : Crowd} (h : c.Reachable) : c.Kept :=
  h.induction kept_start fun c mv hr hc => moved_kept hr.orderly hc (step_moved c mv)

end Crowd
end BatteryLink
