import BatteryLink.Proofs.Crowd
import Mathlib.Data.List.Nodup
/-!
The lives of tasks. The turns of one task follow from each other, whatever other tasks do in
between.
-/
namespace BatteryLink

open Routine (Cause Next)

/-- A turn that took place as it stands in the log, with nothing left over from the turn before. -/
structure Entry.Sound (e : Entry) : Prop where
  exec : (e.cause.turn e.task).exec e.before = (e.result, e.after)
  swept : e.before.outbox = []

/-- All that a turn in the log can come to. -/
theorem Entry.Sound.effect {e : Entry} (h : e.Sound) :
    Routine.Effect e.task e.before e.cause (e.result, e.after) := by
  have := Routine.turn_effect e.task e.cause e.before
  rwa [h.exec] at this

/-- The turns of a task from its start on, the latest first. -/
inductive Life (t : TaskId) (o : Operation) : List Entry → Prop
  | started {e : Entry} : e.task = t → e.operation = o → e.Sound → e.cause = .started o →
      Life t o [e]
  | resumed {e f : Entry} {es : List Entry} {next : Next} : e.task = t → e.operation = o → e.Sound →
      f.result = .ok next → next.Resumes e.cause → Life t o (f :: es) → Life t o (e :: f :: es)

theorem Life.task {t : TaskId} {o : Operation} {es : List Entry} (h : Life t o es) :
    ∀ e ∈ es, e.task = t ∧ e.operation = o ∧ e.Sound := by
  induction h with
  | started ht ho hs _ => simpa using ⟨ht, ho, hs⟩
  | resumed ht ho hs _ _ _ ih => exact List.forall_mem_cons.mpr ⟨⟨ht, ho, hs⟩, ih⟩

/-- How a task ends whose turn has this result. -/
inductive Ends : Except Trouble Next → Except Trouble Outcome → Prop
  | failed (e : Trouble) : Ends (.error e) (.error e)
  | done (o : Outcome) : Ends (.ok (.done o)) (.ok o)
  | stopped : Ends (.ok .stopRunner) (.ok .nothing)

theorem Ends.of_error {e : Trouble} {out : Except Trouble Outcome} (h : Ends (.error e) out) :
    out = .error e := by
  cases h
  rfl

theorem Ends.of_done {o : Outcome} {out : Except Trouble Outcome} (h : Ends (.ok (.done o)) out) :
    out = .ok o := by
  cases h
  rfl

namespace Crowd

theorem finish_eq (c : Crowd) (t : Task) (r : Except Trouble Outcome) :
    ∃ clock, c.finish t r = { c with
      members := c.others t.id, jobs := Entrusted.finishAt c.jobs t.job, clock
      endings := ⟨t.id, t.operation, r⟩ :: c.endings } :=
  ⟨_, rfl⟩

/-- After its turn a task waits, or it has ended. -/
theorem goOn_eq (c : Crowd) (t : Task) (r : Except Trouble Next) :
    (∃ next clock, r = .ok next ∧ (∀ o, next ≠ .done o) ∧
      c.goOn t r = { c with members := { t with waits := next } :: c.others t.id, clock }) ∨
    ∃ out clock, Ends r out ∧ c.goOn t r = { c with
      members := c.others t.id, jobs := Entrusted.finishAt c.jobs t.job, clock
      endings := ⟨t.id, t.operation, out⟩ :: c.endings } := by
  cases r with
  | error e =>
    obtain ⟨clock, h⟩ := finish_eq c t (.error e)
    exact .inr ⟨_, clock, .failed e, h⟩
  | ok next =>
    cases next with
    | done o =>
      obtain ⟨clock, h⟩ := finish_eq c t (.ok o)
      exact .inr ⟨_, clock, .done o, h⟩
    | stopRunner =>
      unfold goOn
      dsimp only
      split
      · exact .inl ⟨_, _, rfl, nofun, rfl⟩
      · obtain ⟨clock, h⟩ := finish_eq _ t (.ok .nothing)
        exact .inr ⟨_, clock, .stopped, h⟩
    | ask x k => exact .inl ⟨_, _, rfl, nofun, rfl⟩
    | pause w => exact .inl ⟨_, _, rfl, nofun, rfl⟩
    | queue k => exact .inl ⟨_, _, rfl, nofun, rfl⟩

/-- What a turn comes to: the task waits, or it has ended. -/
theorem advance_eq (c : Crowd) (t : Task) (cause : Cause) :
    ∃ e, e.task = t.id ∧ e.operation = t.operation ∧ e.cause = cause ∧ e.before = c.session ∧
      (cause.turn t.id).exec c.session = (e.result, e.after) ∧ ∃ jobs clock,
      ((∃ next, e.result = .ok next ∧ (∀ o, next ≠ .done o) ∧
        c.advance t cause = { c with
          session := { e.after with outbox := [] }, log := e :: c.log, jobs, clock,
          members := { t with waits := next } :: c.others t.id }) ∨
      ∃ out, Ends e.result out ∧
        c.advance t cause = { c with
          session := { e.after with outbox := [] }, log := e :: c.log, jobs, clock,
          members := c.others t.id, endings := ⟨t.id, t.operation, out⟩ :: c.endings }) := by
  refine ⟨c.entry t cause, rfl, rfl, rfl, rfl, rfl, ?_⟩
  unfold advance
  dsimp only
  obtain goes | ends := goOn_eq ({ c with log := c.entry t cause :: c.log }.adopt
    (c.entry t cause).after) t (c.entry t cause).result
  · obtain ⟨next, clock, hr, hn, h⟩ := goes
    exact ⟨_, clock, .inl ⟨next, hr, hn, h⟩⟩
  · obtain ⟨out, clock, hr, h⟩ := ends
    exact ⟨_, clock, .inr ⟨out, hr, h⟩⟩

/-- The turns of a task, the latest first. -/
def turns (c : Crowd) (t : TaskId) : List Entry := c.log.filter (·.task = t)

/-- The log holds the life of a task up to a result of the kind `P`. -/
def Lived (c : Crowd) (t : TaskId) (o : Operation) (P : Except Trouble Next → Prop) : Prop :=
  ∃ e es, c.turns t = e :: es ∧ Life t o (e :: es) ∧ P e.result

/-- Tasks live one life each: those that wait have come to the point where they wait, and those that
have ended do not come back. -/
structure Orderly (c : Crowd) : Prop where
  swept : c.session.outbox = []
  sound : ∀ e ∈ c.log, e.Sound
  fresh : ∀ e ∈ c.log, e.task < c.nextTask
  lives : ∀ t, c.turns t = [] ∨ ∃ o, Life t o (c.turns t)
  nodup : (c.members.map fun m => m.id).Nodup
  alive : ∀ m ∈ c.members, (∀ o, m.waits ≠ .done o) ∧ c.Lived m.id m.operation (· = .ok m.waits)
  ended : ∀ x ∈ c.endings, c.Lived x.task x.operation (Ends · x.result)
  known : ∀ e ∈ c.log, (∃ m ∈ c.members, m.id = e.task ∧ m.operation = e.operation) ∨
    ∃ x ∈ c.endings, x.task = e.task ∧ x.operation = e.operation
  gone : ∀ x ∈ c.endings, ∀ m ∈ c.members, m.id ≠ x.task
  once : (c.endings.map (·.task)).Nodup

theorem Lived.fresh {c : Crowd} {t : TaskId} {o : Operation} {P : Except Trouble Next → Prop}
    (hc : c.Orderly) (h : c.Lived t o P) : t < c.nextTask := by
  obtain ⟨e, es, he, -⟩ := h
  have : e ∈ c.turns t := he ▸ List.mem_cons_self
  obtain ⟨hl, ht⟩ := List.mem_filter.mp this
  exact (of_decide_eq_true ht) ▸ hc.fresh e hl

theorem orderly_start (config : Config) (ownsRunner : Bool) : (start config ownsRunner).Orderly where
  swept := rfl
  sound := List.forall_mem_nil _
  fresh := List.forall_mem_nil _
  lives := fun _ => .inl rfl
  nodup := List.nodup_nil
  alive := List.forall_mem_nil _
  ended := List.forall_mem_nil _
  known := List.forall_mem_nil _
  gone := List.forall_mem_nil _
  once := List.nodup_nil

theorem mem_others {c : Crowd} {t : TaskId} {m : Member} :
    m ∈ c.others t ↔ m ∈ c.members ∧ m.id ≠ t := by
  simp [others]

theorem nodup_others {c : Crowd} (h : (c.members.map fun m => m.id).Nodup) (t : TaskId) :
    ((c.others t).map fun m => m.id).Nodup :=
  h.sublist (List.filter_sublist.map _)

theorem turns_self {c d : Crowd} {e : Entry} (hlog : d.log = e :: c.log) :
    d.turns e.task = e :: c.turns e.task := by
  unfold turns
  rw [hlog, List.filter_cons, if_pos (by simp)]

/-- The turn of one task is no part of the lives of others. -/
theorem turns_other {c d : Crowd} {e : Entry} (hlog : d.log = e :: c.log) {t : TaskId}
    (ht : e.task ≠ t) : d.turns t = c.turns t := by
  unfold turns
  rw [hlog, List.filter_cons, if_neg (by simpa using ht)]

theorem Lived.keep {c d : Crowd} {e : Entry} (hlog : d.log = e :: c.log) {t : TaskId} {o : Operation}
    {P : Except Trouble Next → Prop} (h : c.Lived t o P) (ht : e.task ≠ t) : d.Lived t o P := by
  obtain ⟨f, fs, hf, life, hp⟩ := h
  exact ⟨f, fs, (turns_other hlog ht).trans hf, life, hp⟩

theorem Lived.live {c d : Crowd} {e : Entry} (hlog : d.log = e :: c.log) {t : TaskId} {o : Operation}
    {P : Except Trouble Next → Prop} (ht : e.task = t) (life : Life t o (e :: c.turns t))
    (hp : P e.result) : d.Lived t o P := by
  cases ht
  exact ⟨e, c.turns e.task, turns_self hlog, life, hp⟩

/-- A turn keeps order if it goes on with the life of its task. -/
theorem advance_orderly {c : Crowd} (h : c.Orderly) {t : Task} {cause : Cause}
    (fresh : t.id < c.nextTask) (going : ∀ x ∈ c.endings, x.task ≠ t.id)
    (life : ∀ e : Entry, e.task = t.id → e.operation = t.operation → e.cause = cause → e.Sound →
      Life t.id t.operation (e :: c.turns t.id)) : (c.advance t cause).Orderly := by
  obtain ⟨e, task, operation, hcause, before, exec, jobs, clock, rest⟩ := advance_eq c t cause
  have esound : e.Sound := ⟨by rw [task, hcause, before]; exact exec, by rw [before]; exact h.swept⟩
  have elife := life e task operation hcause esound
  have sound : ∀ f ∈ e :: c.log, f.Sound := List.forall_mem_cons.mpr ⟨esound, h.sound⟩
  have logged : ∀ f ∈ e :: c.log, f.task < c.nextTask :=
    List.forall_mem_cons.mpr ⟨task ▸ fresh, h.fresh⟩
  have lives : ∀ d : Crowd, d.log = e :: c.log → ∀ u, d.turns u = [] ∨ ∃ o, Life u o (d.turns u) := by
    intro d log u
    by_cases hu : e.task = u
    · rw [← hu, turns_self log, task]
      exact .inr ⟨_, elife⟩
    · rw [turns_other log hu]
      exact h.lives u
  -- Turns in the log belong to this task, or to one whose standing has not changed.
  have stands : ∀ f ∈ e :: c.log, (f.task = t.id ∧ f.operation = t.operation) ∨
      f.task ≠ t.id ∧ f ∈ c.log := by
    intro f hf
    by_cases hft : f.task = t.id
    · refine .inl ⟨hft, (elife.task f ?_).2.1⟩
      rcases List.mem_cons.mp hf with rfl | hf
      · exact List.mem_cons_self
      · exact List.mem_cons_of_mem _ (List.mem_filter.mpr ⟨hf, decide_eq_true hft⟩)
    · rcases List.mem_cons.mp hf with rfl | hf
      · exact absurd task hft
      · exact .inr ⟨hft, hf⟩
  have others : ∀ m ∈ c.members, ∀ u, u ≠ t.id → m.id = u → m ∈ c.others t.id :=
    fun m hm u hu hid => mem_others.mpr ⟨hm, hid ▸ hu⟩
  rcases rest with ⟨next, hr, hn, heq⟩ | ⟨out, hr, heq⟩
  · rw [heq]
    refine ⟨rfl, sound, logged, lives _ rfl, ?_, ?_, ?_, ?_, ?_, h.once⟩
    · refine List.nodup_cons.mpr ⟨?_, nodup_others h.nodup t.id⟩
      intro hm
      obtain ⟨m, hm, hid⟩ := List.mem_map.mp hm
      exact (mem_others.mp hm).2 hid
    · refine List.forall_mem_cons.mpr ⟨⟨hn, .live rfl task elife hr⟩, fun m hm => ?_⟩
      obtain ⟨hm, hid⟩ := mem_others.mp hm
      exact ⟨(h.alive m hm).1, (h.alive m hm).2.keep rfl (task ▸ hid.symm)⟩
    · exact fun x hx => (h.ended x hx).keep rfl (task ▸ (going x hx).symm)
    · intro f hf
      rcases stands f hf with ⟨ht, ho⟩ | ⟨ht, hf⟩
      · exact .inl ⟨_, List.mem_cons_self, ht.symm, ho.symm⟩
      · rcases h.known f hf with ⟨m, hm, hid⟩ | ended
        · exact .inl ⟨m, List.mem_cons_of_mem _ (others m hm f.task ht hid.1), hid⟩
        · exact .inr ended
    · refine fun x hx => List.forall_mem_cons.mpr ⟨(going x hx).symm, fun m hm => ?_⟩
      exact h.gone x hx m (mem_others.mp hm).1
  · rw [heq]
    refine ⟨rfl, sound, logged, lives _ rfl, nodup_others h.nodup t.id, ?_, ?_, ?_, ?_, ?_⟩
    · intro m hm
      obtain ⟨hm, hid⟩ := mem_others.mp hm
      exact ⟨(h.alive m hm).1, (h.alive m hm).2.keep rfl (task ▸ hid.symm)⟩
    · refine List.forall_mem_cons.mpr ⟨.live rfl task elife hr, fun x hx => ?_⟩
      exact (h.ended x hx).keep rfl (task ▸ (going x hx).symm)
    · intro f hf
      rcases stands f hf with ⟨ht, ho⟩ | ⟨ht, hf⟩
      · exact .inr ⟨_, List.mem_cons_self, ht.symm, ho.symm⟩
      · rcases h.known f hf with ⟨m, hm, hid⟩ | ⟨x, hx, hid⟩
        · exact .inl ⟨m, others m hm f.task ht hid.1, hid⟩
        · exact .inr ⟨x, List.mem_cons_of_mem _ hx, hid⟩
    · refine List.forall_mem_cons.mpr ⟨fun m hm => (mem_others.mp hm).2, fun x hx m hm => ?_⟩
      exact h.gone x hx m (mem_others.mp hm).1
    · refine List.nodup_cons.mpr ⟨?_, h.once⟩
      intro hx
      obtain ⟨x, hx, hid⟩ := List.mem_map.mp hx
      exact going x hx hid

theorem Orderly.with_jobs {c : Crowd} (h : c.Orderly) (jobs : List Entrusted) (clock : Clockwork) :
    { c with jobs, clock }.Orderly :=
  ⟨h.swept, h.sound, h.fresh, h.lives, h.nodup, h.alive, h.ended, h.known, h.gone, h.once⟩

theorem Orderly.later {c : Crowd} (h : c.Orderly) :
    { c with nextTask := c.nextTask + 1 }.Orderly :=
  ⟨h.swept, h.sound, fun e he => Nat.lt_succ_of_lt (h.fresh e he), h.lives, h.nodup, h.alive,
    h.ended, h.known, h.gone, h.once⟩

theorem spawn_orderly {c : Crowd} (h : c.Orderly) (o : Operation) (job : Option JobId)
    (run : Option RunId) : (c.spawn o job run).Orderly := by
  have none_yet : c.turns c.nextTask = [] :=
    List.filter_eq_nil_iff.mpr fun e he => by simpa using Nat.ne_of_lt (h.fresh e he)
  refine advance_orderly h.later (Nat.lt_succ_self _) ?_ ?_
  · exact fun x hx => Nat.ne_of_lt ((h.ended x hx).fresh h)
  · intro e task operation cause sound
    change Life _ _ (e :: c.turns c.nextTask)
    rw [none_yet]
    exact .started task operation sound cause

theorem resume_orderly {c : Crowd} (h : c.Orderly) {m : Member} {cause : Cause} (hm : m ∈ c.members)
    (hw : m.waits.Resumes cause) : (c.advance m.toTask cause).Orderly := by
  obtain ⟨f, fs, hf, life, hr⟩ := (h.alive m hm).2
  apply advance_orderly h ((h.alive m hm).2.fresh h) (fun x hx => (h.gone x hx m hm).symm)
  intro e task operation hcause sound
  rw [hf]
  exact .resumed task operation sound hr (hcause ▸ hw) life

theorem begin_orderly {c : Crowd} (h : c.Orderly) (id : JobId) (run : Option RunId) :
    (c.begin id run).Orderly := by
  unfold begin
  split
  · exact h
  · exact spawn_orderly (h.with_jobs _ c.clock) _ _ _

theorem finish_orderly {c : Crowd} (h : c.Orderly) {m : Member} (hm : m ∈ c.members)
    (hw : m.waits = .stopRunner) : (c.finish m.toTask (.ok .nothing)).Orderly := by
  obtain ⟨clock, heq⟩ := finish_eq c m.toTask (.ok .nothing)
  obtain ⟨f, fs, hf, life, hr⟩ := (h.alive m hm).2
  have hr : Ends f.result (.ok .nothing) := by rw [hr, hw]; exact .stopped
  rw [heq]
  refine ⟨h.swept, h.sound, h.fresh, h.lives, nodup_others h.nodup m.id, ?_, ?_, ?_, ?_, ?_⟩
  · exact fun n hn => h.alive n (mem_others.mp hn).1
  · exact List.forall_mem_cons.mpr ⟨⟨f, fs, hf, life, hr⟩, h.ended⟩
  · intro e he
    rcases h.known e he with ⟨n, hn, hid⟩ | ⟨x, hx, hid⟩
    · by_cases hnm : n.id = m.id
      · rw [List.inj_on_of_nodup_map h.nodup hn hm hnm] at hid
        exact .inr ⟨_, List.mem_cons_self, hid⟩
      · exact .inl ⟨n, mem_others.mpr ⟨hn, hnm⟩, hid⟩
    · exact .inr ⟨x, List.mem_cons_of_mem _ hx, hid⟩
  · refine List.forall_mem_cons.mpr ⟨fun n hn => (mem_others.mp hn).2, fun x hx n hn => ?_⟩
    exact h.gone x hx n (mem_others.mp hn).1
  · refine List.nodup_cons.mpr ⟨?_, h.once⟩
    intro hx
    obtain ⟨x, hx, hid⟩ := List.mem_map.mp hx
    exact h.gone x hx m hm hid.symm

theorem moved_orderly {c d : Crowd} (h : c.Orderly) (moved : Moved c d) : d.Orderly := by
  cases moved with
  | same => exact h
  | asked _ => exact spawn_orderly h _ _ _
  | resumed hm hw _ => exact resume_orderly h hm hw
  | atOnce _ => exact ⟨rfl, h.sound, h.fresh, h.lives, h.nodup, h.alive, h.ended, h.known, h.gone, h.once⟩
  | host _ => exact ⟨h.swept, h.sound, h.fresh, h.lives, h.nodup, h.alive, h.ended, h.known, h.gone, h.once⟩
  | ran _ _ _ => exact begin_orderly h _ _
  | began _ _ => exact begin_orderly (h.with_jobs c.jobs _) _ _
  | stopped _ hm hw => exact finish_orderly (h.with_jobs c.jobs _) hm hw
  | ticked _ => exact h.with_jobs c.jobs _
  | woke i turns => exact h.with_jobs c.jobs _

theorem Reachable.orderly {c : Crowd} (h : c.Reachable) : c.Orderly :=
  h.induction orderly_start fun c mv _ hc => moved_orderly hc (step_moved c mv)

end Crowd
end BatteryLink
