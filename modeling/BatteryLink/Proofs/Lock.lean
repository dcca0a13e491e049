import BatteryLink.Proofs.Frame
import Mathlib.Logic.Function.Basic
/-!
The lock of a session. It is held by a task that goes on or has only to be told that it may, and
all others that want it stand in its queue.
-/
namespace BatteryLink

open Routine (Cause Next Effect)

/-- What a task waits for that has the lock or wants it. -/
def Routine.Next.Locking : Next → Prop
  | .ask _ (.order _) | .pause _ | .queue _ => True
  | _ => False

theorem Routine.Next.Writes.locking {next : Next} (h : next.Writes) : next.Locking := by
  cases next with
  | ask x k => cases k <;> exact h
  | pause w => trivial
  | queue k => trivial
  | stopRunner => exact h
  | done o => exact h

/-- Turns of tasks that have the lock. -/
def Routine.Cause.Holding : Cause → Prop
  | .answered _ (.order _) _ | .rested _ | .granted _ => True
  | _ => False

theorem Routine.Next.Resumes.holding {next : Next} {c : Cause} (h : next.Resumes c) :
    c.Holding ↔ next.Locking := by
  cases next with
  | ask x k =>
    cases c with
    | answered now l a =>
      cases h
      cases k <;> exact Iff.rfl
    | started o => exact h.elim
    | rested w => exact h.elim
    | granted l => exact h.elim
  | pause w => cases c <;> first | exact Iff.rfl | exact h.elim
  | queue k => cases c <;> first | exact Iff.rfl | exact h.elim
  | stopRunner => exact h.elim
  | done o => exact h.elim

namespace Lock

def passed (l : Lock) : Lock :=
  match l.queue with
  | [] => {}
  | task :: queue => ⟨some task, queue⟩

/-- A lock that fits what the tasks wait for. -/
structure Fits (l : Lock) (waits : TaskId → Option Next) : Prop where
  holder : ∀ t, l.holder = some t → ∃ next, waits t = some next ∧ next.Locking
  queue : ∀ t ∈ l.queue, ∃ k, waits t = some (.queue k)
  locking : ∀ t next, waits t = some next → next.Locking → l.holder = some t ∨ t ∈ l.queue
  writes : ∀ t next, waits t = some next → next.Writes → l.holder = some t
  idle : l.holder = none → l.queue = []
  nodup : l.queue.Nodup
  apart : ∀ t ∈ l.queue, l.holder ≠ some t

theorem fits_free : ({} : Lock).Fits fun _ => none where
  holder := by
    intro t h
    cases h
  queue := List.forall_mem_nil _
  locking := by
    intro t next h
    cases h
  writes := by
    intro t next h
    cases h
  idle := fun _ => rfl
  nodup := List.nodup_nil
  apart := List.forall_mem_nil _

variable {l : Lock} {waits : TaskId → Option Next} {self : TaskId}

/-- A task that neither has nor wants the lock waits for something else, or ends. -/
theorem Fits.bystander (h : l.Fits waits) (hs : ∀ next, waits self = some next → ¬ next.Locking)
    {v : Option Next} (hv : ∀ next, v = some next → ¬ next.Locking) :
    l.Fits (Function.update waits self v) := by
  have holder : ∀ t, l.holder = some t → t ≠ self := by
    rintro t ht rfl
    obtain ⟨next, hn, hl⟩ := h.holder t ht
    exact hs next hn hl
  have queue : ∀ t ∈ l.queue, t ≠ self := by
    rintro t ht rfl
    obtain ⟨k, hk⟩ := h.queue t ht
    exact hs _ hk trivial
  refine ⟨?_, ?_, ?_, ?_, h.idle, h.nodup, h.apart⟩
  · intro t ht
    rw [Function.update_of_ne (holder t ht)]
    exact h.holder t ht
  · intro t ht
    rw [Function.update_of_ne (queue t ht)]
    exact h.queue t ht
  · intro t next hn hl
    by_cases ht : t = self
    · subst ht
      rw [Function.update_self] at hn
      exact absurd hl (hv next hn)
    · rw [Function.update_of_ne ht] at hn
      exact h.locking t next hn hl
  · intro t next hn hw
    by_cases ht : t = self
    · subst ht
      rw [Function.update_self] at hn
      exact absurd hw.locking (hv next hn)
    · rw [Function.update_of_ne ht] at hn
      exact h.writes t next hn hw

theorem Fits.keep (h : l.Fits waits) (hs : l.holder = some self) {next : Next} (hn : next.Writes) :
    l.Fits (Function.update waits self (some next)) := by
  have queue : ∀ t ∈ l.queue, t ≠ self := by
    rintro t ht rfl
    exact h.apart t ht hs
  refine ⟨?_, ?_, ?_, ?_, h.idle, h.nodup, h.apart⟩
  · intro t ht
    cases hs.symm.trans ht
    exact ⟨next, Function.update_self .., hn.locking⟩
  · intro t ht
    rw [Function.update_of_ne (queue t ht)]
    exact h.queue t ht
  · intro t m hm hl
    by_cases ht : t = self
    · exact .inl (ht ▸ hs)
    · rw [Function.update_of_ne ht] at hm
      exact h.locking t m hm hl
  · intro t m hm hw
    by_cases ht : t = self
    · exact ht ▸ hs
    · rw [Function.update_of_ne ht] at hm
      exact h.writes t m hm hw

theorem Fits.enqueue (h : l.Fits waits) {holder : TaskId} (hl : l.holder = some holder)
    (hs : ∀ next, waits self = some next → ¬ next.Locking) (k : Order.Kind) :
    { l with queue := l.queue ++ [self] }.Fits (Function.update waits self (some (.queue k))) := by
  have other : ∀ t ∈ l.queue, t ≠ self := by
    rintro t ht rfl
    obtain ⟨k, hk⟩ := h.queue t ht
    exact hs _ hk trivial
  have apart : ∀ t, l.holder = some t → t ≠ self := by
    rintro t ht rfl
    obtain ⟨next, hn, hl⟩ := h.holder t ht
    exact hs next hn hl
  refine ⟨?_, ?_, ?_, ?_, ?_, ?_, ?_⟩
  · intro t ht
    rw [Function.update_of_ne (apart t ht)]
    exact h.holder t ht
  · intro t ht
    rcases List.mem_append.mp ht with ht | ht
    · rw [Function.update_of_ne (other t ht)]
      exact h.queue t ht
    · cases List.mem_singleton.mp ht
      exact ⟨k, Function.update_self ..⟩
  · intro t next hn hl
    by_cases ht : t = self
    · exact .inr (List.mem_append_right _ (List.mem_singleton.mpr ht))
    · rw [Function.update_of_ne ht] at hn
      exact (h.locking t next hn hl).imp_right (List.mem_append_left _)
  · intro t next hn hw
    by_cases ht : t = self
    · subst ht
      rw [Function.update_self] at hn
      cases hn
      exact hw.elim
    · rw [Function.update_of_ne ht] at hn
      exact h.writes t next hn hw
  · intro none
    cases hl.symm.trans none
  · exact List.nodup_append.mpr ⟨h.nodup, List.pairwise_singleton _ _, fun t ht u hu => by
      cases List.mem_singleton.mp hu
      exact other t ht⟩
  · intro t ht hh
    rcases List.mem_append.mp ht with ht | ht
    · exact h.apart t ht hh
    · cases List.mem_singleton.mp ht
      exact apart _ hh rfl

/-- The lock is passed on at the end of the task that had it. -/
theorem Fits.pass (h : l.Fits waits) (hs : l.holder = some self) {v : Option Next}
    (hv : ∀ next, v = some next → ¬ next.Locking) :
    l.passed.Fits (Function.update waits self v) := by
  have queue : ∀ t ∈ l.queue, t ≠ self := by
    rintro t ht rfl
    exact h.apart t ht hs
  have queued : ∀ t next, t ≠ self → waits t = some next → next.Locking → t ∈ l.queue := by
    intro t next ht hn hl
    refine (h.locking t next hn hl).resolve_left fun hh => ht ?_
    cases hs.symm.trans hh
    rfl
  have idle : ∀ t next, t ≠ self → waits t = some next → ¬ next.Writes := by
    intro t next ht hn hw
    cases hs.symm.trans (h.writes t next hn hw)
    exact ht rfl
  unfold passed
  cases hq : l.queue with
  | nil =>
    refine ⟨nofun, nofun, ?_, ?_, fun _ => rfl, List.nodup_nil, nofun⟩
    · intro t next hn hl
      by_cases ht : t = self
      · subst ht
        rw [Function.update_self] at hn
        exact absurd hl (hv next hn)
      · rw [Function.update_of_ne ht] at hn
        have := queued t next ht hn hl
        rw [hq] at this
        cases this
    · intro t next hn hw
      by_cases ht : t = self
      · subst ht
        rw [Function.update_self] at hn
        exact absurd hw.locking (hv next hn)
      · rw [Function.update_of_ne ht] at hn
        exact absurd hw (idle t next ht hn)
  | cons u rest =>
    rw [hq] at queue queued
    have nodup := hq ▸ h.nodup
    obtain ⟨first, nodup⟩ := List.nodup_cons.mp nodup
    have waiting : ∀ t ∈ u :: rest, ∃ k, waits t = some (.queue k) := hq ▸ h.queue
    refine ⟨?_, ?_, ?_, ?_, nofun, nodup, ?_⟩
    · intro t ht
      cases ht
      rw [Function.update_of_ne (queue u List.mem_cons_self)]
      obtain ⟨k, hk⟩ := waiting u List.mem_cons_self
      exact ⟨_, hk, trivial⟩
    · intro t ht
      rw [Function.update_of_ne (queue t (List.mem_cons_of_mem _ ht))]
      exact waiting t (List.mem_cons_of_mem _ ht)
    · intro t next hn hl
      by_cases ht : t = self
      · subst ht
        rw [Function.update_self] at hn
        exact absurd hl (hv next hn)
      · rw [Function.update_of_ne ht] at hn
        rcases List.mem_cons.mp (queued t next ht hn hl) with rfl | hr
        · exact .inl rfl
        · exact .inr hr
    · intro t next hn hw
      by_cases ht : t = self
      · subst ht
        rw [Function.update_self] at hn
        exact absurd hw.locking (hv next hn)
      · rw [Function.update_of_ne ht] at hn
        exact absurd hw (idle t next ht hn)
    · rintro t ht ⟨⟩
      exact first ht

theorem Fits.take (h : l.Fits waits) (hl : l.holder = none) {next : Next} (hn : next.Locking) :
    { l with holder := some self }.Fits (Function.update waits self (some next)) := by
  have queue := h.idle hl
  have none_locking : ∀ t next, waits t = some next → ¬ next.Locking := by
    intro t next hn hlock
    rcases h.locking t next hn hlock with hh | hh
    · cases hl.symm.trans hh
    · rw [queue] at hh
      cases hh
  refine ⟨?_, ?_, ?_, ?_, nofun, ?_, ?_⟩
  · rintro t ⟨⟩
    exact ⟨next, Function.update_self .., hn⟩
  · intro t ht
    rw [queue] at ht
    cases ht
  · intro t m hm hlock
    by_cases ht : t = self
    · exact .inl (ht ▸ rfl)
    · rw [Function.update_of_ne ht] at hm
      exact absurd hlock (none_locking t m hm)
  · intro t m hm hw
    by_cases ht : t = self
    · exact ht ▸ rfl
    · rw [Function.update_of_ne ht] at hm
      exact absurd hw.locking (none_locking t m hm)
  · rw [queue]
    exact List.nodup_nil
  · intro t ht
    rw [queue] at ht
    cases ht

end Lock

namespace Session

theorem released_lock (s : Session) : s.released.lock = s.lock.passed := by
  unfold released Lock.passed
  cases s.lock.queue <;> rfl

theorem concluded_lock (s : Session) (t : Tally) (toggle : Option String) :
    (s.concluded t toggle).lock = s.lock := by
  obtain ⟨_, _, _, h⟩ := s.concluded_eq t toggle
  rw [h]

end Session

namespace Routine

variable {self : TaskId} {s : Session} {p : Except Trouble Next × Session}

/-- A result after which a task has nothing to do with the lock. -/
def Apart (r : Except Trouble Next) : Prop := ∀ next, r = .ok next → ¬ next.Locking

theorem apart_error (e : Trouble) : Apart (.error e) := by
  intro next h
  cases h

theorem apart_done (o : Outcome) : Apart (.ok (.done o)) := by
  rintro next ⟨⟩
  exact id

/-- The task that has the lock goes on with it, or passes it on. -/
theorem Held.lock {toggle : Option String} {n : Nat} {asks runs : Prop} {cut : Trouble → Prop}
    (h : Held toggle n asks runs cut s p) :
    (∃ next, p.1 = .ok next ∧ next.Writes ∧ p.2.lock = s.lock) ∨
      Apart p.1 ∧ p.2.lock = s.lock.passed := by
  have released : ∀ t, (s.concluded t toggle).released.lock = s.lock.passed := by
    intro t
    rw [Session.released_lock, Session.concluded_lock]
  cases h with
  | goes _ h =>
    cases h with
    | asked _ _ _ => exact .inl ⟨_, rfl, trivial, rfl⟩
    | paused _ _ => exact .inl ⟨_, rfl, trivial, rfl⟩
    | ended t => exact .inr ⟨apart_done _, released t⟩
    | unheard t _ _ => exact .inr ⟨apart_error _, released t⟩
  | dropped _ => exact .inr ⟨apart_done _, s.released_lock⟩
  | interrupted _ => exact .inr ⟨apart_error _, s.released_lock⟩

theorem Begun.lock {o : Operation} (h : Begun self o s p) :
    (∃ k, Ordered self k s p) ∨ Apart p.1 ∧ p.2.lock = s.lock := by
  cases h with
  | idle h =>
    rcases h with rfl | ⟨f, rfl⟩
    · exact .inr ⟨apart_done _, rfl⟩
    · exact .inr ⟨apart_error _, rfl⟩
  | wrote _ => exact .inr ⟨apart_done _, rfl⟩
  | ordered _ _ h => exact .inl ⟨_, h⟩
  | @turnedDown toggle =>
    obtain ⟨_, h⟩ := s.offered_eq toggle
    exact .inr ⟨apart_done _, by rw [h]⟩
  | @unheard toggle e _ =>
    obtain ⟨_, h⟩ := s.offered_eq toggle
    exact .inr ⟨apart_error _, by rw [h]⟩

theorem Polled.lock {purpose : Purpose} {n : Nat} {cut : Trouble → Prop}
    (h : Polled purpose n cut s p) : Apart p.1 ∧ p.2.lock = s.lock := by
  have settled : ∀ u, Poll.Path s u → (u.settled purpose).lock = s.lock := by
    intro u path
    obtain ⟨_, _, h⟩ := u.settled_eq purpose
    obtain ⟨_, _, _, _, _, rfl⟩ := path.spares
    rw [h]
  cases h with
  | asked _ _ path =>
    obtain ⟨_, _, _, _, _, rfl⟩ := path.spares
    refine ⟨?_, rfl⟩
    rintro next ⟨⟩
    exact id
  | ended _ path => exact ⟨apart_done _, settled _ path⟩
  | failed _ path => exact ⟨apart_error _, settled _ path⟩

/-- A turn of a task that neither has nor wants the lock leaves it alone. -/
theorem Effect.lock {c : Cause} (h : Effect self s c p) :
    (c.Holding ∧ ((∃ next, p.1 = .ok next ∧ next.Writes ∧ p.2.lock = s.lock) ∨
        Apart p.1 ∧ p.2.lock = s.lock.passed)) ∨
      ¬ c.Holding ∧ ((∃ o, c = .started o) ∧ (∃ k, Ordered self k s p) ∨
        Apart p.1 ∧ p.2.lock = s.lock) := by
  cases h with
  | started h =>
    refine .inr ⟨id, ?_⟩
    cases h with
    | order _ h => exact h.lock.imp_left fun ordered => ⟨⟨_, rfl⟩, ordered⟩
    | probed =>
      refine .inr ⟨?_, rfl⟩
      rintro next ⟨⟩
      exact id
    | greeted =>
      obtain ⟨_, _, _, _, _, h⟩ := Poll.spares_told s .unknown none
      refine .inr ⟨?_, by rw [h]⟩
      rintro next ⟨⟩
      exact id
    | ungreeted =>
      obtain ⟨_, _, _, _, _, h⟩ := Poll.spares_told s .unknown none
      exact .inr ⟨apart_error _, by rw [h]⟩
    | closed =>
      refine .inr ⟨?_, rfl⟩
      intro next hn
      cases Except.ok.inj hn
      cases s.ownsRunner <;> exact id
  | polled hp h => exact .inr ⟨by cases hp <;> exact id, .inr h.lock⟩
  | held hc h =>
    refine .inl ⟨?_, h.lock⟩
    cases hc <;> trivial
  | @probed _ r _ hc path =>
    obtain ⟨_, _, _, _, _, rfl⟩ := path.spares
    refine .inr ⟨by cases hc <;> exact id, .inr ⟨?_, rfl⟩⟩
    cases r with
    | error e => exact apart_error e
    | ok o => exact apart_done o
  | @polling _ _ u path =>
    obtain ⟨_, _, _, h⟩ := u.polling_eq
    obtain ⟨_, _, _, _, _, rfl⟩ := path.spares
    exact .inr ⟨id, .inr ⟨apart_done _, by rw [h]⟩⟩

/-- With every turn the lock fits what the tasks wait for, if it did before. -/
theorem Effect.fits {c : Cause} (h : Effect self s c p) {waits : TaskId → Option Next}
    (fits : s.lock.Fits waits) (holds : c.Holding → s.lock.holder = some self)
    (stays : ¬ c.Holding → ∀ next, waits self = some next → ¬ next.Locking) {v : Option Next}
    (only : ∀ next, v = some next → p.1 = .ok next)
    (all : ∀ next, p.1 = .ok next → next.Locking → v = some next) :
    p.2.lock.Fits (Function.update waits self v) := by
  have apart : Apart p.1 → ∀ next, v = some next → ¬ next.Locking := fun h next hv => h next (only next hv)
  have held : ∀ {l : Lock} {waits : TaskId → Option Next}, l.Fits waits → l.holder = some self →
      ((∃ next, p.1 = .ok next ∧ next.Writes ∧ p.2.lock = l) ∨ Apart p.1 ∧ p.2.lock = l.passed) →
      p.2.lock.Fits (Function.update waits self v) := by
    rintro l waits fits hl (⟨next, hn, writes, lock⟩ | ⟨ha, lock⟩)
    · rw [lock, all next hn writes.locking]
      exact fits.keep hl writes
    · rw [lock]
      exact fits.pass hl (apart ha)
  rcases h.lock with ⟨hc, rest⟩ | ⟨hc, ⟨-, k, ordered⟩ | ⟨ha, lock⟩⟩
  · exact held fits (holds hc) rest
  · cases ordered with
    | queued hl =>
      rw [all _ rfl trivial]
      exact fits.enqueue hl (stays hc) k
    | held hl h =>
      have taken : (s.locked self).lock.Fits (Function.update waits self (some (.queue k))) :=
        fits.take hl trivial
      have := held taken rfl h.lock
      rwa [Function.update_idem] at this
  · rw [lock]
    exact fits.bystander (stays hc) (apart ha)

end Routine

namespace Crowd

def waits (c : Crowd) (t : TaskId) : Option Next := (c.member? t).map (·.waits)

theorem member?_others {c : Crowd} {t u : TaskId} :
    (c.others t).find? (·.id == u) = if u = t then none else c.member? u := by
  unfold others member?
  rw [List.find?_filter]
  split
  · next h =>
    subst h
    simp
  · next h =>
    congr 1
    funext m
    by_cases hm : m.id = u
    · simp [hm, h]
    · simp [hm]

theorem member?_of_mem {c : Crowd} (h : c.Orderly) {m : Member} (hm : m ∈ c.members) :
    c.member? m.id = some m := by
  have found : (c.member? m.id).isSome := List.find?_isSome.mpr ⟨m, hm, beq_self_eq_true m.id⟩
  obtain ⟨n, hn⟩ := Option.isSome_iff_exists.mp found
  obtain ⟨mem, id⟩ := member?_eq_some hn
  rw [hn, List.inj_on_of_nodup_map h.nodup mem hm id]

theorem waits_of_mem {c : Crowd} (h : c.Orderly) {m : Member} (hm : m ∈ c.members) :
    c.waits m.id = some m.waits := by
  unfold waits
  rw [member?_of_mem h hm]
  rfl

theorem waits_others {c d : Crowd} {t : TaskId} (h : d.members = c.others t) :
    d.waits = Function.update c.waits t none := by
  funext u
  unfold waits member?
  rw [h, member?_others]
  by_cases hu : u = t
  · rw [if_pos hu, hu, Function.update_self]
    rfl
  · rw [if_neg hu, Function.update_of_ne hu]
    rfl

theorem waits_keep {c d : Crowd} {t : Task} {next : Next}
    (h : d.members = { t with waits := next } :: c.others t.id) :
    d.waits = Function.update c.waits t.id (some next) := by
  funext u
  unfold waits member?
  rw [h, List.find?_cons, member?_others]
  by_cases hu : u = t.id
  · subst hu
    simp
  · rw [Function.update_of_ne hu, if_neg hu, beq_eq_false_iff_ne.mpr (Ne.symm hu)]
    rfl

/-- What the turn of a task comes to for the lock. -/
theorem advance_waits (c : Crowd) (t : Task) (cause : Cause) :
    ∃ r u v, (cause.turn t.id).exec c.session = (r, u) ∧
      (c.advance t cause).session = { u with outbox := [] } ∧
      (c.advance t cause).waits = Function.update c.waits t.id v ∧
      (∀ next, v = some next → r = .ok next) ∧
      ∀ next, r = .ok next → next.Locking → v = some next := by
  obtain ⟨e, -, -, -, -, exec, jobs, clock, ⟨next, hr, -, heq⟩ | ⟨out, hr, heq⟩⟩ := advance_eq c t cause
  · refine ⟨e.result, e.after, some next, exec, by rw [heq], ?_, ?_, ?_⟩
    · rw [heq]
      exact waits_keep rfl
    · rintro _ ⟨⟩
      exact hr
    · intro m hm _
      rw [← Except.ok.inj (hr.symm.trans hm)]
  · refine ⟨e.result, e.after, none, exec, by rw [heq], ?_, ?_, ?_⟩
    · rw [heq]
      exact waits_others rfl
    · intro next h
      cases h
    · intro m hm locking
      rw [hm] at hr
      cases hr <;> exact locking.elim

def Fitting (c : Crowd) : Prop := c.session.lock.Fits c.waits

theorem Fitting.with_jobs {c : Crowd} (h : c.Fitting) (jobs : List Entrusted) (clock : Clockwork) :
    { c with jobs, clock }.Fitting := h

theorem advance_fitting {c : Crowd} (h : c.Fitting) {t : Task} {cause : Cause}
    (holds : cause.Holding → c.session.lock.holder = some t.id)
    (stays : ¬ cause.Holding → ∀ next, c.waits t.id = some next → ¬ next.Locking) :
    (c.advance t cause).Fitting := by
  obtain ⟨r, u, v, exec, session, waits, only, all⟩ := advance_waits c t cause
  have effect := Routine.turn_effect t.id cause c.session
  rw [exec] at effect
  unfold Fitting
  rw [session, waits]
  exact effect.fits h holds stays only all

theorem waits_fresh {c : Crowd} (h : c.Orderly) : c.waits c.nextTask = none := by
  unfold waits
  rw [Option.map_eq_none_iff]
  refine List.find?_eq_none.mpr fun m hm => ?_
  simpa using Nat.ne_of_lt ((h.alive m hm).2.fresh h)

theorem spawn_fitting {c : Crowd} (ho : c.Orderly) (h : c.Fitting) (o : Operation)
    (job : Option JobId) (run : Option RunId) : (c.spawn o job run).Fitting := by
  have later : Fitting { c with nextTask := c.nextTask + 1 } := h
  apply advance_fitting later False.elim
  intro _ next hn
  have none : c.waits c.nextTask = some next := hn
  rw [waits_fresh ho] at none
  cases none

theorem resume_fitting {c : Crowd} (ho : c.Orderly) (h : c.Fitting) {m : Member} {cause : Cause}
    (hm : m ∈ c.members) (hw : m.waits.Resumes cause)
    (granted : (∃ k, m.waits = .queue k) → c.session.lock.holder = some m.id) :
    (c.advance m.toTask cause).Fitting := by
  have waits := waits_of_mem ho hm
  refine advance_fitting h (fun hc => ?_) fun hc next hn => ?_
  · have locking := hw.holding.mp hc
    generalize hnext : m.waits = next at locking waits
    cases next with
    | ask x k => cases k <;> first | exact locking.elim | exact h.writes m.id _ waits trivial
    | pause w => exact h.writes m.id _ waits trivial
    | queue k => exact granted ⟨k, hnext⟩
    | stopRunner => exact locking.elim
    | done o => exact locking.elim
  · cases waits.symm.trans hn
    exact fun locking => hc (hw.holding.mpr locking)

theorem begin_fitting {c : Crowd} (ho : c.Orderly) (h : c.Fitting) (id : JobId) (run : Option RunId) :
    (c.begin id run).Fitting := by
  unfold begin
  split
  · exact h
  · exact spawn_fitting (ho.with_jobs _ c.clock) (h.with_jobs _ c.clock) _ _ _

theorem moved_fitting {c d : Crowd} (ho : c.Orderly) (h : c.Fitting) (moved : Moved c d) :
    d.Fitting := by
  cases moved with
  | same => exact h
  | asked _ => exact spawn_fitting ho h _ _ _
  | resumed hm hw hg => exact resume_fitting ho h hm hw hg
  | @atOnce turn hi =>
    have lock : (c.atOnce turn).session.lock = c.session.lock := instant_lock hi c.session
    unfold Fitting
    rw [lock]
    exact h
  | host _ => exact h
  | ran _ _ _ => exact begin_fitting ho h _ _
  | began _ _ => exact begin_fitting (ho.with_jobs c.jobs _) (h.with_jobs c.jobs _) _ _
  | @stopped _ m clock _ hm hw =>
    obtain ⟨clock, heq⟩ := finish_eq { c with clock } m.toTask (.ok .nothing)
    have waits : c.waits m.id = some .stopRunner := hw ▸ waits_of_mem ho hm
    unfold Fitting
    rw [heq, waits_others rfl]
    refine h.bystander (fun next hn => ?_) fun next hn => ?_
    · cases waits.symm.trans hn
      exact id
    · cases hn
  | ticked _ => exact h
  | woke _ _ => exact h

theorem Reachable.fitting {c : Crowd} (h : c.Reachable) : c.Fitting :=
  h.induction (fun _ _ => Lock.fits_free) fun c mv hr hc => moved_fitting hr.orderly hc (step_moved c mv)

end Crowd
end BatteryLink
