import BatteryLink.Proofs.Lock
import Mathlib.Algebra.Order.BigOperators.Group.List
import Mathlib.Algebra.Order.Group.Nat
/-!
Progress: as long as the device answers, or its silence runs out, tasks that wait go on, and every
one of them comes to its end.
-/
namespace BatteryLink

open Routine (Cause Next)

namespace Crowd

/-- Moves that have a task go on that waits: whatever the device answers, an exchange is over in
time, and so is a pause. -/
inductive Onward (c : Crowd) : Move → Prop
  | answer {m : Member} {x : Exchange} {k : Routine.Asked} (now : Moment) (a : Answered) :
      m ∈ c.members → m.waits = .ask x k → Onward c (.answer m.id now a)
  | rest {m : Member} {w : Order.Writing} :
      m ∈ c.members → m.waits = .pause w → Onward c (.rest m.id)
  | grant {m : Member} {k : Order.Kind} : m ∈ c.members → m.waits = .queue k →
      c.session.lock.holder = some m.id → Onward c (.grant m.id)

/-- Tasks can go on until `P` comes about, and it does whichever of them go on and whatever they are
answered. -/
inductive Inevitable (P : Crowd → Prop) : Crowd → Prop
  | now {c : Crowd} : P c → Inevitable P c
  | later {c : Crowd} : (∃ mv, c.Onward mv) → (∀ mv, c.Onward mv → Inevitable P (c.step mv)) →
      Inevitable P c

theorem step_onward {c : Crowd} (h : c.Orderly) {mv : Move} (go : c.Onward mv) :
    ∃ m ∈ c.members, ∃ cause, m.waits.Resumes cause ∧ c.step mv = c.advance m.toTask cause := by
  have found : ∀ {m : Member} {next : Next}, m ∈ c.members → m.waits = next →
      c.member? m.id = some ⟨m.toTask, next⟩ := by
    rintro m next hm rfl
    exact member?_of_mem h hm
  cases go with
  | @answer m x k now a hm hw =>
    refine ⟨m, hm, .answered now k a, by rw [hw]; rfl, ?_⟩
    unfold step
    dsimp only
    rw [found hm hw]
  | @rest m w hm hw =>
    refine ⟨m, hm, .rested w, by rw [hw]; rfl, ?_⟩
    unfold step
    dsimp only
    rw [found hm hw]
  | @grant m k hm hw hl =>
    refine ⟨m, hm, .granted k, by rw [hw]; rfl, ?_⟩
    unfold step
    dsimp only
    rw [found hm hw]
    dsimp only
    rw [if_pos hl]

theorem mem_of_waits {c : Crowd} {t : TaskId} {next : Next} (h : c.waits t = some next) :
    ∃ m ∈ c.members, m.id = t ∧ m.waits = next := by
  obtain ⟨m, hm, hw⟩ := Option.map_eq_some_iff.mp h
  obtain ⟨mem, id⟩ := member?_eq_some hm
  exact ⟨m, mem, id, hw⟩

/-- The task that has the lock goes on. -/
theorem holder_onward {c : Crowd} (h : c.Fitting) {t : TaskId} (ht : c.session.lock.holder = some t) :
    ∃ mv, c.Onward mv := by
  obtain ⟨next, hn, locking⟩ := h.holder t ht
  obtain ⟨m, hm, rfl, hw⟩ := mem_of_waits hn
  cases next with
  | ask x k => exact ⟨_, .answer ⟨0⟩ (.ok none) hm hw⟩
  | pause w => exact ⟨_, .rest hm hw⟩
  | queue k => exact ⟨_, .grant hm hw ht⟩
  | stopRunner => exact locking.elim
  | done o => exact locking.elim

/-- While a task waits for anything but the end of the runner, some task can go on: the lock that it
may wait for is held by one. -/
theorem Reachable.onward {c : Crowd} (h : c.Reachable) {m : Member} (hm : m ∈ c.members)
    (ho : m.operation ≠ .dispose) : ∃ mv, c.Onward mv := by
  have serves := h.orderly.serves hm
  have alive := (h.orderly.alive m hm).1
  generalize hw : m.waits = next at serves alive
  cases next with
  | ask x k => exact ⟨_, .answer ⟨0⟩ (.ok none) hm hw⟩
  | pause w => exact ⟨_, .rest hm hw⟩
  | queue k =>
    have waits : c.waits m.id = some (.queue k) := hw ▸ waits_of_mem h.orderly hm
    cases hl : c.session.lock.holder with
    | some t => exact holder_onward h.fitting hl
    | none =>
      rcases h.fitting.locking m.id _ waits trivial with held | queued
      · cases hl.symm.trans held
      · rw [h.fitting.idle hl] at queued
        cases queued
  | stopRunner => exact absurd serves ho
  | done o => exact absurd rfl (alive o)

/-- How many turns all tasks have before them at most. -/
def left (c : Crowd) : Nat := (c.members.map (·.waits.left)).sum

theorem left_others_le {c : Crowd} {m : Member} (hm : m ∈ c.members) :
    m.waits.left + ((c.others m.id).map (·.waits.left)).sum ≤ c.left := by
  unfold left others
  generalize c.members = ms at hm
  induction ms with
  | nil => cases hm
  | cons n ms ih =>
    rw [List.map_cons, List.sum_cons]
    rcases List.mem_cons.mp hm with rfl | hm
    · have fewer := (List.filter_sublist (p := fun n : Member => n.id != m.id) (l := ms)).map (·.waits.left)
      rw [List.filter_cons_of_neg (by simp)]
      exact Nat.add_le_add_left (fewer.sum_le_sum fun _ _ => Nat.zero_le _) _
    · have := ih hm
      rw [List.filter_cons]
      split
      · rw [List.map_cons, List.sum_cons]
        omega
      · omega

/-- A turn is one of those that the tasks have before them. -/
theorem advance_left {c : Crowd} (h : c.Orderly) {m : Member} {cause : Cause} (hm : m ∈ c.members)
    (hw : m.waits.Resumes cause) : (c.advance m.toTask cause).left < c.left := by
  have rest := left_others_le hm
  have pos := cause.left_pos
  rw [← hw.left] at pos
  obtain ⟨e, -, -, -, -, exec, jobs, clock, ⟨next, hr, -, heq⟩ | ⟨out, -, heq⟩⟩ :=
    advance_eq c m.toTask cause
  · have effect := Routine.turn_effect m.id cause c.session
    rw [exec] at effect
    have fewer := (effect.course (hw.serves (h.serves hm)) next hr).2
    rw [← hw.left] at fewer
    rw [heq]
    change next.left + ((c.others m.id).map (·.waits.left)).sum < _
    omega
  · rw [heq]
    change ((c.others m.id).map (·.waits.left)).sum < _
    omega

/-- Whatever was begun and is no disposal comes to its end. -/
theorem Reachable.ends {c : Crowd} (h : c.Reachable) {e : Entry} (he : e ∈ c.log)
    (ho : e.operation ≠ .dispose) :
    Inevitable (fun d => ∃ x ∈ d.endings, x.task = e.task) c := by
  generalize hn : c.left = n
  induction n using Nat.strong_induction_on generalizing c with
  | _ n ih =>
    rcases h.orderly.known e he with ⟨m, hm, -, op⟩ | ⟨x, hx, id, -⟩
    · refine .later (h.onward hm (op ▸ ho)) fun mv go => ?_
      obtain ⟨m', hm', cause, hw, heq⟩ := step_onward h.orderly go
      have fewer := advance_left h.orderly hm' hw
      obtain ⟨f, -, -, log, -⟩ := advance_log h.orderly m'.toTask cause
      rw [← heq] at fewer log
      refine ih _ (hn ▸ fewer) (h.step mv) ?_ rfl
      rw [log]
      exact List.mem_cons_of_mem _ he
    · exact .now ⟨x, hx, id⟩

end Crowd
end BatteryLink
