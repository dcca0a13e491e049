import BatteryLink.Health
import Mathlib.Data.List.Induction
import Mathlib.Data.List.ReduceOption
/-!
Health after any history of outcomes. What is known of the device is a function of two things: how
many failures there were since the last success, and whether there was a success at all. The changes
that the listener is told of make a chain from the first status to the last.
-/
namespace BatteryLink.Health

/-- The health after some more outcomes. -/
def after (h : Health) (outcomes : List Bool) : Health := outcomes.foldl record h

/-- What the listener is told at each of some outcomes. -/
def calls (h : Health) (outcomes : List Bool) : List (Option StatusChange) :=
  List.zipWith changed (h :: h.history outcomes) (h.history outcomes)

/-- The changes that the listener is told of. -/
def told (h : Health) (outcomes : List Bool) : List StatusChange := (h.calls outcomes).reduceOption

/-- How many outcomes came after the last success; all of them, if there was none. -/
def sinceSuccess (outcomes : List Bool) : Nat := outcomes.reverse.idxOf true

theorem sinceSuccess_concat (outcomes : List Bool) (reachable : Bool) :
    sinceSuccess (outcomes ++ [reachable]) = if reachable then 0 else sinceSuccess outcomes + 1 := by
  cases reachable <;> simp [sinceSuccess]

theorem after_concat (h : Health) (outcomes : List Bool) (reachable : Bool) :
    h.after (outcomes ++ [reachable]) = (h.after outcomes).record reachable := by
  simp [after, List.foldl_append]

theorem calls_cons (h : Health) (reachable : Bool) (outcomes : List Bool) :
    h.calls (reachable :: outcomes) =
      h.changed (h.record reachable) :: (h.record reachable).calls outcomes := rfl

@[simp] theorem threshold_record (h : Health) (reachable : Bool) :
    (h.record reachable).threshold = h.threshold := by
  cases reachable <;> rfl

theorem threshold_after (h : Health) (outcomes : List Bool) :
    (h.after outcomes).threshold = h.threshold := by
  induction outcomes using List.reverseRecOn with
  | nil => rfl
  | append_singleton outcomes reachable ih => rw [after_concat, threshold_record, ih]

theorem changed_eq_some {before after : Health} {c : StatusChange} :
    before.changed after = some c ↔
      before.status ≠ after.status ∧ c = ⟨before.status, after.status, after.failures⟩ := by
  unfold changed
  split
  · next same => simp [same]
  · next differ => simp [differ, eq_comm]

theorem status_of_changed_eq_none {before after : Health} (h : before.changed after = none) :
    before.status = after.status := by
  unfold changed at h
  split at h
  · assumption
  · cases h

/-- A change leads to the status that is taken down, and that is a known one. -/
theorem current_of_changed {h : Health} {reachable : Bool} {c : StatusChange}
    (hc : h.changed (h.record reachable) = some c) :
    c.current ≠ .unknown ∧ c.current = (h.record reachable).status := by
  obtain ⟨differ, rfl⟩ := changed_eq_some.mp hc
  refine ⟨fun unknown => ?_, rfl⟩
  cases reachable with
  | true => cases unknown
  | false =>
    simp only [record, Bool.false_eq_true, if_false] at differ unknown
    split at unknown
    · cases unknown
    · next below => exact differ (if_neg below).symm

/-- The listener is told of an outcome exactly what that outcome changes. -/
theorem calls_getElem? (h : Health) (outcomes : List Bool) (i : Nat) :
    (h.calls outcomes)[i]? = if i < outcomes.length then
      some ((h.after (outcomes.take i)).changed (h.after (outcomes.take (i + 1)))) else none := by
  induction outcomes generalizing h i with
  | nil => rfl
  | cons reachable outcomes ih =>
    rw [calls_cons]
    cases i with
    | zero => simp [after]
    | succ i => simpa [after] using ih (h.record reachable) i

/-- A device is offline exactly when it has failed as often as the threshold tells, or more often. -/
structure Settled (h : Health) : Prop where
  positive : 1 ≤ h.threshold
  offline_iff : h.status = .offline ↔ h.threshold ≤ h.failures

theorem settled_initial (threshold : Int) : (initial threshold).Settled where
  positive := Int.le_max_left 1 threshold
  offline_iff := by
    simp only [initial, reduceCtorEq, false_iff]
    omega

theorem Settled.record {h : Health} (hs : h.Settled) (reachable : Bool) :
    (h.record reachable).Settled where
  positive := (h.threshold_record reachable).symm ▸ hs.positive
  offline_iff := by
    obtain ⟨low, offline⟩ := hs
    cases reachable with
    | true =>
      simp only [Health.record, if_true, reduceCtorEq, false_iff]
      omega
    | false =>
      simp only [Health.record, Bool.false_eq_true, if_false]
      split
      · next reached => simpa using reached
      · next below =>
        -- the count has just grown, so a status that was not offline before is not now
        push_cast at below ⊢
        rw [offline]
        omega

/-- A change of status is to online with no failure, or to offline at the threshold. -/
theorem Settled.change {h : Health} (hs : h.Settled) {reachable : Bool} {c : StatusChange}
    (hc : h.changed (h.record reachable) = some c) :
    c.current = .online ∧ c.failures = 0 ∨ c.current = .offline ∧ (c.failures : Int) = h.threshold := by
  obtain ⟨differ, rfl⟩ := changed_eq_some.mp hc
  cases reachable with
  | true => exact .inl ⟨rfl, rfl⟩
  | false =>
    simp only [Health.record, Bool.false_eq_true, if_false] at differ ⊢
    split at differ
    · next reached =>
      have below : ¬ h.threshold ≤ h.failures := fun h' => differ (hs.offline_iff.mpr h')
      rw [if_pos reached]
      refine .inr ⟨rfl, ?_⟩
      push_cast at reached ⊢
      omega
    · exact absurd rfl differ

theorem Settled.told {h : Health} (hs : h.Settled) (outcomes : List Bool) :
    ∀ c ∈ h.told outcomes, c.current = .online ∧ c.failures = 0 ∨
      c.current = .offline ∧ (c.failures : Int) = h.threshold := by
  induction outcomes generalizing h with
  | nil => exact List.forall_mem_nil _
  | cons reachable outcomes ih =>
    have later := ih (hs.record reachable)
    rw [threshold_record] at later
    unfold Health.told at later ⊢
    rw [calls_cons]
    cases hc : h.changed (h.record reachable) with
    | none =>
      rw [List.reduceOption_cons_of_none]
      exact later
    | some c =>
      rw [List.reduceOption_cons_of_some]
      exact List.forall_mem_cons.mpr ⟨hs.change hc, later⟩

/-- Every change starts from the status that the one before it ended with. -/
theorem told_chain (h : Health) (outcomes : List Bool) :
    (h.told outcomes).map (·.previous) ++ [(h.after outcomes).status] =
      h.status :: (h.told outcomes).map (·.current) := by
  induction outcomes generalizing h with
  | nil => rfl
  | cons reachable outcomes ih =>
    have later := ih (h.record reachable)
    unfold told at later ⊢
    rw [calls_cons]
    cases hc : h.changed (h.record reachable) with
    | none =>
      rw [List.reduceOption_cons_of_none, status_of_changed_eq_none hc]
      exact later
    | some c =>
      obtain ⟨-, rfl⟩ := changed_eq_some.mp hc
      rw [List.reduceOption_cons_of_some, List.map_cons, List.map_cons, List.cons_append]
      exact congrArg (h.status :: ·) later

theorem failures_after (threshold : Int) (outcomes : List Bool) :
    ((initial threshold).after outcomes).failures = sinceSuccess outcomes := by
  induction outcomes using List.reverseRecOn with
  | nil => rfl
  | append_singleton outcomes reachable ih =>
    rw [after_concat, sinceSuccess_concat, ← ih]
    cases reachable <;> rfl

theorem status_after (threshold : Int) (outcomes : List Bool) :
    ((initial threshold).after outcomes).status =
      if max 1 threshold ≤ sinceSuccess outcomes then .offline
      else if true ∈ outcomes then .online else .unknown := by
  have low : ¬ max 1 threshold ≤ ((0 : Nat) : Int) := by omega
  induction outcomes using List.reverseRecOn with
  | nil => exact (if_neg low).symm
  | append_singleton outcomes reachable ih =>
    have count := failures_after threshold outcomes
    have bound : ((initial threshold).after outcomes).threshold = max 1 threshold :=
      threshold_after (initial threshold) outcomes
    rw [after_concat, sinceSuccess_concat]
    cases reachable with
    | true =>
      rw [if_pos rfl, if_neg low, if_pos (by simp)]
      rfl
    | false =>
      simp only [record, Bool.false_eq_true, if_false, count, bound]
      by_cases reached : max 1 threshold ≤ ((sinceSuccess outcomes + 1 : Nat) : Int)
      · rw [if_pos reached, if_pos reached]
      · have before : ¬ max 1 threshold ≤ (sinceSuccess outcomes : Int) := by
          push_cast at reached
          omega
        rw [if_neg reached, if_neg reached, ih, if_neg before]
        simp

/-- The status after any outcomes depends on the failures since the last success and on whether there
was one. The listener is called at the outcomes that change it and at no other, each time with the
status that it was told last, and with as many failures as the new status takes. -/
theorem hysteresis (threshold : Int) (outcomes : List Bool) :
    let start := initial threshold
    (start.after outcomes).failures = sinceSuccess outcomes ∧
      (start.after outcomes).status =
        (if max 1 threshold ≤ sinceSuccess outcomes then .offline
          else if true ∈ outcomes then .online else .unknown) ∧
      (∀ i c, (start.calls outcomes)[i]? = some (some c) ↔
        i < outcomes.length ∧
          (start.after (outcomes.take i)).status ≠ (start.after (outcomes.take (i + 1))).status ∧
          c = ⟨(start.after (outcomes.take i)).status, (start.after (outcomes.take (i + 1))).status,
            (start.after (outcomes.take (i + 1))).failures⟩) ∧
      (start.told outcomes).map (·.previous) ++ [(start.after outcomes).status] =
        .unknown :: (start.told outcomes).map (·.current) ∧
      ∀ c ∈ start.told outcomes, c.current = .online ∧ c.failures = 0 ∨
        c.current = .offline ∧ (c.failures : Int) = max 1 threshold := by
  intro start
  refine ⟨failures_after threshold outcomes, status_after threshold outcomes, fun i c => ?_,
    told_chain start outcomes, (settled_initial threshold).told outcomes⟩
  rw [calls_getElem?]
  split
  · next inside => simp [inside, changed_eq_some]
  · next outside => simp [outside]

/-- A device that answers, fails three times and answers again. -/
theorem hysteresis_outage :
    (initial 2).told [true, false, false, false, true] =
        [⟨.unknown, .online, 0⟩, ⟨.online, .offline, 2⟩, ⟨.offline, .online, 0⟩] ∧
      ((initial 2).calls [true, false, false, false, true])[2]? =
        some (some ⟨.online, .offline, 2⟩) ∧
      ∀ c ∈ (initial 2).told [true, false, false, false, true],
        c.current = .online ∧ c.failures = 0 ∨ c.current = .offline ∧ (c.failures : Int) = 2 := by
  obtain ⟨-, -, calls, -, counts⟩ := hysteresis 2 [true, false, false, false, true]
  exact ⟨by decide, (calls 2 _).mpr (by decide), counts⟩

end BatteryLink.Health
