import BatteryLink.Proofs.Lawful
import Mathlib.Algebra.Order.BigOperators.Group.List
/-!
A workshop that is left to itself comes to rest. Each turn uses up an item, and what the item puts on the
agenda weighs less than it did itself.
-/
namespace BatteryLink

namespace Agenda

variable {α : Type} {a b : Agenda α}

/-- All that is to be done, now or later. -/
def items (a : Agenda α) : List α := a.queue.map (·.2) ++ a.timers.map (·.item)

/-- Between two items nothing is added and nothing is lost. -/
theorem Pass.items_perm (h : a.Pass b) : b.items.Perm a.items := by
  cases h with
  | @skips n x rest taken moved timers now =>
    unfold items
    rw [taken, moved, timers, List.map_append]
    exact (List.perm_append_singleton x _).append_right _
  | rouse due split grown _ _ _ =>
    unfold items
    rw [split, grown, List.map_append, List.map_append, List.append_assoc, List.map_map]
    rfl

theorem Passes.items_perm (h : a.Passes b) : b.items.Perm a.items := by
  induction h with
  | refl => exact .refl _
  | tail _ pass ih => exact pass.items_perm.trans ih

theorem next?_items {x : α} (h : a.next? = some (x, b)) : a.items.Perm (x :: b.items) := by
  obtain ⟨c, passes, taken, timers, -⟩ := next?_eq h
  refine passes.items_perm.symm.trans ?_
  unfold items
  rw [taken, timers]
  rfl

/-- What an errand puts on the agenda. -/
def Errand.item : Errand α → α
  | .post _ x => x
  | .pause _ x => x

theorem runAll_items {β : Type} (a : Agenda α) (wrap : β → α) (es : List (Errand β)) :
    (a.runAll wrap es).items.Perm (es.map (fun e => wrap e.item) ++ a.items) := by
  induction es generalizing a with
  | nil => exact .refl _
  | cons e es ih =>
    have one : ∀ (turns : Nat) (x : α), (a.post turns x).items.Perm (x :: a.items) := by
      intro turns x
      unfold items post queue
      rw [← List.append_assoc, List.map_append]
      exact (List.perm_append_singleton x _).append_right _
    have first : ∃ b : Agenda α, a.runAll wrap (e :: es) = b.runAll wrap es ∧
        b.items.Perm (wrap e.item :: a.items) := by
      cases e with
      | post turns x => exact ⟨_, rfl, one turns (wrap x)⟩
      | pause delay x =>
        refine ⟨a.pause delay (wrap x), rfl, ?_⟩
        unfold pause
        split
        · exact one 0 (wrap x)
        · exact (((perm_insertTimer _ a.timers).map _).append_left _).trans List.perm_middle
    obtain ⟨b, same, grown⟩ := first
    rw [same]
    exact (ih b).trans ((grown.append_left _).trans List.perm_middle)

end Agenda

/-- What a handle can still do when it is woken, until its next run has ended. -/
def Handle.ahead (x : Handle) : Nat :=
  match x.phase with
  | .ended _ => 1
  | .delayed | .resting => 3
  | .starting | .running _ => 4

namespace Workshop

variable {s : Workshop}

/-- What an item can still bring about. Words that a shutdown is over bring about nothing. -/
def weight (r : Runner TaskId) : Item → Nat
  | some (.wake h) => ((r.find? h).map Handle.ahead).getD 1
  | some (.stopped _) => 0
  | _ => 1

def isWord : Item → Bool
  | some (.stopped _) => true
  | _ => false

/-- What all that is to be done can still bring about. -/
def load (s : Workshop) : Nat := (s.agenda.items.map (weight s.runner)).sum

/-- How many have to be told that a shutdown is over. -/
def words (s : Workshop) : Nat := s.agenda.items.countP isWord

theorem ahead_pos (x : Handle) : 0 < x.ahead := by
  unfold Handle.ahead
  split <;> decide

theorem ahead_of_alive {x : Handle} (alive : x.ended = false) : 3 ≤ x.ahead := by
  unfold Handle.ended at alive
  unfold Handle.ahead
  split
  · next phase =>
    rw [phase] at alive
    cases alive
  all_goals decide

theorem ahead_of_ended {x : Handle} (past : x.ended = true) : x.ahead = 1 := by
  unfold Handle.ended at past
  unfold Handle.ahead
  split at past
  · next phase => rw [phase]
  · cases past

theorem weight_wake {r : Runner TaskId} (ids : (r.handles.map fun x => x.id).Nodup) {x : Handle}
    (hx : x ∈ r.handles) : weight r (some (.wake x.id)) = x.ahead := by
  unfold weight
  dsimp only
  rw [Runner.find?_of_mem ids hx]
  rfl

theorem weight_wake_pos (r : Runner TaskId) (h : HandleId) : 0 < weight r (some (.wake h)) := by
  unfold weight
  dsimp only
  cases r.find? h with
  | none => exact Nat.one_pos
  | some x => exact ahead_pos x

theorem weight_other (r : Runner TaskId) {y : Handle} {item : Item} (other : Bench.wakeOf y.id item = false) :
    weight (r.setHandle y) item = weight r item := by
  rcases item with - | (h | run | h | run | who)
  case some.wake =>
    have other : h ≠ y.id := beq_eq_false_iff_ne.mp other
    unfold weight
    dsimp only
    rw [Runner.find?_setHandle, Option.map_map]
    cases found : r.find? h with
    | none => rfl
    | some x =>
      obtain ⟨-, id⟩ := Clockwork.mem_of_find? found
      have kept : (if x.id = y.id then y else x) = x := if_neg (id ▸ other)
      exact congrArg Handle.ahead kept
  all_goals rfl

theorem weight_set (r : Runner TaskId) (y : Handle) :
    weight (r.setHandle y) (some (.wake y.id)) ≤ y.ahead := by
  unfold weight
  dsimp only
  rw [Runner.find?_setHandle, Option.map_map]
  cases found : r.find? y.id with
  | none => exact ahead_pos y
  | some x =>
    obtain ⟨-, id⟩ := Clockwork.mem_of_find? found
    have put : (if x.id = y.id then y else x) = y := if_pos id
    exact Nat.le_of_eq (congrArg Handle.ahead put)

theorem weights_other (r : Runner TaskId) {y : Handle} {items : List Item}
    (other : ∀ item ∈ items, Bench.wakeOf y.id item = false) :
    items.map (weight (r.setHandle y)) = items.map (weight r) :=
  List.map_congr_left fun item hi => weight_other r (other item hi)

/-- A handle that has ended makes nothing weigh more. -/
theorem weights_ended (r : Runner TaskId) {y : Handle} (past : y.ended = true) (items : List Item) :
    (items.map (weight (r.setHandle y))).sum ≤ (items.map (weight r)).sum := by
  refine List.sum_le_sum fun item _ => ?_
  cases own : Bench.wakeOf y.id item with
  | false => exact Nat.le_of_eq (weight_other r own)
  | true =>
    obtain ⟨h, rfl⟩ : ∃ h, item = some (.wake h) := by
      unfold Bench.wakeOf at own
      split at own
      · exact ⟨_, rfl⟩
      · cases own
    obtain rfl : h = y.id := beq_iff_eq.mp own
    exact (weight_set r y).trans (ahead_of_ended past ▸ weight_wake_pos r y.id)

theorem load_after (t : Workshop) (r : Runner TaskId) (calls : Runner.Calls TaskId) :
    (t.after r calls).load = (calls.map fun e => weight r (some e.item)).sum +
      (t.agenda.items.map (weight r)).sum := by
  have grown := (t.agenda.runAll_items some calls).map (weight r)
  unfold load
  exact grown.sum_nat.trans (by rw [List.map_append, List.sum_append, List.map_map]; rfl)

/-- Less is to be done, or as much and less is to be said. -/
def Lighter (s t : Workshop) : Prop := s.load < t.load ∨ s.load = t.load ∧ s.words < t.words

/-- A handle that nobody has asked to stop is not woken twice. -/
theorem quiet_rest (h : s.bench.InHand) {x : Handle} (hx : x ∈ s.runner.handles) (alive : x.ended = false)
    (going : x.stopRequested = false) {agenda : Agenda Item}
    (next : s.agenda.items.Perm (some (.wake x.id) :: agenda.items)) :
    ∀ item ∈ agenda.items, Bench.wakeOf x.id item = false := by
  have all : s.agenda.items.countP (Bench.wakeOf x.id) = s.bench.woken x.id + s.bench.timed x.id := by
    unfold Agenda.items Bench.woken Bench.timed
    rw [List.countP_append, List.countP_map, List.countP_map]
    rfl
  have once : s.bench.woken x.id + s.bench.timed x.id ≤ 1 := by
    cases h.paced.stage x hx alive going with
    | fresh _ _ once => exact Nat.le_of_eq once
    | busy _ _ _ woken timed => omega
    | done _ _ _ woken timed => omega
    | resting _ _ _ _ waits => rcases waits with ⟨woken, timed, -⟩ | ⟨woken, timed, -⟩ <;> omega
  have first : s.agenda.items.countP (Bench.wakeOf x.id) = agenda.items.countP (Bench.wakeOf x.id) + 1 :=
    (next.countP_eq _).trans (List.countP_cons_of_pos (Bench.wakeOf_self x.id))
  have none : agenda.items.countP (Bench.wakeOf x.id) = 0 := by omega
  exact fun item hi => Bool.eq_false_iff.mpr (List.countP_eq_zero.mp none item hi)

/-- The turn of a handle. -/
theorem wake_load (h : s.bench.InHand) {i : HandleId} {agenda : Agenda Item}
    (next : s.agenda.items.Perm (some (.wake i) :: agenda.items)) :
    (wake { s with agenda } i).load <
      weight s.runner (some (.wake i)) + (agenda.items.map (weight s.runner)).sum := by
  have noted : (wake { s with agenda } i).load =
      (after { s with agenda } (s.runner.wake i).1 (s.runner.wake i).2).load := by
    unfold wake
    dsimp only
    split <;> rfl
  rw [noted, load_after]
  have ids : (s.runner.handles.map fun x => x.id).Nodup := h.ids
  have woken := Runner.waking s.runner i
  generalize s.runner.wake i = p at woken
  cases woken with
  | idle _ => exact Nat.add_lt_add_right (weight_wake_pos s.runner i) _
  | @sleeps x phase span d hx id alive going _ because =>
    subst id
    have less : Handle.ahead { x with phase } < x.ahead := by
      unfold Handle.ahead
      rcases because with ⟨before, -, rfl⟩ | ⟨⟨run, before⟩, -, rfl⟩ <;>
        (rw [before]; exact Nat.lt_succ_self 3)
    have quiet := quiet_rest h hx alive going next
    dsimp only
    rw [weights_other s.runner (y := { x with phase }) quiet, weight_wake ids hx]
    exact Nat.add_lt_add_right ((weight_set s.runner { x with phase }).trans_lt less) _
  | @starts x hx id alive going _ =>
    subst id
    have quiet := quiet_rest h hx alive going next
    have same := weights_other s.runner (y := { x with phase := .running s.runner.nextRun }) quiet
    rw [weight_wake ids hx, ← same]
    exact Nat.add_lt_add_right (Nat.lt_of_lt_of_le (show 1 < 3 by decide) (ahead_of_alive alive)) _
  | @finishes x cancelled hx id alive _ =>
    subst id
    obtain ⟨waiters, told, -, finished⟩ := finishHandle_eq s.runner x cancelled
    have wordless (r) : ((told.map fun who => (.post 1 (.stopped who) : Agenda.Errand _)).map
        fun e => weight r (some e.item)).sum = 0 := by
      rw [List.map_map]
      refine List.sum_eq_zero fun n hn => ?_
      obtain ⟨who, -, rfl⟩ := List.mem_map.mp hn
      rfl
    -- The words are as many as there are waiters; that is why they weigh nothing.
    rw [finished, weight_wake ids hx]
    dsimp only
    rw [List.map_cons, List.sum_cons, wordless]
    exact Nat.add_lt_add_of_lt_of_le (Nat.lt_of_lt_of_le (show 1 < 3 by decide) (ahead_of_alive alive))
      (weights_ended s.runner (y := { x with phase := .ended cancelled }) rfl agenda.items)

theorem turn_lighter (h : s.bench.InHand) {item : Item} {agenda : Agenda Item}
    (next : s.agenda.next? = some (item, agenda)) : s.turn.Lighter s := by
  have perm := Agenda.next?_items next
  have load : s.load = weight s.runner item + (agenda.items.map (weight s.runner)).sum :=
    (perm.map (weight s.runner)).sum_nat
  have words : s.words = agenda.items.countP isWord + if isWord item then 1 else 0 := by
    unfold Workshop.words
    rw [perm.countP_eq, List.countP_cons]
  have turned : s.turn = deliver { s with agenda } item := by
    unfold turn
    rw [next]
  rw [turned]
  rcases item with - | (i | run | i | run | who)
  · exact .inl (load ▸ Nat.lt_add_of_pos_left Nat.one_pos)
  · exact .inl (load ▸ wake_load h perm)
  · exact .inl (load ▸ Nat.lt_add_of_pos_left Nat.one_pos)
  · exact .inl (load ▸ Nat.lt_add_of_pos_left Nat.one_pos)
  · exact .inl (load ▸ Nat.lt_add_of_pos_left Nat.one_pos)
  · exact .inr ⟨load ▸ (Nat.zero_add _).symm, words ▸ Nat.lt_succ_self _⟩

/-- If nothing else is done, a time comes when there is nothing to do. -/
theorem comes_to_rest (s : Workshop) (h : s.bench.InHand) :
    ∃ n, (s.run (List.replicate n .turn)).agenda.next? = none := by
  cases next : s.agenda.next? with
  | none => exact ⟨0, next⟩
  | some p =>
    obtain ⟨item, agenda⟩ := p
    have lighter : s.turn.Lighter s := turn_lighter h next
    obtain ⟨n, rest⟩ := comes_to_rest s.turn ((acts_step s .turn).inHand h)
    exact ⟨n + 1, rest⟩
termination_by (s.load, s.words)
decreasing_by exact Prod.lex_def.mpr lighter

end Workshop
end BatteryLink
