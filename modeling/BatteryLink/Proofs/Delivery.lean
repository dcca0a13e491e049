import BatteryLink.Proofs.Accounts
import BatteryLink.Proofs.Progress
import Mathlib.Data.List.Forall2
/-!
What orders deliver. An order whose requests are all good makes them one after another, each in a
transaction of its own, up to the last one unless the user interrupts.
-/
namespace BatteryLink

open Routine (Cause Next Ended)
open BatteryLink.Order (Item Try Step)

/-- The turns among these, the latest of which comes first, that begin transactions with the device;
here the first one comes first. -/
def transactions (es : List Entry) : List Entry := (es.filter (·.begins)).reverse

namespace Order

def Step.turn? : Step → Option Entry
  | asked e => some e
  | answered _ | paused => none

def Try.turn? (y : Try) : Option Entry := y.made.map (·.1)

theorem Try.turns_steps (y : Try) : y.steps.filterMap Step.turn? = y.turn?.toList := by
  unfold steps turn?
  cases y.made <;> rfl

theorem turns_lead (ys : List Try) : (lead ys).filterMap Step.turn? = ys.filterMap Try.turn? := by
  induction ys with
  | nil => rfl
  | cons y ys ih =>
    unfold lead at ih ⊢
    rw [List.flatMap_cons, List.filterMap_append, List.filterMap_append, ih, y.turns_steps]
    cases h : y.turn? <;> simp [Step.turn?, h]

theorem turns_spell (ys : List Try) : (spell ys).filterMap Step.turn? = ys.filterMap Try.turn? := by
  rcases ys.eq_nil_or_concat' with rfl | ⟨ys, y, rfl⟩
  · rfl
  · rw [spell_concat, List.filterMap_append, turns_lead, y.turns_steps, List.filterMap_append]
    cases h : y.turn? <;> simp [h]

end Order

theorem Entry.turns_steps (e : Entry) : e.steps.filterMap Step.turn? = if e.begins then [e] else [] := by
  have cause : e.cause.steps.filterMap Step.turn? = [] := by
    cases e.cause <;> rfl
  unfold steps begins
  rw [List.filterMap_append, cause]
  rcases e.result with t | next
  · rfl
  · cases next <;> rfl

theorem transactions_eq (es : List Entry) : transactions es = (stepsIn es).filterMap Step.turn? := by
  induction es with
  | nil => rfl
  | cons e es ih =>
    rw [stepsIn_cons, List.filterMap_append, ← ih, e.turns_steps, transactions, List.filter_cons]
    split <;> simp [transactions]

/-- Tries that are borne out, and whose requests are good, are transactions. -/
theorem Order.asks_of_sincere {ys : List Try} {es : List Entry} (sincere : ∀ y ∈ ys, y.Sincere es)
    (good : ∀ y ∈ ys, ∀ f ∈ es, ∃ payload, y.item.request f.before = .ok payload) :
    List.Forall₂ Entry.Asks (ys.filterMap Try.turn?) (ys.map (·.item)) := by
  induction ys with
  | nil => exact .nil
  | cons y ys ih =>
    obtain ⟨sincere_y, sincere⟩ := List.forall_mem_cons.mp sincere
    obtain ⟨good_y, good⟩ := List.forall_mem_cons.mp good
    obtain ⟨f, a, made, asks⟩ := sincere_y.made good_y
    have turn : y.turn? = some f := by rw [Try.turn?, made]; rfl
    rw [List.filterMap_cons_some turn]
    exact .cons asks (ih sincere good)

/-- The requests that an order has made, and those that it has not made. None is left once it has
ended, unless it was interrupted or dropped. -/
theorem Account.delivers {k : Order.Kind} {b e : Entry} {es : List Entry} {ys : List Try}
    {left : List Item} (h : Account k b e (e :: es) ys left)
    (good : ∀ f ∈ e :: es, ∀ i ∈ k.items b.before, ∃ payload, i.request f.before = .ok payload) :
    ∃ made left, k.items b.before = made ++ left ∧
      List.Forall₂ Entry.Asks (transactions (e :: es)) made ∧
      (Ended e.result → (∀ t, e.result = .error t → ¬ t.OfUser) → b.before.disposed = false →
        left = []) := by
  obtain ⟨items, sincere, stands⟩ := h
  have asks := Order.asks_of_sincere sincere fun y hy f hf =>
    good f hf _ (items ▸ List.mem_append_left _ (List.mem_map_of_mem hy))
  rw [transactions_eq]
  have tried : stepsIn (e :: es) = Order.spell ys →
      List.Forall₂ Entry.Asks ((stepsIn (e :: es)).filterMap Step.turn?) (ys.map (·.item)) := by
    intro steps
    rw [steps, Order.turns_spell]
    exact asks
  generalize steps : stepsIn (e :: es) = l at stands tried
  cases stands with
  | @asking x stage i result request awaits =>
    refine ⟨ys.map (·.item) ++ [i], stage.later, by simp [items], ?_, fun ended => ?_⟩
    · rw [List.filterMap_append, Order.turns_lead]
      exact List.rel_append asks (.cons ⟨x, stage, result, request⟩ .nil)
    · exact absurd ended (Routine.Waits.ask result).not_ended
  | @paused w result counts =>
    refine ⟨_, _, items, by rwa [Order.turns_lead], fun ended => ?_⟩
    exact absurd ended (Routine.Waits.pause result).not_ended
  | closed _ => exact ⟨_, _, items, tried rfl, fun _ _ _ => rfl⟩
  | interrupted _ failed user =>
    exact ⟨_, _, items, tried rfl, fun _ whole _ => absurd user (whole _ failed)⟩
  | dropped _ disposed _ =>
    exact ⟨_, _, items, tried rfl, fun _ _ live => by cases live.symm.trans disposed⟩

namespace Crowd

/-- An order waits for the lock, or it has made the first of the requests that it had before it when
it got the lock. When it has ended it has made them all, unless the user interrupted it or the
session had been disposed of before it got the lock. -/
theorem Orderly.delivers {c : Crowd} (h : c.Orderly) {k : Order.Kind} {e : Entry} (he : e ∈ c.log)
    {o : Operation} (started : e.cause = .started o) (alone : o ≠ .dispose)
    (exec : (Routine.order e.task k).exec e.before = (e.result, e.after))
    (good : ∀ f ∈ c.turns e.task, ∀ g ∈ c.turns e.task, ∀ i ∈ k.items g.before,
      ∃ payload, i.request f.before = .ok payload) :
    (transactions (c.turns e.task) = [] ∧ ∀ x ∈ c.endings, x.task ≠ e.task) ∨
      ∃ b ∈ c.turns e.task, b.Takes ∧ ∃ made left, k.items b.before = made ++ left ∧
        List.Forall₂ Entry.Asks (transactions (c.turns e.task)) made ∧
        ∀ x ∈ c.endings, x.task = e.task → (∀ t, x.result = .error t → ¬ t.OfUser) →
          b.before.disposed = false → left = [] := by
  obtain ⟨f, es, turns, -, last, waits | ⟨b, hb, takes, ys, left, account⟩⟩ :=
    h.accounted he started alone exec
  · rw [turns, transactions_eq, waits.2]
    refine .inl ⟨rfl, fun x hx task => ?_⟩
    exact absurd (last x hx task).2 (Routine.Waits.queue waits.1).not_ended
  · rw [turns] at good ⊢
    obtain ⟨made, left, all, asks, whole⟩ := account.delivers fun f hf => good f hf b hb
    refine .inr ⟨b, hb, takes, made, left, all, asks, fun x hx task user live => ?_⟩
    obtain ⟨ends, ended⟩ := last x hx task
    exact whole ended (fun t failed => user t (failed ▸ ends).of_error) live

end Crowd
end BatteryLink
