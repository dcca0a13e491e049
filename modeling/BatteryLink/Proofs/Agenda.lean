import BatteryLink.Proofs.Binary64
import BatteryLink.Schedule.Agenda
import Mathlib.Data.List.TakeWhile
import Mathlib.Logic.Relation
/-!
Agendas, one pass at a time. An item that has no turns left is not passed over, and time stands
still as long as anything is left to do.
-/
namespace BatteryLink

namespace Agenda

variable {α : Type} {a b : Agenda α}

/-- None comes after one that is due later. -/
def InOrder (ts : List (Timer α)) : Prop := ts.Pairwise fun t u => u.due.lt t.due = false

theorem mem_insertTimer {t u : Timer α} {ts : List (Timer α)} :
    u ∈ insertTimer t ts ↔ u = t ∨ u ∈ ts := by
  induction ts with
  | nil => simp [insertTimer]
  | cons v ts ih =>
    unfold insertTimer
    split
    · exact List.mem_cons
    · rw [List.mem_cons, List.mem_cons, ih]
      tauto

theorem inOrder_insertTimer {ts : List (Timer α)} (h : InOrder ts) (t : Timer α) :
    InOrder (insertTimer t ts) := by
  induction ts with
  | nil => exact List.pairwise_singleton _ _
  | cons v ts ih =>
    obtain ⟨first, rest⟩ := List.pairwise_cons.mp h
    unfold insertTimer
    split
    · next before =>
      refine List.pairwise_cons.mpr ⟨?_, h⟩
      intro u hu
      rcases List.mem_cons.mp hu with rfl | hu
      · exact Binary64.lt_asymm before
      · by_contra back
        have := Binary64.lt_trans (Bool.eq_true_of_not_eq_false back) before
        rw [first u hu] at this
        cases this
    · next after =>
      refine List.pairwise_cons.mpr ⟨?_, ih rest⟩
      intro u hu
      rcases mem_insertTimer.mp hu with rfl | hu
      · exact Bool.eq_false_iff.mpr after
      · exact first u hu

/-- What is to be done now, in the order of the turns. -/
def queue (a : Agenda α) : List (Nat × α) := a.round ++ a.following

/-- One step towards the next item: the first item is passed over, or a round ends. Between two
rounds what is due joins the queue, and time moves if there is nothing else to do. -/
inductive Pass (a b : Agenda α) : Prop
  | skips {n : Nat} {x : α} {rest : List (Nat × α)} : a.queue = (n + 1, x) :: rest →
      b.queue = rest ++ [(n, x)] → b.timers = a.timers → b.now = a.now → Pass a b
  | rouse (due : List (Timer α)) : a.timers = due ++ b.timers →
      b.queue = a.queue ++ due.map (fun t => (t.turns, t.item)) →
      (∀ t ∈ due, isDue b.now t = true) → (a.queue ≠ [] → b.now = a.now) →
      (b.now = a.now ∨ ∃ t rest, a.timers = t :: rest ∧ b.now = t.due) → Pass a b

abbrev Passes : Agenda α → Agenda α → Prop := Relation.ReflTransGen Pass

theorem pass_nextRound (h : a.round = []) : Pass a a.nextRound := by
  have same : a.queue = a.following := by rw [queue, h, List.nil_append]
  refine .rouse (a.timers.takeWhile (isDue a.nextTime)) (List.takeWhile_append_dropWhile).symm ?_ ?_ ?_ ?_
  · rw [same]
    exact List.append_nil _
  · exact fun t ht => List.mem_takeWhile_imp ht
  · intro more
    rw [same] at more
    obtain ⟨x, xs, hx⟩ := List.exists_cons_of_ne_nil more
    change a.nextTime = a.now
    unfold nextTime
    rw [hx]
  · change a.nextTime = a.now ∨ ∃ t rest, a.timers = t :: rest ∧ a.nextTime = t.due
    unfold nextTime
    split
    · next t rest _ ht =>
      split
      · exact .inr ⟨t, rest, ht, rfl⟩
      · exact .inl rfl
    · exact .inl rfl

theorem takeTurn_none {q : List (Nat × α)} {waiting : List (Nat × α)} (h : takeTurn q = (waiting, none)) :
    q = waiting.map fun p => (p.1 + 1, p.2) := by
  induction q generalizing waiting with
  | nil => cases h; rfl
  | cons p q ih =>
    obtain ⟨n, x⟩ := p
    cases n with
    | zero => cases h
    | succ n =>
      unfold takeTurn at h
      rcases hq : takeTurn q with ⟨w, t⟩
      rw [hq] at h
      cases h
      rw [List.map_cons, ← ih hq]

theorem takeTurn_some {q waiting rest : List (Nat × α)} {x : α}
    (h : takeTurn q = (waiting, some (x, rest))) :
    q = (waiting.map fun p => (p.1 + 1, p.2)) ++ (0, x) :: rest := by
  induction q generalizing waiting with
  | nil => cases h
  | cons p q ih =>
    obtain ⟨n, y⟩ := p
    cases n with
    | zero => cases h; rfl
    | succ n =>
      unfold takeTurn at h
      rcases hq : takeTurn q with ⟨w, t⟩
      rw [hq] at h
      cases h
      rw [List.map_cons, List.cons_append, ← ih hq]

/-- Items that have to wait are passed over one after another. -/
theorem passes_over (waiting : List (Nat × α)) {rest : List (Nat × α)}
    (h : a.round = (waiting.map fun p => (p.1 + 1, p.2)) ++ rest) :
    Passes a { a with round := rest, following := a.following ++ waiting } := by
  induction waiting generalizing a with
  | nil =>
    have same : a = { a with round := rest, following := a.following ++ [] } := by
      rw [List.append_nil, ← show a.round = rest from h]
    rw [← same]
  | cons p waiting ih =>
    let b : Agenda α :=
      { a with round := (waiting.map fun p => (p.1 + 1, p.2)) ++ rest, following := a.following ++ [p] }
    have first : Pass a b := by
      have split : a.queue = (p.1 + 1, p.2) :: (b.round ++ a.following) := by
        rw [queue, h]
        rfl
      refine .skips split ?_ rfl rfl
      rw [queue, List.append_assoc, List.append_assoc, List.append_assoc]
    have others := ih (a := b) rfl
    rw [show b.following ++ waiting = a.following ++ p :: waiting by simp [b]] at others
    exact .head first others

theorem nextWithin_eq {rounds : Nat} {x : α} (h : nextWithin rounds a = some (x, b)) :
    ∃ c, Passes a c ∧ c.queue = (0, x) :: b.queue ∧ b.timers = c.timers ∧ b.now = c.now := by
  induction rounds generalizing a with
  | zero => cases h
  | succ rounds ih =>
    unfold nextWithin at h
    rcases ht : takeTurn a.round with ⟨waiting, _ | ⟨y, rest⟩⟩ <;> rw [ht] at h
    · have split : a.round = (waiting.map fun p => (p.1 + 1, p.2)) ++ [] := by
        rw [List.append_nil]
        exact takeTurn_none ht
      have past := passes_over waiting split
      obtain ⟨c, passes, taken⟩ := ih h
      exact ⟨c, (past.tail (pass_nextRound rfl)).trans passes, taken⟩
    · cases h
      exact ⟨_, passes_over waiting (takeTurn_some ht), rfl, rfl, rfl⟩

/-- What comes next has no turns left when it is taken. -/
theorem next?_eq {x : α} (h : a.next? = some (x, b)) :
    ∃ c, Passes a c ∧ c.queue = (0, x) :: b.queue ∧ b.timers = c.timers ∧ b.now = c.now :=
  nextWithin_eq h

/-- The item at hand or another one comes up before its turns are over. -/
theorem isSome_of_round {rounds n : Nat} {x : α} (enough : n < rounds) (h : (n, x) ∈ a.round) :
    (nextWithin rounds a).isSome := by
  induction rounds generalizing a n with
  | zero => exact absurd enough (Nat.not_lt_zero n)
  | succ rounds ih =>
    unfold nextWithin
    rcases ht : takeTurn a.round with ⟨waiting, _ | ⟨y, rest⟩⟩
    · rw [takeTurn_none ht] at h
      obtain ⟨p, hp, same⟩ := List.mem_map.mp h
      cases same
      refine ih (Nat.lt_of_succ_lt_succ enough) ?_
      exact List.mem_append_left _ (List.mem_append_right _ hp)
    · rfl

theorem isSome_of_following {rounds n : Nat} {x : α} (enough : n + 1 < rounds)
    (h : (n, x) ∈ a.following) : (nextWithin rounds a).isSome := by
  obtain ⟨rounds, rfl⟩ : ∃ k, rounds = k + 1 := ⟨rounds - 1, by omega⟩
  unfold nextWithin
  rcases takeTurn a.round with ⟨waiting, _ | ⟨y, rest⟩⟩
  · refine isSome_of_round (x := x) (Nat.lt_of_succ_lt_succ enough) ?_
    exact List.mem_append_left _ (List.mem_append_left _ h)
  · rfl

/-- Time moves on to the first timer, or it has come there. -/
theorem isDue_nextTime {t : Timer α} {ts : List (Timer α)} (h : a.timers = t :: ts)
    (idle : a.following = []) : isDue a.nextTime t = true := by
  unfold nextTime
  rw [idle, h]
  dsimp only
  split
  · next later =>
    have number : t.due ≠ .nan := by
      intro none
      rw [none, Binary64.lt_nan] at later
      cases later
    unfold isDue
    rw [Binary64.le_self number, Bool.true_or]
  · next past =>
    unfold isDue
    by_cases timeless : a.now = .nan
    · rw [timeless, Binary64.add_nan, Binary64.nan_le, Bool.not_false, Bool.or_true]
    · by_cases never : t.due = .nan
      · rw [never, Binary64.le_nan, Bool.not_false, Bool.or_true]
      · rw [(Binary64.lt_or_le timeless never).resolve_left past, Bool.true_or]

theorem isSome_of_timer {rounds : Nat} {t : Timer α} {ts : List (Timer α)} (h : a.timers = t :: ts)
    (idle : a.queue = []) (enough : t.turns + 1 < rounds) : (nextWithin rounds a).isSome := by
  obtain ⟨none, idle⟩ := List.append_eq_nil_iff.mp idle
  obtain ⟨rounds, rfl⟩ : ∃ k, rounds = k + 1 := ⟨rounds - 1, by omega⟩
  unfold nextWithin
  rw [none]
  refine isSome_of_round (n := t.turns) (x := t.item) (Nat.lt_of_succ_lt_succ enough) ?_
  have due := isDue_nextTime (a := { a with round := [], following := a.following ++ [] }) h
    (by rw [idle, List.append_nil])
  refine List.mem_append_right _ (List.mem_map.mpr ⟨t, ?_, rfl⟩)
  rw [h] at due ⊢
  rw [List.takeWhile_cons, if_pos due]
  exact List.mem_cons_self

theorem le_most {ns : List Nat} {n : Nat} (h : n ∈ ns) : n ≤ ns.foldr max 0 := by
  induction ns with
  | nil => cases h
  | cons m ns ih =>
    rcases List.mem_cons.mp h with rfl | h
    · exact Nat.le_max_left _ _
    · exact (ih h).trans (Nat.le_max_right _ _)

theorem le_mostTurns {q : List (Nat × α)} {p : Nat × α} (h : p ∈ q) : p.1 ≤ mostTurns q :=
  le_most (List.mem_map_of_mem h)

/-- As long as there is anything on an agenda, something comes up. -/
theorem next?_isSome (h : a.queue ≠ [] ∨ a.timers ≠ []) : a.next?.isSome := by
  unfold next?
  dsimp only
  by_cases idle : a.queue = []
  · obtain ⟨t, ts, ht⟩ := List.exists_cons_of_ne_nil (h.resolve_left (not_not_intro idle))
    have most : t.turns ≤ (a.timers.map (·.turns)).foldr max 0 :=
      le_most (List.mem_map_of_mem (ht ▸ List.mem_cons_self))
    exact isSome_of_timer ht idle (by omega)
  · obtain ⟨p, hp⟩ := List.exists_mem_of_ne_nil _ idle
    rcases List.mem_append.mp hp with hp | hp
    · have most := le_mostTurns hp
      exact isSome_of_round (by omega) hp
    · have most := le_mostTurns hp
      exact isSome_of_following (by omega) hp

/-- What has no turns left comes up as soon as what stands before it is done. -/
theorem Pass.ahead {pre post : List (Nat × α)} {x : α} (h : a.Pass b)
    (heq : a.queue = pre ++ (0, x) :: post) :
    ∃ pre' post', b.queue = pre' ++ (0, x) :: post' ∧ pre'.length ≤ pre.length := by
  cases h with
  | @skips n y rest first moved _ _ =>
    cases pre with
    | nil => cases first.symm.trans heq
    | cons p pre =>
      cases first.symm.trans heq
      exact ⟨pre, post ++ [(n, y)], moved.trans (List.append_assoc pre _ _), Nat.le_succ _⟩
  | rouse due _ grown _ _ _ =>
    exact ⟨pre, post ++ due.map fun t => (t.turns, t.item),
      by rw [grown, heq, List.append_assoc, List.cons_append], Nat.le_refl _⟩

theorem next?_ahead {pre post : List (Nat × α)} {x : α} (heq : a.queue = pre ++ (0, x) :: post) :
    ∃ y b, a.next? = some (y, b) ∧ (y = x ∨ ∃ pre' post', b.queue = pre' ++ (0, x) :: post' ∧
      pre'.length < pre.length) := by
  have comes : a.next?.isSome := next?_isSome (.inl (by rw [heq]; simp))
  obtain ⟨⟨y, b⟩, hb⟩ := Option.isSome_iff_exists.mp comes
  refine ⟨y, b, hb, ?_⟩
  obtain ⟨c, passes, taken, -, -⟩ := next?_eq hb
  have ahead : ∃ pre' post', c.queue = pre' ++ (0, x) :: post' ∧ pre'.length ≤ pre.length := by
    clear hb taken comes
    induction passes with
    | refl => exact ⟨pre, post, heq, Nat.le_refl _⟩
    | tail _ pass ih =>
      obtain ⟨pre', post', at', shorter⟩ := ih
      obtain ⟨pre'', post'', at'', shorter'⟩ := pass.ahead at'
      exact ⟨pre'', post'', at'', shorter'.trans shorter⟩
  obtain ⟨pre', post', at', shorter⟩ := ahead
  cases pre' with
  | nil => exact .inl (Prod.ext_iff.mp (List.cons_eq_cons.mp (taken.symm.trans at')).1).2
  | cons p pre' => exact .inr ⟨pre', post', (List.cons_eq_cons.mp (taken.symm.trans at')).2, shorter⟩

end Agenda
end BatteryLink
