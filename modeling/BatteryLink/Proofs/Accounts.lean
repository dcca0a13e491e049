import BatteryLink.Proofs.Settings
import BatteryLink.Proofs.Transactions
import BatteryLink.Proofs.Upkeep
/-!
The accounts of orders. When an order gets the lock it is settled which requests it has to make; it
tries them one after another, each as the session has it at that moment, and pauses between every two
of them. The result counts the requests that the device took among all that were tried.
-/
namespace BatteryLink

open Routine (Cause Next Ended)

namespace Order

inductive Item where
  | single (payload : String)
  | slot (source : SlotSource) (index : Nat)

/-- The text of a request. A slot is written with the fields that it has in its source. -/
def Item.request (s : Session) : Item → Check.Checked String
  | single payload => .ok payload
  | slot source i => slotRequest (source.read s) i

/-- The requests that an order has to make that gets the lock. -/
def Kind.items (k : Kind) (s : Session) : List Item :=
  match k with
  | single payload _ => [.single payload]
  | manual source => (enabledSlots (source.read s)).map (.slot source)

theorem Kind.items_manual (source : SlotSource) (s : Session) :
    (manual source).items s = (enabledSlots (source.read s)).map (.slot source) := rfl

def Writing.item (w : Writing) : Item := .slot w.source w.slot

/-- The requests that are left after the slot that is being written. -/
def Writing.later (w : Writing) : List Item := w.rest.map (.slot w.source)

/-- The requests that are left after the one that an answer is awaited to. -/
def Stage.later : Stage → List Item
  | single _ => []
  | slot w => w.later

end Order

open BatteryLink.Order (Item)

/-- A turn that makes a request, as the session has it before that turn. -/
def Entry.Asks (e : Entry) (i : Item) : Prop :=
  ∃ x stage, e.result = .ok (.ask x (.order stage)) ∧ i.request e.before = .ok x.payload

/-- A turn in which an order gets the lock. -/
def Entry.Takes (e : Entry) : Prop :=
  (∃ k, e.cause = .granted k) ∨ (∃ o, e.cause = .started o) ∧ e.before.lock.holder = none

namespace Order

/-- What has come of a request that an order had to make: the turn that made it and the answer to
it. Nothing was sent where there was no good request. -/
structure Try where
  item : Item
  made : Option (Entry × Answered)

/-- What an order does to the device. -/
inductive Step where
  | asked (e : Entry)
  | answered (a : Answered)
  | paused

namespace Try

def took (y : Try) : Bool := y.made.any fun (_, a) => Order.took a

def steps (y : Try) : List Step :=
  match y.made with
  | some (e, a) => [.asked e, .answered a]
  | none => []

/-- A try that these turns bear out. -/
def Sincere (y : Try) (es : List Entry) : Prop :=
  match y.made with
  | some (e, _) => e ∈ es ∧ e.Asks y.item
  | none => ∃ e ∈ es, ∃ f, y.item.request e.before = .error f

theorem Sincere.made {y : Try} {es : List Entry} (h : y.Sincere es)
    (good : ∀ e ∈ es, ∃ payload, y.item.request e.before = .ok payload) :
    ∃ e a, y.made = some (e, a) ∧ e.Asks y.item := by
  unfold Sincere at h
  split at h
  · next e a made => exact ⟨e, a, made, h.2⟩
  · obtain ⟨e, he, t, bad⟩ := h
    obtain ⟨payload, request⟩ := good e he
    cases bad.symm.trans request

theorem Sincere.mono {y : Try} {es fs : List Entry} (h : y.Sincere es) (sub : ∀ e ∈ es, e ∈ fs) :
    y.Sincere fs := by
  unfold Sincere at *
  split at h
  · exact ⟨sub _ h.1, h.2⟩
  · obtain ⟨e, he, none⟩ := h
    exact ⟨e, sub e he, none⟩

end Try

/-- The result of an order that has tried all that it had to. -/
def tally (ys : List Try) : Tally := ⟨ys.countP Try.took, ys.length⟩

/-- The steps of an order that has a further request to try. -/
def lead (ys : List Try) : List Step := ys.flatMap fun y => y.steps ++ [.paused]

/-- The steps of an order that has nothing more to try. -/
def spell (ys : List Try) : List Step := [Step.paused].intercalate (ys.map Try.steps)

theorem lead_concat (ys : List Try) (y : Try) : lead (ys ++ [y]) = lead ys ++ y.steps ++ [.paused] := by
  simp [lead]

theorem spell_concat (ys : List Try) (y : Try) : spell (ys ++ [y]) = lead ys ++ y.steps := by
  unfold spell lead
  induction ys with
  | nil => simp
  | cons z ys ih =>
    have more : (ys ++ [y]).map Try.steps ≠ [] := by simp
    rw [List.cons_append, List.map_cons, List.intercalate_cons_of_ne_nil more, ih]
    simp

/-- What an activation has counted before it writes a slot. -/
structure Writing.Counts (w : Writing) (ys : List Try) : Prop where
  attempted : w.attempted = ys.length + 1 + w.rest.length
  succeeded : w.succeeded = ys.countP Try.took

/-- After each slot the count is right, for the next slot or for the result. -/
theorem Writing.Counts.slotDone {w : Writing} {ys : List Try} (h : w.Counts ys) (y : Try) (s : Session) :
    (w.later = [] ∧ (slotDone w y.took).exec s = (finish (tally (ys ++ [y])) (some manualToggle)).exec s) ∨
      ∃ v, v.Counts (ys ++ [y]) ∧ w.later = v.item :: v.later ∧
        (Order.slotDone w y.took).exec s = (.ok (.pause v), s) := by
  have succeeded : (if y.took then w.succeeded + 1 else w.succeeded) = (ys ++ [y]).countP Try.took := by
    rw [h.succeeded, List.countP_append, List.countP_singleton]
    split <;> rfl
  unfold Order.slotDone
  dsimp only
  rw [succeeded]
  have attempted := h.attempted
  unfold later
  split
  · next none =>
    rw [none] at attempted
    have whole : w.attempted = (ys ++ [y]).length := by
      rw [attempted, List.length_append]
      rfl
    rw [whole, none]
    exact .inl ⟨rfl, rfl⟩
  · next slot rest more =>
    rw [more] at attempted ⊢
    have left : w.attempted = (ys ++ [y]).length + 1 + rest.length := by
      rw [attempted, List.length_append, List.length_singleton, List.length_cons]
      omega
    exact .inr ⟨_, ⟨left, rfl⟩, rfl, rfl⟩

end Order

open BatteryLink.Order (Try Step)

def Routine.Cause.steps : Cause → List Step
  | .answered _ _ a => [.answered a]
  | _ => []

def Entry.steps (e : Entry) : List Step :=
  e.cause.steps ++ match e.result with
    | .ok (.ask _ _) => [.asked e]
    | .ok (.pause _) => [.paused]
    | _ => []

/-- The steps in these turns, the latest of which comes first; here the first one comes first. -/
def stepsIn (es : List Entry) : List Step := es.reverse.flatMap Entry.steps

theorem stepsIn_cons (e : Entry) (es : List Entry) : stepsIn (e :: es) = stepsIn es ++ e.steps := by
  simp [stepsIn]

theorem Entry.steps_asks {e : Entry} {x : Exchange} {k : Routine.Asked} (h : e.result = .ok (.ask x k)) :
    e.steps = e.cause.steps ++ [.asked e] := by
  unfold steps
  rw [h]

theorem Entry.steps_pauses {e : Entry} {w : Order.Writing} (h : e.result = .ok (.pause w)) :
    e.steps = e.cause.steps ++ [.paused] := by
  unfold steps
  rw [h]

theorem Entry.steps_ends {e : Entry} (h : Ended e.result) : e.steps = e.cause.steps := by
  unfold steps
  split
  · next asks => exact absurd h (Routine.Waits.ask asks).not_ended
  · next pauses => exact absurd h (Routine.Waits.pause pauses).not_ended
  · exact List.append_nil _

namespace Routine

/-- A turn that ends an order with this result, which is taken down. Only a host application that
refuses to hear of the toggle keeps it from coming back. -/
def Closes (t : Tally) (h : Host) (p : Except Trouble Next × Session) : Prop :=
  p.2.lastResult = some t ∧
    (p.1 = .ok (.done (.tally t)) ∨ t.ok = false ∧ ∃ e, p.1 = .error e ∧ e.OfHost h)

theorem closes_finish (t : Tally) (toggle : Option String) (s : Session) :
    Closes t s.host (ofOrderResult ((Order.finish t toggle).exec s)) := by
  have last : (s.concluded t toggle).released.lastResult = some t := by
    obtain ⟨_, _, _, concluded⟩ := s.concluded_eq t toggle
    obtain ⟨_, _, released⟩ := (s.concluded t toggle).released_eq
    rw [released, concluded]
  obtain ⟨r, hr, rfl | ⟨ht, e, rfl, he⟩⟩ := Order.exec_finish t toggle s
  · rw [hr]
    exact ⟨last, .inl rfl⟩
  · rw [hr]
    exact ⟨last, .inr ⟨ht, e, rfl, he⟩⟩

theorem Closes.ended {t : Tally} {h : Host} {p : Except Trouble Next × Session} (closes : Closes t h p) :
    Ended p.1 := by
  obtain ⟨-, done | ⟨-, e, failed, -⟩⟩ := closes
  · rw [done]
    rintro _ ⟨⟩
    exact ⟨_, rfl⟩
  · rw [failed]
    exact ended_error e

end Routine

/-- What an order has before it that waits for an answer. -/
def Order.Stage.Awaits (stage : Stage) (i : Item) (ys : List Try) : Prop :=
  match stage with
  | single _ => ys = []
  | slot w => i = w.item ∧ w.Counts ys

/-- Where an order stands after turn `e` that got the lock in turn `b`, by what it has tried: the
steps that it has made, and the requests that it has not tried or that have no answer. -/
inductive Stands (b e : Entry) (ys : List Try) : List Step → List Item → Prop
  | asking {x : Exchange} {stage : Order.Stage} {i : Item} :
      e.result = .ok (.ask x (.order stage)) → i.request e.before = .ok x.payload →
      stage.Awaits i ys → Stands b e ys (Order.lead ys ++ [.asked e]) (i :: stage.later)
  | paused {w : Order.Writing} : e.result = .ok (.pause w) → w.Counts ys →
      Stands b e ys (Order.lead ys) (w.item :: w.later)
  | closed : Routine.Closes (Order.tally ys) e.before.host (e.result, e.after) →
      Stands b e ys (Order.spell ys) []
  | interrupted {t : Trouble} (left : List Item) : e.result = .error t → t.OfUser →
      Stands b e ys (Order.spell ys) left
  | dropped (left : List Item) : b.before.disposed = true → Ended e.result →
      Stands b e ys (Order.spell ys) left

/-- The account of an order that got the lock in turn `b`, after its turns `es`, of which `e` is the
latest. -/
structure Account (k : Order.Kind) (b e : Entry) (es : List Entry) (ys : List Try) (left : List Item) :
    Prop where
  items : k.items b.before = ys.map (·.item) ++ left
  sincere : ∀ y ∈ ys, y.Sincere es
  stands : Stands b e ys (stepsIn es) left

/-- An order keeps its accounts up to turn `e`. -/
def Accounted (k : Order.Kind) (b e : Entry) (es : List Entry) : Prop :=
  ∃ ys left, Account k b e es ys left

variable {k : Order.Kind} {b e f : Entry} {es : List Entry} {s : Session} {w : Order.Writing}
  {ys : List Try} {left : List Item}

/-- An order that has ended has tried all that it had to, unless it was interrupted or dropped. -/
theorem Account.closed (h : Account k b e es ys left) (ended : Ended e.result)
    (whole : ∀ t, e.result = .error t → ¬ t.OfUser) (live : b.before.disposed = false) :
    left = [] ∧ stepsIn es = Order.spell ys ∧
      Routine.Closes (Order.tally ys) e.before.host (e.result, e.after) := by
  have stands := h.stands
  generalize stepsIn es = l at stands
  cases stands with
  | asking asks _ _ => exact absurd ended (Routine.Waits.ask asks).not_ended
  | paused pauses _ => exact absurd ended (Routine.Waits.pause pauses).not_ended
  | closed closes => exact ⟨rfl, rfl, closes⟩
  | interrupted _ failed user => exact absurd user (whole _ failed)
  | dropped _ disposed _ => cases live.symm.trans disposed

theorem accounted_of_slotDone {y : Try} (counts : w.Counts ys)
    (exec : Routine.ofOrderResult ((Order.slotDone w y.took).exec s) = (e.result, e.after))
    (host : s.host = e.before.host)
    (items : k.items b.before = (ys ++ [y]).map (·.item) ++ w.later)
    (sincere : ∀ z ∈ ys ++ [y], z.Sincere (e :: es))
    (steps : stepsIn es ++ e.cause.steps = Order.lead ys ++ y.steps) : Accounted k b e (e :: es) := by
  rcases counts.slotDone y s with ⟨none, last⟩ | ⟨v, counts, more, next⟩
  · have closes := Routine.closes_finish (Order.tally (ys ++ [y])) (some Order.manualToggle) s
    rw [← last, exec, host] at closes
    refine ⟨ys ++ [y], [], none ▸ items, sincere, ?_⟩
    rw [stepsIn_cons, Entry.steps_ends closes.ended, steps, ← Order.spell_concat]
    exact .closed closes
  · rw [next] at exec
    have pauses : e.result = .ok (.pause v) := (congrArg Prod.fst exec).symm
    refine ⟨ys ++ [y], v.item :: v.later, more ▸ items, sincere, ?_⟩
    rw [stepsIn_cons, Entry.steps_pauses pauses, ← List.append_assoc, steps, ← Order.lead_concat]
    exact .paused pauses counts

/-- A slot that makes no good request counts as tried. -/
theorem accounted_of_writeSlot (counts : w.Counts ys)
    (exec : (Routine.ofOrder (Order.writeSlot w)).exec s = (e.result, e.after))
    (same : ∀ i : Item, i.request s = i.request e.before) (host : s.host = e.before.host)
    (items : k.items b.before = ys.map (·.item) ++ w.item :: w.later)
    (sincere : ∀ y ∈ ys, y.Sincere (e :: es))
    (quiet : e.cause.steps = []) (steps : stepsIn es = Order.lead ys) : Accounted k b e (e :: es) := by
  rw [Routine.exec_ofOrder] at exec
  cases request : w.item.request s with
  | ok payload =>
    rw [Order.exec_writeSlot request] at exec
    have asks := (congrArg Prod.fst exec).symm
    refine ⟨ys, _, items, sincere, ?_⟩
    rw [stepsIn_cons, Entry.steps_asks asks, quiet, steps, List.nil_append]
    change Stands b e ys _ (w.item :: (Order.Stage.slot w).later)
    exact .asking asks ((same _).symm.trans request) ⟨rfl, counts⟩
  | error t =>
    have bad : (Order.writeSlot w).exec s = (Order.slotDone w false).exec s := by
      unfold Order.writeSlot
      rw [Turn.exec_bind, Turn.exec_get]
      dsimp only
      rw [show Order.slotRequest (w.source.read s) w.slot = .error t from request]
    rw [bad] at exec
    refine accounted_of_slotDone (y := ⟨w.item, none⟩) counts exec host (by simp [items]) ?_
      (by rw [quiet, steps]; rfl)
    rw [List.forall_mem_append, List.forall_mem_singleton]
    exact ⟨sincere, e, List.mem_cons_self, t, (same _).symm.trans request⟩

theorem accounted_of_begin
    (exec : (Routine.ofOrder (Order.begin k)).exec s = (e.result, e.after))
    (disposed : s.disposed = e.before.disposed) (items : k.items s = k.items e.before)
    (same : ∀ i : Item, i.request s = i.request e.before) (host : s.host = e.before.host)
    (quiet : e.cause.steps = []) (first : stepsIn es = []) : Accounted k e e (e :: es) := by
  cases hd : s.disposed with
  | true =>
    rw [Routine.exec_ofOrder, Order.begin_disposed k hd] at exec
    have result : e.result = .ok (.done (.tally ⟨0, 0⟩)) := (congrArg Prod.fst exec).symm
    have ended : Ended e.result := by
      rw [result]
      rintro _ ⟨⟩
      exact ⟨_, rfl⟩
    refine ⟨[], _, rfl, List.forall_mem_nil _, ?_⟩
    rw [stepsIn_cons, Entry.steps_ends ended, quiet, first]
    exact .dropped _ (disposed ▸ hd) ended
  | false =>
    cases k with
    | single payload toggle =>
      rw [Routine.exec_ofOrder, Order.exec_begin_single payload toggle hd] at exec
      have asks := (congrArg Prod.fst exec).symm
      refine ⟨[], _, rfl, List.forall_mem_nil _, ?_⟩
      rw [stepsIn_cons, Entry.steps_asks asks, quiet, first]
      change Stands e e [] _ (.single payload :: (Order.Stage.single toggle).later)
      exact .asking asks rfl rfl
    | manual source =>
      rw [Routine.exec_ofOrder, Order.exec_begin_manual source hd] at exec
      rw [Order.Kind.items_manual] at items
      cases slots : Order.enabledSlots (source.read s) with
      | nil =>
        rw [slots] at exec items
        have closes := Routine.closes_finish ⟨0, 0⟩ (some Order.manualToggle) s
        dsimp only at exec
        rw [exec, host] at closes
        refine ⟨[], [], items.symm, List.forall_mem_nil _, ?_⟩
        rw [stepsIn_cons, Entry.steps_ends closes.ended, quiet, first]
        exact .closed closes
      | cons slot rest =>
        rw [slots] at exec items
        rw [← Routine.exec_ofOrder] at exec
        have counts : Order.Writing.Counts ⟨source, slot, rest, rest.length + 1, 0⟩ [] :=
          ⟨Nat.add_comm _ _, rfl⟩
        exact accounted_of_writeSlot counts exec same host items.symm (List.forall_mem_nil _) quiet first

/-- The answer to a request counts, unless it is an interrupt. -/
theorem accounted_of_proceed {stage : Order.Stage} {a : Answered} {y : Try}
    (awaits : stage.Awaits y.item ys) (took : y.took = Order.took a)
    (exec : (Routine.ofOrder (Order.proceed stage a)).exec e.before = (e.result, e.after))
    (items : k.items b.before = (ys ++ [y]).map (·.item) ++ stage.later)
    (sincere : ∀ z ∈ ys ++ [y], z.Sincere (e :: es))
    (steps : stepsIn es ++ e.cause.steps = Order.lead ys ++ y.steps) : Accounted k b e (e :: es) := by
  rw [Routine.exec_ofOrder, Order.proceed, Turn.exec_bind] at exec
  rcases Order.exec_taken a e.before with ⟨t, -, user, taken⟩ | taken
  · rw [taken] at exec
    have failed : e.result = .error t := (congrArg Prod.fst exec).symm
    refine ⟨_, stage.later, items, sincere, ?_⟩
    rw [stepsIn_cons, Entry.steps_ends (failed ▸ Routine.ended_error t), steps, ← Order.spell_concat]
    exact .interrupted _ failed user
  · rw [taken, ← took] at exec
    cases stage with
    | single toggle =>
      cases awaits
      have closes := Routine.closes_finish ⟨if y.took then 1 else 0, 1⟩ toggle e.before
      have exec : Routine.ofOrderResult ((Order.finish ⟨if y.took then 1 else 0, 1⟩ toggle).exec e.before) =
        (e.result, e.after) := exec
      have count : Order.tally [y] = ⟨if y.took then 1 else 0, 1⟩ := by
        unfold Order.tally
        rw [List.countP_singleton]
        split <;> rfl
      rw [exec, ← count] at closes
      refine ⟨_, [], items, sincere, ?_⟩
      rw [stepsIn_cons, Entry.steps_ends closes.ended, steps, ← Order.spell_concat]
      exact .closed closes
    | slot w => exact accounted_of_slotDone awaits.2 exec rfl items sincere steps

theorem Account.resume {next : Next} (h : Account k b f (f :: es) ys left)
    (hr : f.result = .ok next) (resumes : next.Resumes e.cause) (sound : e.Sound) :
    Accounted k b e (e :: f :: es) := by
  obtain ⟨items, sincere, stands⟩ := h
  have exec := sound.exec
  have sincere : ∀ y ∈ ys, y.Sincere (e :: f :: es) :=
    fun y hy => (sincere y hy).mono fun _ => List.mem_cons_of_mem e
  have waits : Routine.Waits f.result := by
    refine ⟨next, hr, ?_⟩
    rintro o rfl
    exact resumes
  generalize steps : stepsIn (f :: es) = l at stands
  cases stands with
  | @asking x stage i asks request awaits =>
    cases hr.symm.trans asks
    generalize hc : e.cause = c at resumes exec
    cases c with
    | answered now l a =>
      cases resumes
      -- the request has its answer now, so that it is one of those that were tried
      have tried : ∀ z ∈ ys ++ [⟨i, some (f, a)⟩], z.Sincere (e :: f :: es) := by
        rw [List.forall_mem_append, List.forall_mem_singleton]
        exact ⟨sincere, List.mem_cons_of_mem _ List.mem_cons_self, x, stage, asks, request⟩
      refine accounted_of_proceed (y := ⟨i, some (f, a)⟩) awaits rfl exec (by simp [items]) tried ?_
      rw [steps, hc, List.append_assoc]
      rfl
    | started o => exact resumes.elim
    | rested w => exact resumes.elim
    | granted l => exact resumes.elim
  | @paused w pauses counts =>
    cases hr.symm.trans pauses
    generalize hc : e.cause = c at resumes exec
    cases c with
    | rested v =>
      cases resumes
      exact accounted_of_writeSlot counts exec (fun _ => rfl) rfl items sincere (by rw [hc]; rfl) steps
    | started o => exact resumes.elim
    | answered now l a => exact resumes.elim
    | granted l => exact resumes.elim
  | closed closes => exact absurd closes.ended waits.not_ended
  | interrupted _ failed _ => cases hr.symm.trans failed
  | dropped _ _ ended => exact absurd ended waits.not_ended

/-- An order waits for the lock, or it got it in some turn and has kept its accounts from then on. -/
theorem Life.accounted {t : TaskId} {o : Operation} (h : Life t o (e :: es))
    (first : ∀ f ∈ e :: es, f.cause = .started o →
      (Routine.order f.task k).exec f.before = (f.result, f.after)) :
    (e.result = .ok (.queue k) ∧ stepsIn (e :: es) = []) ∨
      ∃ b ∈ e :: es, b.Takes ∧ Accounted k b e (e :: es) := by
  -- an order that finds the lock free gets it in its first turn, any other when it is granted
  generalize hl : e :: es = l at h
  induction h generalizing e es with
  | @started f ht ho sound hc =>
    cases hl
    have exec := first f List.mem_cons_self hc
    have quiet : f.cause.steps = [] := by rw [hc]; rfl
    rw [Routine.exec_order] at exec
    split at exec
    · next free =>
      refine .inr ⟨f, List.mem_cons_self, .inr ⟨⟨o, hc⟩, free⟩, ?_⟩
      exact accounted_of_begin exec rfl rfl (fun _ => rfl) rfl quiet rfl
    · have result : .ok (.queue k) = f.result := congrArg Prod.fst exec
      refine .inl ⟨result.symm, ?_⟩
      rw [stepsIn_cons, Entry.steps, quiet, ← result]
      rfl
  | @resumed g f fs next ht ho sound hr resumes life ih =>
    cases hl
    rcases ih (fun x hx => first x (List.mem_cons_of_mem _ hx)) rfl with
      ⟨waits, none⟩ | ⟨b, hb, takes, ys, left, account⟩
    · cases Except.ok.inj (hr.symm.trans waits)
      have exec := sound.exec
      generalize hc : g.cause = c at resumes exec
      cases c with
      | granted l =>
        cases resumes
        refine .inr ⟨g, List.mem_cons_self, .inl ⟨k, hc⟩, ?_⟩
        exact accounted_of_begin exec rfl rfl (fun _ => rfl) rfl (by rw [hc]; rfl) none
      | started o => exact resumes.elim
      | answered now l a => exact resumes.elim
      | rested w => exact resumes.elim
    · exact .inr ⟨b, List.mem_cons_of_mem _ hb, takes, account.resume hr resumes sound⟩

namespace Crowd

/-- The turns of an order: it waits for the lock, or it has kept its accounts since it got it. When it
ends that is its last turn. -/
theorem Orderly.accounted {c : Crowd} (h : c.Orderly) (he : e ∈ c.log) {o : Operation}
    (started : e.cause = .started o) (alone : o ≠ .dispose)
    (exec : (Routine.order e.task k).exec e.before = (e.result, e.after)) :
    ∃ f es, c.turns e.task = f :: es ∧ Life e.task o (f :: es) ∧
      (∀ x ∈ c.endings, x.task = e.task → Ends f.result x.result ∧ Ended f.result) ∧
      ((f.result = .ok (.queue k) ∧ stepsIn (f :: es) = []) ∨
        ∃ b ∈ f :: es, b.Takes ∧ Accounted k b f (f :: es)) := by
  have mem : e ∈ c.turns e.task := mem_turns.mpr ⟨he, rfl⟩
  obtain ⟨p, life⟩ := (h.lives e.task).resolve_left (List.ne_nil_of_mem mem)
  have operation : o = p := (h.started he started).symm.trans (life.task e mem).2.1
  subst operation
  -- a task is started once, so that every first turn of this one is `e`
  have first : ∀ f ∈ c.turns e.task, f.cause = .started o →
      (Routine.order f.task k).exec f.before = (f.result, f.after) := by
    intro f hf hc
    rw [life.first hf mem hc started]
    exact exec
  obtain ⟨f, es, turns⟩ := List.exists_cons_of_ne_nil (List.ne_nil_of_mem mem)
  rw [turns] at life first
  refine ⟨f, es, turns, life, fun x hx task => ?_, life.accounted first⟩
  have same : x.operation = o := by
    obtain ⟨g, gs, turns', life', -⟩ := h.ended x hx
    rw [task] at turns'
    exact (life'.task e (turns' ▸ mem)).2.1.symm.trans (life.task e (turns ▸ mem)).2.1
  obtain ⟨g, gs, turns', -, ends, ended⟩ := h.last_turn hx (same ▸ alone)
  cases turns.symm.trans (task ▸ turns')
  exact ⟨ends, ended⟩

end Crowd
end BatteryLink
