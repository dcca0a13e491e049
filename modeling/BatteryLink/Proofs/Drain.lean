import BatteryLink.Proofs.Bench
import BatteryLink.Proofs.Runner
/-!
Shutdowns of a workshop. Each one is looked at by itself: of those who wait and of those who are told
that a shutdown is over only one is seen.
-/
namespace BatteryLink

namespace Clockwork

variable {new : HandleId → Plan → Prop} {old : HandleId → Prop} {w v : Clockwork}

/-- A tick, or the first call is passed over because it has to wait. -/
inductive Shift (new : HandleId → Plan → Prop) (w : Clockwork) : Clockwork → Prop
  | tick {v : Clockwork} : Tick new w v → Shift new w v
  | skips {n : Nat} {call : RunnerCall TaskId} {rest : List (Nat × RunnerCall TaskId)} :
      w.ready = (n + 1, call) :: rest → Shift new w { w with ready := rest ++ [(n, call)] }

abbrev Shifts (new : HandleId → Plan → Prop) : Clockwork → Clockwork → Prop :=
  Relation.ReflTransGen (Shift new)

theorem Ticks.shifts (t : Ticks new w v) : Shifts new w v := by
  induction t with
  | refl => exact .refl
  | tail _ t ih => exact ih.tail (.tick t)

theorem Shift.sound (s : Shift new w v) (h : w.Sound) : v.Sound := by
  cases s with
  | tick t => exact t.sound h
  | @skips n call rest heq =>
    have stays : ∀ c, (0, c) ∈ w.ready → (0, c) ∈ rest ++ [(n, call)] := by
      intro c hc
      rw [heq] at hc
      rcases List.mem_cons.mp hc with same | hc
      · cases same
      · exact List.mem_append_left _ hc
    refine ⟨h.ids, h.tracked, h.known, h.origins, fun x hx ended ht => stays _ (h.handles x hx ended ht),
      fun l hl ended => stays _ (h.runs l hl ended), fun m id hm => ?_, h.asleep⟩
    rcases List.mem_append.mp hm with hm | hm
    · exact h.forgets m id (heq ▸ List.mem_cons_of_mem _ hm)
    · cases List.mem_singleton.mp hm
      exact h.forgets (n + 1) id (heq ▸ List.mem_cons_self)

theorem Shift.winding (s : Shift new w v) (sound : w.Sound) (h : w.Winding old)
    (fresh : ∀ id plan, new id plan → ¬ old id) : v.Winding old := by
  cases s with
  | tick t => exact t.winding sound h fresh
  | @skips n call rest heq =>
    have stays : ∀ c, (0, c) ∈ early w.ready → (0, c) ∈ early (rest ++ [(n, call)]) := by
      intro c hc
      rw [heq] at hc
      have hc : (0, c) ∈ early ([] ++ (n + 1, call) :: rest) := hc
      exact mem_early_append (mem_early_rest hc nofun)
    refine h.with_calls (fun hushed => ?_) (fun id => stays _) fun run => stays _
    rw [heq] at hushed
    obtain ⟨first, others⟩ := List.forall_mem_cons.mp hushed
    exact hushed_append.mpr ⟨others, hushed_singleton first⟩

theorem Shift.quiet (s : Shift new w v) (sound : w.Sound) (h : w.Quiet) : v.Quiet := by
  cases s with
  | tick t => exact t.quiet sound h
  | @skips n call rest heq =>
    have hushed := h.hushed
    rw [heq] at hushed
    obtain ⟨first, others⟩ := List.forall_mem_cons.mp hushed
    exact ⟨h.waiters, hushed_append.mpr ⟨others, hushed_singleton first⟩⟩

theorem Shifts.sound (s : Shifts new w v) (h : w.Sound) : v.Sound := by
  induction s with
  | refl => exact h
  | tail _ s ih => exact s.sound ih

theorem Shifts.winding (s : Shifts new w v) (sound : w.Sound) (h : w.Winding old)
    (fresh : ∀ id plan, new id plan → ¬ old id) : v.Winding old := by
  induction s with
  | refl => exact h
  | tail ss s ih => exact s.winding (Shifts.sound ss sound) ih fresh

theorem Shifts.quiet (s : Shifts new w v) (sound : w.Sound) (h : w.Quiet) : v.Quiet := by
  induction s with
  | refl => exact h
  | tail ss s ih => exact s.quiet (Shifts.sound ss sound) ih

/-- Those of some who wait or are told that are this one. -/
theorem Dismissed.filter {ws waiters : List (Waiter TaskId)} {hs : List HandleId} {runs : List RunId}
    {told : List TaskId} (h : Dismissed ws hs runs waiters told) (who : TaskId) :
    Dismissed (ws.filter (·.who == who)) hs runs (waiters.filter (·.who == who))
      (told.filter (· == who)) where
  stay := by
    intro v hv
    obtain ⟨hv, same⟩ := List.mem_filter.mp hv
    obtain ⟨u, hu, id, rest⟩ := h.stay v hv
    exact ⟨u, List.mem_filter.mpr ⟨hu, id ▸ same⟩, id, rest⟩
  leave := by
    intro t ht
    obtain ⟨ht, same⟩ := List.mem_filter.mp ht
    obtain ⟨u, hu, id, rest⟩ := h.leave t ht
    exact ⟨u, List.mem_filter.mpr ⟨hu, id.symm ▸ same⟩, id, rest⟩

end Clockwork

namespace Workshop.Bench

open Clockwork (Shift Shifts Tick Ticks)

/-- What is seen of an item, if only one shutdown is looked at. -/
def sees (who : TaskId) : Item → Option (RunnerCall TaskId)
  | some (.stopped t) => if t == who then some (.stopped t) else none
  | item => item

def seen (who : TaskId) (p : Nat × Item) : Option (Nat × RunnerCall TaskId) :=
  (sees who p.2).map (p.1, ·)

def only (w : Bench) (who : TaskId) : Clockwork where
  runner := { w.runner with waiters := w.runner.waiters.filter (·.who == who) }
  ready := w.queue.filterMap (seen who)

/-- Handles that there are not yet. -/
def New (w : Bench) (h : HandleId) (_ : Plan) : Prop := ∀ x ∈ w.runner.handles, x.id ≠ h

variable {w v : Bench}

theorem seen_wakes (who : TaskId) (turns : Nat) (hs : List HandleId) :
    (wakes turns hs).filterMap (seen who) = hs.map fun h => (turns, .wake h) := by
  rw [wakes, List.filterMap_map]
  exact congrFun List.filterMap_eq_map' hs

theorem seen_words (who : TaskId) (told : List TaskId) :
    (words told).filterMap (seen who) = (told.filter (· == who)).map fun t => (1, .stopped t) := by
  induction told with
  | nil => rfl
  | cons t told ih =>
    have first : seen who (1, some (.stopped t)) =
        (if t == who then some (.stopped t) else none).map ((1 : Nat), ·) := rfl
    have rest : words (t :: told) = (1, some (.stopped t)) :: words told := rfl
    rw [rest, List.filterMap_cons, List.filter_cons, first, ih]
    cases t == who <;> rfl

/-- The wakes of timers that are due are calls like others. -/
theorem ticks_wakes {new : HandleId → Plan → Prop} (c : Clockwork) (calls : List (Nat × HandleId)) :
    Ticks new c { c with ready := c.ready ++ calls.map fun p => (p.1, .wake p.2) } := by
  induction calls generalizing c with
  | nil =>
    rw [List.map_nil, List.append_nil]
  | cons p calls ih =>
    have more := ih { c with ready := c.ready ++ [(p.1, .wake p.2)] }
    rw [List.append_assoc] at more
    exact .head (.calls p.1 p.2) more

theorem only_note (e : Event) (who : TaskId) : (w.note e).only who = w.only who := rfl

/-- The items of timers are wakes, or those of others. -/
def Asleep (w : Bench) : Prop := ∀ t ∈ w.timers, t.item = none ∨ ∃ h, t.item = some (.wake h)

theorem only_pause (w : Bench) (d : Binary64) (h : HandleId) (who : TaskId)
    (new : HandleId → Plan → Prop) :
    Ticks new (w.only who) ((w.pause d (some (.wake h))).only who) := by
  unfold pause
  split
  · have tick : Tick new (w.only who) _ := .calls 0 h
    unfold only
    rw [List.filterMap_append]
    exact .single tick
  · exact .refl

theorem ticks_cancelAll (w : Bench) (hs : List HandleId) (who : TaskId) (sound : (w.only who).Sound)
    (new : HandleId → Plan → Prop) : Ticks new (w.only who) (only { w with
      queue := w.queue ++ wakes 0 (w.runner.awake hs), runner := (w.runner.cancelAll hs).1 } who) := by
  obtain ⟨ticks, -, -⟩ := Clockwork.cancelAll_asks new hs sound
  have apart := w.runner.cancelAll_apart (w.runner.waiters.filter (·.who == who)) hs
  have waiters : (w.runner.cancelAll hs).1.waiters = w.runner.waiters :=
    congrArg (·.1.waiters) (w.runner.cancelAll_apart w.runner.waiters hs)
  have calls : ∀ hs : List HandleId, (hs.map fun h => Agenda.Errand.post 0 (RunnerCall.wake h)).filterMap
      Clockwork.waiting = (hs.map fun h => (0, .wake h)) ∧
      (hs.map fun h => Agenda.Errand.post 0 (RunnerCall.wake h)).filterMap Clockwork.sleeping = [] := by
    intro hs
    induction hs with
    | nil => exact ⟨rfl, rfl⟩
    | cons h hs ih => exact ⟨congrArg (_ :: ·) ih.1, ih.2⟩
  have same : only { w with
      queue := w.queue ++ wakes 0 (w.runner.awake hs), runner := (w.runner.cancelAll hs).1 } who =
      (w.only who).after ((w.only who).runner.cancelAll hs).1 ((w.only who).runner.cancelAll hs).2 := by
    change _ = (w.only who).after (Runner.cancelAll { w.runner with waiters := _ } hs).1
      (Runner.cancelAll { w.runner with waiters := _ } hs).2
    rw [apart, Runner.cancelAll_calls, Clockwork.after, (calls _).1, (calls _).2]
    unfold only
    rw [List.filterMap_append, seen_wakes, waiters]
    rfl
  rw [same]
  exact ticks

/-- Of the items of timers the wakes are seen. -/
theorem seen_due (who : TaskId) {due : List (Timer Item)}
    (h : ∀ t ∈ due, t.item = none ∨ ∃ h, t.item = some (.wake h)) :
    ∃ calls : List (Nat × HandleId), (due.map fun t => (t.turns, t.item)).filterMap (seen who) =
      calls.map fun p => (p.1, .wake p.2) := by
  induction due with
  | nil => exact ⟨[], rfl⟩
  | cons t due ih =>
    obtain ⟨first, rest⟩ := List.forall_mem_cons.mp h
    obtain ⟨calls, hc⟩ := ih rest
    rw [List.map_cons, List.filterMap_cons, hc]
    rcases first with foreign | ⟨h, wakes⟩
    · rw [foreign]
      exact ⟨calls, rfl⟩
    · rw [wakes]
      exact ⟨(t.turns, h) :: calls, rfl⟩

/-- The handle that waited for a run may be asked to stop at its end. -/
theorem ticks_afterRun (w : Bench) (run : RunId) (how : RunEnd) (who : TaskId)
    (new : HandleId → Plan → Prop) : Ticks new (w.only who)
      (only { w with runner := w.runner.afterRun (w.runner.waitingFor? run) how } who) := by
  have same : ∀ how, how ≠ .givenUp ∨ w.runner.waitingFor? run = none →
      w.runner.afterRun (w.runner.waitingFor? run) how = w.runner := by
    intro how h
    rcases h with h | h
    · cases how with
      | givenUp => exact absurd rfl h
      | _ => rfl
    · rw [h]
      cases how <;> rfl
  cases hx : w.runner.waitingFor? run with
  | none =>
    rw [hx] at same
    rw [same how (.inr rfl)]
  | some x =>
    rw [hx] at same
    cases how with
    | returned => exact .refl
    | raised => exact .refl
    | givenUp =>
      have mem : x ∈ w.runner.handles := List.mem_of_find?_eq_some hx
      have phase : x.phase = .running run := by simpa using List.find?_some hx
      have alive : x.ended = false := by
        unfold Handle.ended
        rw [phase]
      exact .single (.marks (y := { x with stopRequested := true }) mem alive
        ⟨rfl, rfl, alive, fun _ => rfl, .inl rfl⟩)

section
variable {item : Item} {call : RunnerCall TaskId} {rest : List (Nat × Item)} {who : TaskId}

theorem ready_of_taken (taken : w.queue = (0, item) :: rest) (sight : sees who item = some call) :
    (w.only who).ready = [] ++ (0, call) :: rest.filterMap (seen who) := by
  have first : seen who (0, item) = some (0, call) := congrArg (Option.map _) sight
  rw [only, taken, List.filterMap_cons, first]
  rfl

theorem only_of_unseen (taken : w.queue = (0, item) :: rest) (sight : sees who item = none) :
    only { w with queue := rest } who = w.only who := by
  have first : seen who (0, item) = none := congrArg (Option.map _) sight
  unfold only
  rw [taken, List.filterMap_cons, first]

/-- What the program does besides is not seen. -/
theorem only_foreign (w : Bench) (turns : Nat) (who : TaskId) :
    only { w with queue := w.queue ++ [(turns, none)] } who = w.only who := by
  rw [only, List.filterMap_append]
  exact congrArg (Clockwork.mk _ · _) (List.append_nil _)

theorem tick_wake {h : HandleId} (taken : w.queue = (0, some (.wake h)) :: rest)
    (new : HandleId → Plan → Prop) : Tick new (w.only who) (only { w with queue := rest } who) :=
  .takes (ready_of_taken taken rfl) nofun nofun

end

/-- What happens on a bench, as it is seen, apart from shutdowns that are asked for. -/
theorem Act.shifts (act : w.Act v) (asleep : w.Asleep) (who : TaskId) (sound : (w.only who).Sound) :
    Shifts w.New (w.only who) (v.only who) ∨ ∃ current, w.Stop current v := by
  cases act with
  | stops current stop => exact .inr ⟨current, stop⟩
  | @skips n item rest heq =>
    refine .inl ?_
    unfold only
    dsimp only
    rw [heq, List.filterMap_append, List.filterMap_cons]
    unfold seen
    dsimp only [List.filterMap_cons, List.filterMap_nil]
    cases sees who item with
    | none =>
      rw [Option.map_none, Option.map_none, List.append_nil]
    | some call => exact .single (.skips rfl)
  | rouses due later split _ _ _ =>
    obtain ⟨calls, seen_calls⟩ := seen_due who fun t ht => asleep t (split ▸ List.mem_append_left _ ht)
    refine .inl (Ticks.shifts ?_)
    unfold only
    rw [List.filterMap_append, seen_calls]
    exact ticks_wakes (w.only who) calls
  | posts turns =>
    rw [only_foreign]
    exact .inl .refl
  | pauses delay =>
    unfold pause
    split
    · rw [only_foreign w 0]
      exact .inl .refl
    · exact .inl .refl
  | @idles item rest taken idle =>
    cases item with
    | none =>
      rw [only_of_unseen taken rfl]
      exact .inl .refl
    | some call =>
      obtain ⟨h, rfl, -⟩ := idle call rfl
      exact .inl (.single (.tick (tick_wake taken _)))
  | begins taken => exact .inl (.single (.tick (.takes (ready_of_taken taken rfl) nofun nofun)))
  | @reports t rest taken =>
    rw [only_note]
    by_cases same : (t == who) = true
    · exact .inl (.single (.tick (.takes (ready_of_taken taken (if_pos same)) nofun nofun)))
    · rw [only_of_unseen taken (if_neg same)]
      exact .inl .refl
  | forgetsHandle taken => exact .inl (.single (.tick (.forgetsHandle (ready_of_taken taken rfl))))
  | forgetsRun taken => exact .inl (.single (.tick (.forgetsRun (ready_of_taken taken rfl))))
  | @sleeps x phase span d rest taken hx alive going hd because =>
    have goes : x.GoesOn { x with phase } := by
      rcases because with ⟨starting, -, rfl⟩ | ⟨-, plan, rfl⟩
      · exact ⟨rfl, rfl, rfl, id, .inr (.inl ⟨starting, rfl⟩)⟩
      · exact ⟨rfl, rfl, rfl, id, .inr (.inr ⟨rfl, by rw [plan]; rfl⟩)⟩
    have marks : Tick w.New (only { w with queue := rest } who)
        (only { w with queue := rest, runner := w.runner.setHandle { x with phase } } who) :=
      .marks hx alive goes
    exact .inl (Ticks.shifts (.trans (.tail (.single (tick_wake taken _)) marks) (only_pause _ d x.id who _)))
  | @starts x rest taken hx alive going idle =>
    have starts : Tick w.New (only { w with queue := rest } who) _ := .starts hx alive going idle
    refine .inl (Ticks.shifts (.tail (.single (tick_wake taken _)) ?_))
    rw [only_note]
    unfold only
    rw [List.filterMap_append]
    exact starts
  | @finishes x waiters told rest cancelled taken hx alive because dismissed =>
    have ends : Tick w.New (only { w with queue := rest } who) _ :=
      .ends cancelled hx alive (dismissed.filter who)
    refine .inl (Ticks.shifts (.tail (.single (tick_wake taken _)) ?_))
    unfold only
    rw [List.filterMap_append, List.filterMap_cons, seen_words]
    exact ends
  | @runEnds run waiters told how began going dismissed =>
    let marked : Bench := { w with runner := w.runner.afterRun (w.runner.waitingFor? run) how }
    have same : marked.runner.waiters = w.runner.waiters := by
      cases how <;> cases hx : w.runner.waitingFor? run <;> simp only [marked, hx] <;> rfl
    have ends : Tick w.New (marked.only who) _ :=
      .runEnds ((w.runner.waitingFor? run).toList.map Handle.id)
        (show Clockwork.Dismissed (marked.only who).runner.waiters [] [run] _ _ from
          congrArg (List.filter _) same ▸ dismissed.filter who)
    refine .inl (Ticks.shifts (.tail (ticks_afterRun w run how who _) ?_))
    rw [only_note]
    unfold only
    rw [List.filterMap_append, List.filterMap_cons, List.filterMap_append, seen_wakes, seen_words]
    exact ends
  | @launches h plan fresh leaves =>
    have launches : Tick w.New (w.only who) _ := .launches plan fresh fresh
    refine .inl (Ticks.shifts (.tail (.single launches) ?_))
    rw [only_note]
    unfold only
    rw [List.filterMap_append, seen_wakes]
    exact .calls 0 h
  | @cancels h known => exact .inl (Ticks.shifts (ticks_cancelAll w [h] who sound _))

variable {current : Option RunId} {who : TaskId}

/-- Other shutdowns do not see more than that all handles are asked to stop. -/
theorem Stop.apart (stop : w.Stop current v) (other : who ≠ w.shutdowns) :
    v.only who = (w.asking w.shutdowns current).only who := by
  have unequal : (w.shutdowns == who) = false := beq_false_of_ne (Ne.symm other)
  cases stop with
  | atOnce _ _ => rfl
  | soon _ =>
    unfold only
    rw [List.filterMap_append, seen_words, List.filter_cons, unequal]
    exact congrArg (Clockwork.mk _ · _) (List.append_nil _)
  | @later u mine _ =>
    unfold only
    rw [← mine] at unequal
    dsimp only
    rw [List.filter_append, List.filter_cons, unequal]
    exact congrArg (fun ws => Clockwork.mk { (w.asking w.shutdowns current).runner with waiters := ws } _ _)
      (List.append_nil _)

/-- Whoever asks sees what a shutdown comes to. -/
theorem Stop.shut (stop : w.Stop none v)
    (sound : ((w.asking w.shutdowns none).only w.shutdowns).Sound) :
    ∃ waits, Clockwork.Shut w.shutdowns ((w.asking w.shutdowns none).only w.shutdowns)
      (v.only w.shutdowns) waits := by
  have found : ∀ x ∈ (w.asking w.shutdowns none).runner.handles, x.ended = false →
      x.id ∈ (w.asking w.shutdowns none).runner.tracked ∧
        (w.asking w.shutdowns none).runner.find? x.id = some x :=
    fun x hx alive => ⟨sound.tracked x hx alive, sound.find hx⟩
  cases stop with
  | atOnce tracked live => exact ⟨_, .nothing tracked (live rfl)⟩
  | soon settled =>
    refine ⟨true, ?_⟩
    have past : Clockwork.Over (fun _ => True) (w.asking w.shutdowns none).runner := by
      refine ⟨fun x hx _ => ?_, fun l hl _ => (settled rfl).runs l hl⟩
      by_contra alive
      obtain ⟨tracked, same⟩ := found x hx (Bool.eq_false_iff.mpr alive)
      exact alive ((settled rfl).handles x.id tracked x same)
    have told : Clockwork.Shut w.shutdowns ((w.asking w.shutdowns none).only w.shutdowns) _ true :=
      .done ⟨past.handles, past.runs⟩
    unfold only
    rw [List.filterMap_append, seen_words, List.filter_cons, beq_self_eq_true]
    exact told
  | @later u mine awaited =>
    refine ⟨true, ?_⟩
    have waited : Clockwork.Waited (fun _ => True) ((w.asking w.shutdowns none).only w.shutdowns).runner u := by
      refine ⟨fun x hx _ alive => ?_, fun l hl _ alive => (awaited rfl).runs l hl alive⟩
      obtain ⟨tracked, same⟩ := found x hx alive
      exact (awaited rfl).handles x.id tracked x same alive
    have waits : Clockwork.Shut w.shutdowns _ _ true := .waits waited
    unfold only at waits ⊢
    dsimp only at waits ⊢
    rw [List.filter_append, List.filter_cons, mine, beq_self_eq_true]
    exact waits

theorem Stop.sound (stop : w.Stop current v) (sound : (w.only who).Sound) : (v.only who).Sound := by
  have asked := (ticks_cancelAll w w.runner.tracked who sound fun _ _ => False).sound sound
  have asked : ((w.asking w.shutdowns current).only who).Sound := asked
  cases stop with
  | atOnce _ _ => exact asked
  | soon _ =>
    unfold only at asked ⊢
    rw [List.filterMap_append, seen_words]
    refine asked.with_calls (fun n id => ?_) (fun n run hr => List.mem_append_left _ hr) asked.asleep
    refine ⟨fun hm => ?_, List.mem_append_left _⟩
    rcases List.mem_append.mp hm with hm | hm
    · exact hm
    · obtain ⟨_, -, he⟩ := Clockwork.mem_told hm
      cases he
  | later _ _ =>
    exact ⟨asked.ids, asked.tracked, asked.known, asked.origins, asked.handles, asked.runs, asked.forgets,
      asked.asleep⟩

/-- Each shutdown that was asked for from outside winds up what had been launched before. -/
structure Watched (w : Bench) : Prop where
  asleep : w.Asleep
  sound : ∀ who, (w.only who).Sound
  quiet : ∀ who, w.shutdowns ≤ who → (w.only who).Quiet
  numbered : ∀ who current, .stopping who current ∈ w.history.events → who < w.shutdowns
  winding : ∀ (since before : History) (t : Binary64) (who : TaskId),
    w.history = since ++ (t, .stopping who none) :: before → (w.only who).Winding before.Launched

theorem asleep_insertTimer {t : Timer Item} {ts : List (Timer Item)}
    (h : ∀ t ∈ ts, t.item = none ∨ ∃ h, t.item = some (.wake h))
    (ht : t.item = none ∨ ∃ h, t.item = some (.wake h)) :
    ∀ u ∈ Agenda.insertTimer t ts, u.item = none ∨ ∃ h, u.item = some (.wake h) := by
  intro u hu
  rcases Agenda.mem_insertTimer.mp hu with rfl | hu
  · exact ht
  · exact h u hu

theorem asleep_pause (h : w.Asleep) (d : Binary64) {item : Item}
    (hi : item = none ∨ ∃ h, item = some (.wake h)) : (w.pause d item).Asleep := by
  unfold pause
  split
  · exact h
  · exact asleep_insertTimer h hi

theorem Act.asleep (act : w.Act v) (h : w.Asleep) : v.Asleep := by
  cases act with
  | rouses due later split _ _ _ => exact fun t ht => h t (split ▸ List.mem_append_right _ ht)
  | pauses delay => exact asleep_pause h delay (.inl rfl)
  | @sleeps x phase span d rest _ _ _ _ _ _ =>
    exact asleep_pause (w := { w with queue := rest, runner := w.runner.setHandle { x with phase } }) h d
      (.inr ⟨_, rfl⟩)
  | stops current stop => cases stop <;> exact h
  | _ => exact h

/-- What an act writes down, if it is no shutdown that is asked for. -/
theorem Act.history_eq (act : w.Act v) : (∃ current, w.Stop current v) ∨ v.shutdowns = w.shutdowns ∧
    (v.history = w.history ∨ ∃ e, v.history = (w.now, e) :: w.history ∧ ∀ who c, e ≠ .stopping who c) := by
  cases act with
  | stops current stop => exact .inl ⟨current, stop⟩
  | pauses delay => exact .inr (by unfold pause; split <;> exact ⟨rfl, .inl rfl⟩)
  | sleeps _ _ _ _ _ _ => exact .inr (by unfold pause; split <;> exact ⟨rfl, .inl rfl⟩)
  | begins _ => exact .inr ⟨rfl, .inr ⟨_, rfl, nofun⟩⟩
  | reports _ => exact .inr ⟨rfl, .inr ⟨_, rfl, nofun⟩⟩
  | starts _ _ _ _ _ => exact .inr ⟨rfl, .inr ⟨_, rfl, nofun⟩⟩
  | runEnds _ _ _ _ => exact .inr ⟨rfl, .inr ⟨_, rfl, nofun⟩⟩
  | launches _ _ => exact .inr ⟨rfl, .inr ⟨_, rfl, nofun⟩⟩
  | cancels _ => exact .inr ⟨rfl, .inr ⟨_, rfl, nofun⟩⟩
  | _ => exact .inr ⟨rfl, .inl rfl⟩

theorem Stop.history_eq (stop : w.Stop current v) : v.shutdowns = w.shutdowns + 1 ∧
    (v.history = (w.now, .stopping w.shutdowns current) :: w.history ∨
      ∃ pending, v.history =
        (w.now, .stopped w.shutdowns pending) :: (w.now, .stopping w.shutdowns current) :: w.history) := by
  cases stop with
  | atOnce _ _ => exact ⟨rfl, .inr ⟨_, rfl⟩⟩
  | soon _ => exact ⟨rfl, .inl rfl⟩
  | later _ _ => exact ⟨rfl, .inl rfl⟩

/-- An event that is no shutdown asked for comes after all that are. -/
theorem split_other {l : History} {t u : Binary64} {e : Event} {since before : History} {who : TaskId}
    {c : Option RunId} (h : (t, e) :: l = since ++ (u, .stopping who c) :: before)
    (other : e ≠ .stopping who c) :
    ∃ since', since = (t, e) :: since' ∧ l = since' ++ (u, .stopping who c) :: before := by
  cases since with
  | nil =>
    cases h
    exact absurd rfl other
  | cons x since =>
    obtain ⟨rfl, rest⟩ := List.cons_eq_cons.mp h
    exact ⟨since, rfl, rest⟩

theorem ticks_asking (w : Bench) (k : TaskId) (current : Option RunId) (sound : (w.only who).Sound)
    (new : HandleId → Plan → Prop) : Ticks new (w.only who) ((w.asking k current).only who) :=
  ticks_cancelAll w w.runner.tracked who sound new

/-- All handles are asked, since those that have not ended are tracked. -/
theorem asked_asking (w : Bench) (k : TaskId) (current : Option RunId) (sound : (w.only who).Sound)
    (id : HandleId) : Clockwork.Asked ((w.asking k current).only who).runner id := by
  have still := (ticks_asking w k current sound fun _ _ => False).sound sound
  obtain ⟨-, unmoved, asked⟩ := Clockwork.cancelAll_asks (fun _ _ => False) w.runner.tracked sound
  have apart := w.runner.cancelAll_apart (w.runner.waiters.filter (·.who == who)) w.runner.tracked
  intro x hx hid alive
  have tracked : x.id ∈ (w.asking k current).runner.tracked := still.tracked x hx alive
  have asked_apart : ∀ h ∈ w.runner.tracked, Clockwork.Asked (w.runner.cancelAll w.runner.tracked).1 h := by
    intro h hh y hy
    have := asked h hh y
    change y ∈ (Runner.cancelAll { w.runner with waiters := _ } w.runner.tracked).1.handles → _ at this
    rw [apart] at this
    exact this hy
  have same : (w.runner.cancelAll w.runner.tracked).1.tracked = w.runner.tracked := by
    have := unmoved.tracked
    change (Runner.cancelAll { w.runner with waiters := _ } w.runner.tracked).1.tracked = _ at this
    rw [apart] at this
    exact this
  exact asked_apart x.id (same ▸ tracked) x hx rfl alive

theorem Stop.watched (stop : w.Stop current v) (h : w.Watched) : v.Watched := by
  obtain ⟨shutdowns, history⟩ := stop.history_eq
  have sound := fun who => stop.sound (h.sound who)
  have earlier : ∀ {since before : History} {t : Binary64} {who : TaskId},
      w.history = since ++ (t, .stopping who none) :: before → (v.only who).Winding before.Launched := by
    intro since before t who heq
    have number : who < w.shutdowns := by
      apply h.numbered who none
      rw [heq]
      exact List.mem_map.mpr ⟨_, List.mem_append_right _ List.mem_cons_self, rfl⟩
    rw [stop.apart (Nat.ne_of_lt number)]
    exact (ticks_asking w _ current (h.sound who) fun _ _ => False).winding (h.sound who)
      (h.winding since before t who heq) fun _ _ => False.elim
  have itself : current = none → ∀ old, (v.only w.shutdowns).Winding old := by
    rintro rfl old
    have ticks := ticks_asking w w.shutdowns none (h.sound w.shutdowns) fun _ _ => False
    have asked := asked_asking w w.shutdowns none (h.sound w.shutdowns)
    have still := ticks.sound (h.sound w.shutdowns)
    obtain ⟨waits, shut⟩ := stop.shut still
    exact shut.winding ((ticks.quiet (h.sound _) (h.quiet _ le_rfl)).winding still asked old)
  have here : ∀ {since before : History} {t : Binary64} {who : TaskId},
      (w.now, .stopping w.shutdowns current) :: w.history = since ++ (t, .stopping who none) :: before →
      (v.only who).Winding before.Launched := by
    intro since before t who heq
    by_cases same : Event.stopping w.shutdowns current = .stopping who none
    · cases same
      exact itself rfl _
    · obtain ⟨since, -, rest⟩ := split_other heq same
      exact earlier rest
  refine ⟨(Act.stops current stop).asleep h.asleep, sound, fun who after => ?_, fun who c hm => ?_,
    fun since before t who heq => ?_⟩
  · rw [shutdowns] at after
    rw [stop.apart (Nat.ne_of_gt after)]
    exact (ticks_asking w _ current (h.sound who) fun _ _ => False).quiet (h.sound who)
      (h.quiet who (Nat.le_of_succ_le after))
  · have number : .stopping who c ∈ History.events ((w.now, .stopping w.shutdowns current) :: w.history) := by
      rcases history with history | ⟨pending, history⟩ <;> rw [history] at hm
      · exact hm
      · exact (List.mem_cons.mp hm).resolve_left nofun
    rw [shutdowns]
    rcases List.mem_cons.mp number with same | hm
    · cases same
      exact Nat.lt_succ_self _
    · exact Nat.lt_succ_of_lt (h.numbered who c hm)
  · rcases history with history | ⟨pending, history⟩ <;> rw [history] at heq
    · exact here heq
    · obtain ⟨since, -, rest⟩ := split_other heq nofun
      exact here rest

theorem Act.watched (act : w.Act v) (h : w.Watched)
    (known : ∀ h plan, .launched h plan ∈ w.history.events → ∃ x ∈ w.runner.handles, x.id = h) : v.Watched := by
  by_cases stops : ∃ current, w.Stop current v
  · obtain ⟨current, stop⟩ := stops
    exact stop.watched h
  obtain ⟨shutdowns, history⟩ := act.history_eq.resolve_left stops
  have shifts : ∀ who, Shifts w.New (w.only who) (v.only who) :=
    fun who => (act.shifts h.asleep who (h.sound who)).resolve_right stops
  refine ⟨act.asleep h.asleep, fun who => (shifts who).sound (h.sound who), fun who after => ?_,
    fun who c hm => ?_, fun since before t who heq => ?_⟩
  · rw [shutdowns] at after
    exact (shifts who).quiet (h.sound who) (h.quiet who after)
  · rw [shutdowns]
    rcases history with same | ⟨e, more, other⟩
    · exact h.numbered who c (same ▸ hm)
    · rw [more] at hm
      exact h.numbered who c ((List.mem_cons.mp hm).resolve_left (other who c).symm)
  · have within : ∃ since, w.history = since ++ (t, .stopping who none) :: before := by
      rcases history with same | ⟨e, more, other⟩
      · exact ⟨since, same ▸ heq⟩
      · obtain ⟨since, -, rest⟩ := split_other (more ▸ heq) (other who none)
        exact ⟨since, rest⟩
    obtain ⟨since, heq⟩ := within
    refine (shifts who).winding (h.sound who) (h.winding since before t who heq) ?_
    rintro id plan fresh ⟨plan', launched⟩
    have launched : .launched id plan' ∈ w.history.events := by
      rw [heq, History.events, List.map_append]
      exact List.mem_append_right _ (List.mem_cons_of_mem _ launched)
    obtain ⟨x, hx, same⟩ := known id plan' launched
    exact fresh x hx same

end Workshop.Bench
end BatteryLink
