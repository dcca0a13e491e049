import BatteryLink.Proofs.Crowd
import Mathlib.Data.List.Nodup
import Mathlib.Logic.Relation
/-!
The runner of a session with its calls. Everything that it does is made of a few ticks; what holds
of handles, runs and calls is kept by every tick.
-/
namespace BatteryLink

/-- A handle has gone on: it has not ended, and a request to stop is not forgotten. -/
structure Handle.GoesOn (x y : Handle) : Prop where
  id : y.id = x.id
  plan : y.plan = x.plan
  alive : y.ended = false
  stop : x.stopRequested = true → y.stopRequested = true
  phase : y.phase = x.phase ∨ (x.phase = .starting ∧ y.phase = .delayed) ∨
    (y.phase = .resting ∧ y.plan.recurs = true)

def Runner.markEnded {ω : Type} (r : Runner ω) (run : RunId) : Runner ω :=
  { r with live := r.live.map fun x => if x.id = run then { x with ended := true } else x }

namespace Clockwork

/-- What becomes of waiters when some handles and runs have ended: those that wait for nothing more
are told so. -/
structure Dismissed (old : List (Waiter TaskId)) (handles : List HandleId) (runs : List RunId)
    (waiters : List (Waiter TaskId)) (told : List TaskId) : Prop where
  stay : ∀ v ∈ waiters, ∃ u ∈ old, v.who = u.who ∧ (∀ h ∈ u.handles, h ∉ handles → h ∈ v.handles) ∧
    ∀ run ∈ u.runs, run ∉ runs → run ∈ v.runs
  leave : ∀ who ∈ told, ∃ u ∈ old, u.who = who ∧ (∀ h ∈ u.handles, h ∈ handles) ∧
    ∀ run ∈ u.runs, run ∈ runs

/-- What a clockwork does at a time. The handles that are launched are `new`. -/
inductive Tick (new : HandleId → Plan → Prop) (w : Clockwork) : Clockwork → Prop
  | calls (n : Nat) (h : HandleId) : Tick new w { w with ready := w.ready ++ [(n, .wake h)] }
  | sleeps (h : HandleId) : Tick new w { w with asleep := w.asleep ++ [.wake h] }
  | rouses {pre post : List (RunnerCall TaskId)} {call : RunnerCall TaskId} (n : Nat) :
      w.asleep = pre ++ call :: post →
      Tick new w { w with ready := w.ready ++ [(n, call)], asleep := pre ++ post }
  | takes {pre post : List (Nat × RunnerCall TaskId)} {n : Nat} {call : RunnerCall TaskId} :
      w.ready = pre ++ (n, call) :: post → (∀ id, call ≠ .forgetHandle id) →
      (∀ run, call ≠ .forgetRun run) → Tick new w { w with ready := pre ++ post }
  | launches {id : HandleId} (plan : Plan) : new id plan → (∀ x ∈ w.runner.handles, x.id ≠ id) →
      Tick new w { w with runner := { w.runner with
        handles := w.runner.handles ++ [{ id, plan }], tracked := w.runner.tracked ++ [id] } }
  | marks {x y : Handle} : x ∈ w.runner.handles → x.ended = false → x.GoesOn y →
      Tick new w { w with runner := w.runner.setHandle y }
  | ends {x : Handle} (cancelled : Bool) {waiters : List (Waiter TaskId)} {told : List TaskId} :
      x ∈ w.runner.handles → x.ended = false → Dismissed w.runner.waiters [x.id] [] waiters told →
      Tick new w { w with
        runner := { w.runner.setHandle { x with phase := .ended cancelled } with waiters }
        ready := w.ready ++ (0, .forgetHandle x.id) :: told.map fun who => (1, .stopped who) }
  | starts {x : Handle} : x ∈ w.runner.handles → x.ended = false → x.stopRequested = false →
      (∀ run, x.phase ≠ .running run) → Tick new w { w with
        runner := { w.runner.setHandle { x with phase := .running w.runner.nextRun } with
          live := w.runner.live ++ [{ id := w.runner.nextRun, handle := x.id }]
          nextRun := w.runner.nextRun + 1 }
        ready := w.ready ++ [(0, .begin w.runner.nextRun)] }
  | runEnds {run : RunId} (wakes : List HandleId) {waiters : List (Waiter TaskId)}
      {told : List TaskId} : Dismissed w.runner.waiters [] [run] waiters told → Tick new w { w with
        runner := { w.runner.markEnded run with waiters }
        ready := w.ready ++ (0, .forgetRun run) :: ((wakes.map fun h => (1, .wake h)) ++
          told.map fun who => (1, .stopped who)) }
  | forgetsHandle {pre post : List (Nat × RunnerCall TaskId)} {n : Nat} {id : HandleId} :
      w.ready = pre ++ (n, .forgetHandle id) :: post →
      Tick new w { w with ready := pre ++ post, runner := w.runner.forgetHandle id }
  | forgetsRun {pre post : List (Nat × RunnerCall TaskId)} {n : Nat} {run : RunId} :
      w.ready = pre ++ (n, .forgetRun run) :: post →
      Tick new w { w with ready := pre ++ post, runner := w.runner.forgetRun run }

abbrev Ticks (new : HandleId → Plan → Prop) : Clockwork → Clockwork → Prop :=
  Relation.ReflTransGen (Tick new)

variable {new : HandleId → Plan → Prop} {w : Clockwork}

theorem after_none (w : Clockwork) (r : Runner TaskId) : w.after r [] = { w with runner := r } := by
  simp [after]

theorem after_post (w : Clockwork) (r : Runner TaskId) (n : Nat) (call : RunnerCall TaskId) :
    w.after r [.post n call] = { w with runner := r, ready := w.ready ++ [(n, call)] } := by
  simp [after, waiting, sleeping]

theorem after_pause (w : Clockwork) (r : Runner TaskId) (d : Binary64) (call : RunnerCall TaskId) :
    w.after r [.pause d call] = { w with runner := r, asleep := w.asleep ++ [call] } := by
  simp [after, waiting, sleeping]

theorem after_append (w : Clockwork) (r : Runner TaskId) (calls more : Runner.Calls TaskId) :
    w.after r (calls ++ more) = (w.after r calls).after r more := by
  simp [after]

theorem mem_of_find? {r : Runner TaskId} {h : HandleId} {x : Handle} (hx : r.find? h = some x) :
    x ∈ r.handles ∧ x.id = h :=
  ⟨List.mem_of_find?_eq_some hx, by simpa using List.find?_some hx⟩

theorem ticks_launch {id : HandleId} (plan : Plan) (hn : new id plan)
    (fresh : ∀ x ∈ w.runner.handles, x.id ≠ id) :
    Ticks new w (w.after (w.runner.launch id plan).1 (w.runner.launch id plan).2) := by
  have launched := Relation.ReflTransGen.single (Tick.launches plan hn fresh)
  unfold Runner.launch
  rw [after_post]
  exact launched.tail (.calls 0 id)

theorem ticks_cancel (h : HandleId) :
    Ticks new w (w.after (w.runner.cancel h).1 (w.runner.cancel h).2.1) := by
  unfold Runner.cancel
  cases hx : w.runner.find? h with
  | none =>
    dsimp only
    rw [after_none]
  | some x =>
    obtain ⟨mem, -⟩ := mem_of_find? hx
    dsimp only
    split
    · rw [after_none]
    · next hy =>
      have alive := Bool.eq_false_iff.mpr hy
      have goes : x.GoesOn { x with stopRequested := true } := ⟨rfl, rfl, alive, fun _ => rfl, .inl rfl⟩
      rw [after_post]
      exact (Relation.ReflTransGen.single (.marks mem alive goes)).tail (.calls 0 h)

/-- Those who wait for nothing more are called one turn later. -/
theorem dismiss_eq (r : Runner TaskId) (hs : List HandleId) (runs : List RunId) :
    ∃ waiters told, Dismissed r.waiters hs runs waiters told ∧
      r.dismiss hs runs = ({ r with waiters }, told.map fun who => .post 1 (.stopped who)) := by
  unfold Runner.dismiss
  dsimp only
  generalize hw : (r.waiters.map fun w => { w with
    handles := w.handles.filter fun h => !hs.contains h
    runs := w.runs.filter fun x => !runs.contains x }) = ws
  have from_old : ∀ v ∈ ws, ∃ u ∈ r.waiters, v.who = u.who ∧
      (∀ h, h ∈ v.handles ↔ h ∈ u.handles ∧ h ∉ hs) ∧ ∀ x, x ∈ v.runs ↔ x ∈ u.runs ∧ x ∉ runs := by
    intro v hv
    rw [← hw] at hv
    obtain ⟨u, hu, rfl⟩ := List.mem_map.mp hv
    exact ⟨u, hu, rfl, by simp, by simp⟩
  refine ⟨ws.filter fun w => !(w.handles.isEmpty && w.runs.isEmpty),
    (ws.filter fun w => w.handles.isEmpty && w.runs.isEmpty).map (·.who), ⟨?_, ?_⟩, ?_⟩
  · intro v hv
    obtain ⟨u, hu, who, handles, runs⟩ := from_old v (List.mem_filter.mp hv).1
    exact ⟨u, hu, who, fun h hh away => (handles h).mpr ⟨hh, away⟩,
      fun x hx away => (runs x).mpr ⟨hx, away⟩⟩
  · intro who hwho
    obtain ⟨v, hv, rfl⟩ := List.mem_map.mp hwho
    obtain ⟨mem, free⟩ := List.mem_filter.mp hv
    obtain ⟨no_handles, no_runs⟩ := Bool.and_eq_true_iff.mp free
    obtain ⟨u, hu, who, handles, runs⟩ := from_old v mem
    rw [List.isEmpty_iff.mp no_handles] at handles
    rw [List.isEmpty_iff.mp no_runs] at runs
    refine ⟨u, hu, who.symm, fun h hh => ?_, fun x hx => ?_⟩
    · by_contra away
      cases (handles h).mpr ⟨hh, away⟩
    · by_contra away
      cases (runs x).mpr ⟨hx, away⟩
  · rw [List.map_map]
    rfl

theorem tick_finish {x : Handle} (hx : x ∈ w.runner.handles) (alive : x.ended = false)
    (cancelled : Bool) :
    Tick new w (w.after (w.runner.finishHandle x cancelled).1 (w.runner.finishHandle x cancelled).2) := by
  obtain ⟨waiters, told, dismissed, h⟩ :=
    dismiss_eq (w.runner.setHandle { x with phase := .ended cancelled }) [x.id] []
  have tick : Tick new w _ := .ends cancelled hx alive dismissed
  unfold Runner.finishHandle
  rw [h]
  simpa [after, waiting, sleeping, List.filterMap_cons, Function.comp_def] using tick

theorem ticks_sleep {x : Handle} (hx : x ∈ w.runner.handles) (alive : x.ended = false) {phase : Phase}
    (span : Span) (goes : x.GoesOn { x with phase }) :
    Ticks new w (w.after (w.runner.sleep x phase span).1 (w.runner.sleep x phase span).2) := by
  unfold Runner.sleep
  split
  · rw [after_pause]
    exact (Relation.ReflTransGen.single (.marks hx alive goes)).tail (.sleeps x.id)
  · exact .single (tick_finish hx alive false)

theorem tick_start {x : Handle} (hx : x ∈ w.runner.handles) (alive : x.ended = false)
    (going : x.stopRequested = false) (idle : ∀ run, x.phase ≠ .running run) :
    Tick new w (w.after (w.runner.startRun x).1 (w.runner.startRun x).2) := by
  unfold Runner.startRun
  dsimp only
  rw [after_post]
  exact .starts hx alive going idle

theorem ticks_proceed {x : Handle} (hx : x ∈ w.runner.handles) (alive : x.ended = false)
    (going : x.stopRequested = false) :
    Ticks new w (w.after (w.runner.proceed x).1 (w.runner.proceed x).2) := by
  unfold Runner.proceed
  split
  · next hp _ =>
    exact ticks_sleep hx alive _ ⟨rfl, rfl, rfl, id, .inr (.inl ⟨hp, rfl⟩)⟩
  · next hp _ => exact .single (tick_start hx alive going (by rw [hp]; nofun))
  · next hp => exact .single (tick_start hx alive going (by rw [hp]; nofun))
  · next hp => exact .single (tick_start hx alive going (by rw [hp]; nofun))
  · next hp hplan =>
    exact ticks_sleep hx alive _ ⟨rfl, rfl, rfl, id, .inr (.inr ⟨rfl, by rw [hplan]; rfl⟩)⟩
  · exact .single (tick_finish hx alive false)
  · rw [after_none]

theorem ticks_wake (h : HandleId) : Ticks new w (w.after (w.runner.wake h).1 (w.runner.wake h).2) := by
  unfold Runner.wake
  cases hx : w.runner.find? h with
  | none =>
    dsimp only
    rw [after_none]
  | some x =>
    obtain ⟨mem, -⟩ := mem_of_find? hx
    dsimp only
    split
    · rw [after_none]
    · next hy =>
      have alive := Bool.eq_false_iff.mpr hy
      split
      · exact .single (tick_finish mem alive true)
      · next hs => exact ticks_proceed mem alive (Bool.eq_false_iff.mpr hs)

/-- The end of a run wakes the handle that waits for it. -/
theorem tick_endRun (run : RunId) :
    Tick new w (w.after (w.runner.endRun run false).1 (w.runner.endRun run false).2) := by
  obtain ⟨waiters, told, dismissed, h⟩ := dismiss_eq (w.runner.markEnded run) [] [run]
  have ended : w.runner.endRun run false = ({ w.runner.markEnded run with waiters },
      .post 0 (.forgetRun run) :: (((w.runner.waitingFor? run).toList.map fun h => .post 1 (.wake h.id)) ++
        told.map fun who => .post 1 (.stopped who))) := by
    have waiting : (w.runner.markEnded run).waitingFor? run = w.runner.waitingFor? run := rfl
    unfold Runner.endRun
    dsimp only
    rw [← waiting]
    unfold Runner.markEnded at h ⊢
    split
    · next hw =>
      rw [h, hw]
      rfl
    · next hw =>
      rw [if_neg Bool.false_ne_true, h, hw]
      rfl
  have tick : Tick new w _ := .runEnds ((w.runner.waitingFor? run).toList.map (·.id)) dismissed
  rw [ended]
  simpa [after, waiting, sleeping, List.filterMap_cons, List.filterMap_append, Function.comp_def] using tick

/-- Handles that have not ended are tracked, and what has ended is going to be forgotten. -/
structure Sound (w : Clockwork) : Prop where
  ids : (w.runner.handles.map fun x => x.id).Nodup
  tracked : ∀ x ∈ w.runner.handles, x.ended = false → x.id ∈ w.runner.tracked
  known : ∀ id ∈ w.runner.tracked, ∃ x ∈ w.runner.handles, x.id = id
  origins : ∀ run ∈ w.runner.live, ∃ x ∈ w.runner.handles, x.id = run.handle
  handles : ∀ x ∈ w.runner.handles, x.ended = true → x.id ∈ w.runner.tracked →
    (0, .forgetHandle x.id) ∈ w.ready
  runs : ∀ run ∈ w.runner.live, run.ended = true → (0, .forgetRun run.id) ∈ w.ready
  forgets : ∀ n id, (n, .forgetHandle id) ∈ w.ready → ∃ x ∈ w.runner.handles, x.id = id ∧ x.ended = true
  asleep : ∀ call ∈ w.asleep, ∃ h, call = .wake h

theorem sound_empty : Sound {} where
  ids := List.nodup_nil
  tracked := List.forall_mem_nil _
  known := List.forall_mem_nil _
  origins := List.forall_mem_nil _
  handles := List.forall_mem_nil _
  runs := List.forall_mem_nil _
  forgets := by
    intro n id h
    cases h
  asleep := List.forall_mem_nil _

theorem mem_setHandle {r : Runner TaskId} {y z : Handle} (h : z ∈ (r.setHandle y).handles) :
    z = y ∨ (z ∈ r.handles ∧ z.id ≠ y.id) := by
  obtain ⟨x, hx, hz⟩ := List.mem_map.mp h
  split at hz
  · exact .inl hz.symm
  · next hid =>
    cases hz
    exact .inr ⟨hx, hid⟩

theorem setHandle_ids (r : Runner TaskId) (y : Handle) :
    (r.setHandle y).handles.map (fun x => x.id) = r.handles.map fun x => x.id := by
  unfold Runner.setHandle
  rw [List.map_map]
  apply List.map_congr_left
  intro x _
  rw [Function.comp_apply]
  split
  · next h => exact h.symm
  · rfl

/-- Every handle is still there, in one form or another. -/
theorem exists_setHandle {r : Runner TaskId} {y : Handle} {id : HandleId}
    (h : ∃ x ∈ r.handles, x.id = id) : ∃ x ∈ (r.setHandle y).handles, x.id = id := by
  have mem : id ∈ (r.setHandle y).handles.map fun x => x.id := by
    rw [setHandle_ids]
    exact List.mem_map.mpr h
  exact List.mem_map.mp mem

theorem mem_setHandle_of_ne {r : Runner TaskId} {y z : Handle} (hz : z ∈ r.handles) (other : z.id ≠ y.id) :
    z ∈ (r.setHandle y).handles :=
  List.mem_map.mpr ⟨z, hz, if_neg other⟩

theorem Sound.unique (h : w.Sound) {x y : Handle} (hx : x ∈ w.runner.handles)
    (hy : y ∈ w.runner.handles) (id : x.id = y.id) : x = y :=
  List.inj_on_of_nodup_map h.ids hx hy id

/-- Calls that forget nothing may come and go. -/
theorem Sound.with_calls (h : w.Sound) {ready : List (Nat × RunnerCall TaskId)}
    {asleep : List (RunnerCall TaskId)}
    (handles : ∀ n id, (n, .forgetHandle id) ∈ ready ↔ (n, .forgetHandle id) ∈ w.ready)
    (runs : ∀ n run, (n, .forgetRun run) ∈ w.ready → (n, .forgetRun run) ∈ ready)
    (wakes : ∀ call ∈ asleep, ∃ h, call = .wake h) : { w with ready, asleep }.Sound where
  ids := h.ids
  tracked := h.tracked
  known := h.known
  origins := h.origins
  handles := fun x hx ended tracked => (handles _ _).mpr (h.handles x hx ended tracked)
  runs := fun run hrun ended => runs _ _ (h.runs run hrun ended)
  forgets := fun n id hn => h.forgets n id ((handles n id).mp hn)
  asleep := wakes

theorem Sound.set (h : w.Sound) {x y : Handle} (hx : x ∈ w.runner.handles) (alive : x.ended = false)
    (id : y.id = x.id) (waiters : List (Waiter TaskId)) {ready : List (Nat × RunnerCall TaskId)}
    (more : ∀ call ∈ w.ready, call ∈ ready)
    (only : ∀ n id, (n, .forgetHandle id) ∈ ready → (n, .forgetHandle id) ∈ w.ready ∨ id = x.id ∧ y.ended = true)
    (ends : y.ended = true → (0, .forgetHandle x.id) ∈ ready) :
    { w with runner := { w.runner.setHandle y with waiters }, ready }.Sound where
  ids := by
    change ((w.runner.setHandle y).handles.map fun x => x.id).Nodup
    rw [setHandle_ids]
    exact h.ids
  tracked := by
    intro z hz hl
    rcases mem_setHandle hz with rfl | ⟨hz, -⟩
    · rw [id]
      exact h.tracked x hx alive
    · exact h.tracked z hz hl
  known := fun i hi => exists_setHandle (h.known i hi)
  origins := fun run hrun => exists_setHandle (h.origins run hrun)
  handles := by
    intro z hz ended tracked
    rcases mem_setHandle hz with rfl | ⟨hz, -⟩
    · rw [id]
      exact ends ended
    · exact more _ (h.handles z hz ended tracked)
  runs := fun run hrun ended => more _ (h.runs run hrun ended)
  forgets := by
    intro n i hn
    rcases only n i hn with hn | ⟨rfl, ended⟩
    · obtain ⟨z, hz, rfl, ended⟩ := h.forgets n i hn
      refine ⟨z, mem_setHandle_of_ne hz ?_, rfl, ended⟩
      rw [id]
      intro same
      rw [h.unique hz hx same, alive] at ended
      cases ended
    · exact ⟨y, List.mem_map.mpr ⟨x, hx, if_pos id.symm⟩, id, ended⟩
  asleep := h.asleep

theorem Sound.add_run (h : w.Sound) {x : Handle} (hx : ∃ y ∈ w.runner.handles, y.id = x.id) (run : RunId) :
    Sound { w with
      runner := { w.runner with
        live := w.runner.live ++ [{ id := run, handle := x.id }], nextRun := run + 1 }
      ready := w.ready ++ [(0, .begin run)] } where
  ids := h.ids
  tracked := h.tracked
  known := h.known
  origins := by
    intro r hr
    rcases List.mem_append.mp hr with hr | hr
    · exact h.origins r hr
    · cases List.mem_singleton.mp hr
      exact hx
  handles := fun y hy ended tracked => List.mem_append_left _ (h.handles y hy ended tracked)
  runs := by
    intro r hr ended
    rcases List.mem_append.mp hr with hr | hr
    · exact List.mem_append_left _ (h.runs r hr ended)
    · cases List.mem_singleton.mp hr
      cases ended
  forgets := by
    intro n i hn
    rcases List.mem_append.mp hn with hn | hn
    · exact h.forgets n i hn
    · cases List.mem_singleton.mp hn
  asleep := h.asleep

theorem mem_told {told : List TaskId} {n : Nat} {call : RunnerCall TaskId}
    (h : (n, call) ∈ told.map fun who => ((1, .stopped who) : Nat × RunnerCall TaskId)) :
    ∃ who ∈ told, call = .stopped who := by
  obtain ⟨who, hw, he⟩ := List.mem_map.mp h
  cases he
  exact ⟨who, hw, rfl⟩

theorem mem_rest {pre post : List (Nat × RunnerCall TaskId)} {a b : Nat × RunnerCall TaskId}
    (h : b ∈ pre ++ a :: post) (other : b ≠ a) : b ∈ pre ++ post := by
  rw [List.mem_append, List.mem_cons] at h
  rw [List.mem_append]
  rcases h with h | h | h
  · exact .inl h
  · exact absurd h other
  · exact .inr h

theorem mem_of_rest {α : Type} {pre post : List α} {a b : α} (h : b ∈ pre ++ post) : b ∈ pre ++ a :: post := by
  rw [List.mem_append] at h
  rw [List.mem_append, List.mem_cons]
  exact h.imp id .inr

theorem Sound.add_handle (h : w.Sound) {id : HandleId} (plan : Plan)
    (fresh : ∀ x ∈ w.runner.handles, x.id ≠ id) : Sound { w with runner := { w.runner with
      handles := w.runner.handles ++ [{ id, plan }], tracked := w.runner.tracked ++ [id] } } where
  ids := by
    rw [List.map_append, List.nodup_append]
    refine ⟨h.ids, List.nodup_singleton _, ?_⟩
    intro a ha b hb
    obtain ⟨x, hx, rfl⟩ := List.mem_map.mp ha
    rw [List.mem_singleton.mp hb]
    exact fresh x hx
  tracked := by
    intro x hx alive
    rcases List.mem_append.mp hx with hx | hx
    · exact List.mem_append_left _ (h.tracked x hx alive)
    · cases List.mem_singleton.mp hx
      exact List.mem_append_right _ List.mem_cons_self
  known := by
    intro i hi
    rcases List.mem_append.mp hi with hi | hi
    · obtain ⟨x, hx, hid⟩ := h.known i hi
      exact ⟨x, List.mem_append_left _ hx, hid⟩
    · exact ⟨_, List.mem_append_right _ List.mem_cons_self, (List.mem_singleton.mp hi).symm⟩
  origins := by
    intro run hrun
    obtain ⟨x, hx, hid⟩ := h.origins run hrun
    exact ⟨x, List.mem_append_left _ hx, hid⟩
  handles := by
    intro x hx ended tracked
    rcases List.mem_append.mp hx with hx | hx
    · rcases List.mem_append.mp tracked with ht | ht
      · exact h.handles x hx ended ht
      · exact absurd (List.mem_singleton.mp ht) (fresh x hx)
    · cases List.mem_singleton.mp hx
      cases ended
  runs := h.runs
  forgets := by
    intro n i hn
    obtain ⟨x, hx, rest⟩ := h.forgets n i hn
    exact ⟨x, List.mem_append_left _ hx, rest⟩
  asleep := h.asleep

theorem Sound.end_run (h : w.Sound) (run : RunId) (wakes : List HandleId)
    (waiters : List (Waiter TaskId)) (told : List TaskId) : Sound { w with
      runner := { w.runner.markEnded run with waiters }
      ready := w.ready ++ (0, .forgetRun run) :: ((wakes.map fun h => (1, .wake h)) ++
        told.map fun who => (1, .stopped who)) } where
  ids := h.ids
  tracked := h.tracked
  known := h.known
  origins := by
    intro r hr
    obtain ⟨o, ho, he⟩ := List.mem_map.mp hr
    have handle : r.handle = o.handle := by
      rw [← he]
      split <;> rfl
    rw [handle]
    exact h.origins o ho
  handles := fun x hx ended tracked => List.mem_append_left _ (h.handles x hx ended tracked)
  runs := by
    intro r hr ended
    obtain ⟨o, ho, he⟩ := List.mem_map.mp hr
    split at he
    · next hid =>
      rw [← he, hid]
      exact List.mem_append_right _ List.mem_cons_self
    · cases he
      exact List.mem_append_left _ (h.runs r ho ended)
  forgets := by
    intro n i hn
    rw [List.mem_append, List.mem_cons, List.mem_append] at hn
    rcases hn with hn | hn | hn | hn
    · exact h.forgets n i hn
    · cases hn
    · obtain ⟨_, -, he⟩ := List.mem_map.mp hn
      cases he
    · obtain ⟨who, -, he⟩ := mem_told hn
      cases he
  asleep := h.asleep

/-- Only the call that is taken goes. -/
theorem mem_left {pre post : List (Nat × RunnerCall TaskId)} {a b : Nat × RunnerCall TaskId}
    (taken : w.ready = pre ++ a :: post) (h : b ∈ w.ready) (other : b ≠ a) : b ∈ pre ++ post :=
  mem_rest (taken ▸ h) other

theorem Sound.forget_handle (h : w.Sound) {pre post : List (Nat × RunnerCall TaskId)} {n : Nat}
    {id : HandleId} (taken : w.ready = pre ++ (n, .forgetHandle id) :: post) :
    Sound { w with ready := pre ++ post, runner := w.runner.forgetHandle id } where
  ids := h.ids
  tracked := by
    intro x hx alive
    obtain ⟨z, hz, hid, ended⟩ := h.forgets n id (taken ▸ List.mem_append_right _ List.mem_cons_self)
    refine List.mem_filter.mpr ⟨h.tracked x hx alive, bne_iff_ne.mpr ?_⟩
    rintro rfl
    rw [h.unique hz hx hid, alive] at ended
    cases ended
  known := fun i hi => h.known i (List.mem_filter.mp hi).1
  origins := h.origins
  handles := by
    intro x hx ended tracked
    obtain ⟨tracked, other⟩ := List.mem_filter.mp tracked
    apply mem_left taken (h.handles x hx ended tracked)
    rintro ⟨⟩
    exact bne_iff_ne.mp other rfl
  runs := fun run hrun ended => mem_left taken (h.runs run hrun ended) nofun
  forgets := fun m i hm => h.forgets m i (taken ▸ mem_of_rest hm)
  asleep := h.asleep

theorem Sound.forget_run (h : w.Sound) {pre post : List (Nat × RunnerCall TaskId)} {n : Nat} {run : RunId}
    (taken : w.ready = pre ++ (n, .forgetRun run) :: post) :
    Sound { w with ready := pre ++ post, runner := w.runner.forgetRun run } where
  ids := h.ids
  tracked := h.tracked
  known := h.known
  origins := fun r hr => h.origins r (List.mem_filter.mp hr).1
  handles := fun x hx ended tracked => mem_left taken (h.handles x hx ended tracked) nofun
  runs := by
    intro r hr ended
    obtain ⟨hr, other⟩ := List.mem_filter.mp hr
    apply mem_left taken (h.runs r hr ended)
    rintro ⟨⟩
    exact bne_iff_ne.mp other rfl
  forgets := fun m i hm => h.forgets m i (taken ▸ mem_of_rest hm)
  asleep := h.asleep

/-- Whatever ticks, the clockwork stays sound. -/
theorem Tick.sound {v : Clockwork} (t : Tick new w v) (h : w.Sound) : v.Sound := by
  cases t with
  | calls n id =>
    refine h.with_calls (fun m i => ?_) (fun m r hr => List.mem_append_left _ hr) h.asleep
    simp
  | sleeps id =>
    apply h.with_calls (fun m i => Iff.rfl) (fun m r hr => hr)
    intro call hc
    rcases List.mem_append.mp hc with hc | hc
    · exact h.asleep call hc
    · exact ⟨id, List.mem_singleton.mp hc⟩
  | @rouses pre post call n heq =>
    have mem : call ∈ w.asleep := by
      rw [heq]
      exact List.mem_append_right _ List.mem_cons_self
    obtain ⟨id, rfl⟩ := h.asleep call mem
    refine h.with_calls (fun m i => ?_) (fun m r hr => List.mem_append_left _ hr) fun call hc => ?_
    · simp
    · apply h.asleep call
      rw [heq]
      exact mem_of_rest hc
  | @takes pre post n call heq handle run =>
    refine h.with_calls (fun m i => ?_) (fun m r hr => ?_) h.asleep
    · rw [heq]
      refine ⟨mem_of_rest, fun hm => mem_rest hm ?_⟩
      rintro ⟨⟩
      exact handle i rfl
    · rw [heq] at hr
      apply mem_rest hr
      rintro ⟨⟩
      exact run r rfl
  | launches plan _ fresh => exact h.add_handle plan fresh
  | @marks x y hx alive goes =>
    refine h.set hx alive goes.id w.runner.waiters (fun call hc => hc) (fun n id hn => .inl hn) fun ended => ?_
    cases goes.alive.symm.trans ended
  | @ends x cancelled waiters told hx alive dismissed =>
    refine h.set (y := { x with phase := .ended cancelled }) hx alive rfl
      waiters (fun call hc => List.mem_append_left _ hc) (fun n id hn => ?_) fun _ => ?_
    · rcases List.mem_append.mp hn with hn | hn
      · exact .inl hn
      · rcases List.mem_cons.mp hn with hn | hn
        · cases hn
          exact .inr ⟨rfl, rfl⟩
        · obtain ⟨who, -, he⟩ := mem_told hn
          cases he
    · exact List.mem_append_right _ List.mem_cons_self
  | @starts x hx alive going idle =>
    have running := h.set (y := { x with phase := .running w.runner.nextRun }) hx alive rfl
      w.runner.waiters (fun call hc => hc) (fun n id hn => .inl hn) nofun
    exact running.add_run (x := x) (exists_setHandle ⟨x, hx, rfl⟩) w.runner.nextRun
  | @runEnds run wakes waiters told _ => exact h.end_run run wakes waiters told
  | forgetsHandle taken => exact h.forget_handle taken
  | forgetsRun taken => exact h.forget_run taken

end Clockwork
end BatteryLink
