import BatteryLink.Proofs.Clock
import Mathlib.Data.List.TakeWhile
/-!
Shutdowns of a runner: when one is over, nothing is left of the handles that were there when it
began, nor of their runs.
-/
namespace BatteryLink

def RunnerCall.isStopped {ω : Type} : RunnerCall ω → Bool
  | .stopped _ => true
  | _ => false

namespace Clockwork

variable {new : HandleId → Plan → Prop} {old : HandleId → Prop} {w : Clockwork}

/-- Calls that were made before anybody was told that a shutdown is over. -/
def early (ready : List (Nat × RunnerCall TaskId)) : List (Nat × RunnerCall TaskId) :=
  ready.takeWhile fun c => !c.2.isStopped

/-- Nobody is being told that a shutdown is over. -/
def Hushed (ready : List (Nat × RunnerCall TaskId)) : Prop := ∀ c ∈ ready, c.2.isStopped = false

theorem Hushed.early {ready : List (Nat × RunnerCall TaskId)} (h : Hushed ready) :
    Clockwork.early ready = ready := by
  rw [Clockwork.early, List.takeWhile_eq_self_iff]
  intro c hc
  rw [h c hc]
  rfl

theorem hushed_append {l more : List (Nat × RunnerCall TaskId)} :
    Hushed (l ++ more) ↔ Hushed l ∧ Hushed more :=
  List.forall_mem_append

theorem Hushed.rest {pre post : List (Nat × RunnerCall TaskId)} {a : Nat × RunnerCall TaskId}
    (h : Hushed (pre ++ a :: post)) : Hushed (pre ++ post) :=
  fun c hc => h c (mem_of_rest hc)

theorem hushed_singleton {c : Nat × RunnerCall TaskId} (hc : c.2.isStopped = false) : Hushed [c] :=
  List.forall_mem_singleton.mpr hc

theorem hushed_told {told : List TaskId}
    (h : ¬ Hushed (told.map fun who => (1, .stopped who))) : ∃ who, who ∈ told := by
  cases told with
  | nil => exact absurd (List.forall_mem_nil _) h
  | cons who told => exact ⟨who, List.mem_cons_self⟩

theorem mem_early_append {l more : List (Nat × RunnerCall TaskId)} {c : Nat × RunnerCall TaskId}
    (h : c ∈ early l) : c ∈ early (l ++ more) := by
  induction l with
  | nil => cases h
  | cons a l ih =>
    unfold early at h ih ⊢
    rw [List.takeWhile_cons] at h
    rw [List.cons_append, List.takeWhile_cons]
    split at h
    · next ha =>
      rw [if_pos ha]
      rcases List.mem_cons.mp h with rfl | h
      · exact List.mem_cons_self
      · exact List.mem_cons_of_mem _ (ih h)
    · cases h

theorem mem_early_new {l more : List (Nat × RunnerCall TaskId)} {c : Nat × RunnerCall TaskId}
    (hl : Hushed l) (hc : c.2.isStopped = false) : c ∈ early (l ++ c :: more) := by
  have hushed : Hushed (l ++ [c]) := hushed_append.mpr ⟨hl, hushed_singleton hc⟩
  have mem : c ∈ early (l ++ [c]) := by
    rw [hushed.early]
    exact List.mem_append_right _ List.mem_cons_self
  have grown : c ∈ early (l ++ [c] ++ more) := mem_early_append mem
  rwa [List.append_assoc] at grown

theorem mem_early_rest {pre post : List (Nat × RunnerCall TaskId)} {a c : Nat × RunnerCall TaskId}
    (h : c ∈ early (pre ++ a :: post)) (other : c ≠ a) : c ∈ early (pre ++ post) := by
  induction pre with
  | nil =>
    unfold early at h
    rw [List.nil_append, List.takeWhile_cons] at h
    split at h
    · rcases List.mem_cons.mp h with h | h
      · exact absurd h other
      · exact h
    · cases h
  | cons b pre ih =>
    unfold early at h ih ⊢
    rw [List.cons_append, List.takeWhile_cons] at h
    rw [List.cons_append, List.takeWhile_cons]
    split at h
    · next hb =>
      rw [if_pos hb]
      rcases List.mem_cons.mp h with rfl | h
      · exact List.mem_cons_self
      · exact List.mem_cons_of_mem _ (ih h)
    · cases h

/-- What was called early stands before any word of the end. -/
theorem mem_of_early {pre post : List (Nat × RunnerCall TaskId)} {n : Nat} {who : TaskId}
    {c : Nat × RunnerCall TaskId} (h : c ∈ early (pre ++ (n, .stopped who) :: post)) : c ∈ pre := by
  induction pre with
  | nil => cases h
  | cons b pre ih =>
    unfold early at h ih
    rw [List.cons_append, List.takeWhile_cons] at h
    split at h
    · rcases List.mem_cons.mp h with rfl | h
      · exact List.mem_cons_self
      · exact List.mem_cons_of_mem _ (ih h)
    · cases h

/-- All old handles and their runs have ended. -/
structure Over (old : HandleId → Prop) (r : Runner TaskId) : Prop where
  handles : ∀ x ∈ r.handles, old x.id → x.ended = true
  runs : ∀ run ∈ r.live, old run.handle → run.ended = true

/-- Those who shut a runner down wait for all old handles and runs. -/
def Waited (old : HandleId → Prop) (r : Runner TaskId) (v : Waiter TaskId) : Prop :=
  (∀ x ∈ r.handles, old x.id → x.ended = false → x.id ∈ v.handles) ∧
    ∀ run ∈ r.live, old run.handle → run.ended = false → run.id ∈ v.runs

/-- The old handles are being wound up. -/
structure Winding (old : HandleId → Prop) (w : Clockwork) : Prop where
  stopping : ∀ x ∈ w.runner.handles, old x.id → x.ended = false → x.stopRequested = true
  waiters : ∀ v ∈ w.runner.waiters, Waited old w.runner v
  told : ¬ Hushed w.ready → Over old w.runner
  handles : ∀ x ∈ w.runner.handles, old x.id → x.ended = true → x.id ∈ w.runner.tracked →
    (0, .forgetHandle x.id) ∈ early w.ready
  runs : ∀ run ∈ w.runner.live, old run.handle → run.ended = true →
    (0, .forgetRun run.id) ∈ early w.ready

/-- Nothing is left of the old handles. -/
structure Gone (old : HandleId → Prop) (r : Runner TaskId) : Prop where
  handles : ∀ id ∈ r.tracked, ¬ old id
  runs : ∀ run ∈ r.live, ¬ old run.handle

/-- When the end of a shutdown is made known, everything old has been forgotten: the calls to do so
were made before, and they wait for no other turn. -/
theorem Winding.gone (sound : w.Sound) (h : w.Winding old) {pre post : List (Nat × RunnerCall TaskId)}
    {n : Nat} {who : TaskId} (heq : w.ready = pre ++ (n, .stopped who) :: post)
    (first : ∀ c ∈ pre, n < c.1) : Gone old w.runner := by
  have loud : ¬ Hushed w.ready := by
    intro hushed
    have := hushed (n, .stopped who) (heq ▸ List.mem_append_right _ List.mem_cons_self)
    cases this
  have past := h.told loud
  have never : ∀ call, (0, call) ∉ early w.ready := by
    intro call hc
    rw [heq] at hc
    exact absurd (first _ (mem_of_early hc)) (Nat.not_lt_zero n)
  constructor
  · intro id hid ho
    obtain ⟨x, hx, rfl⟩ := sound.known id hid
    exact never _ (h.handles x hx ho (past.handles x hx ho) hid)
  · intro run hrun ho
    exact never _ (h.runs run hrun ho (past.runs run hrun ho))

theorem Gone.tick {v : Clockwork} (h : Gone old w.runner) (t : Tick new w v) (sound : w.Sound)
    (fresh : ∀ id plan, new id plan → ¬ old id) : Gone old v.runner := by
  cases t with
  | calls _ _ | sleeps _ | rouses _ _ | takes _ _ _ | marks _ _ _ | ends _ _ _ _ => exact ⟨h.handles, h.runs⟩
  | @launches id plan hn _ =>
    refine ⟨fun i hi => ?_, h.runs⟩
    rcases List.mem_append.mp hi with hi | hi
    · exact h.handles i hi
    · rw [List.mem_singleton.mp hi]
      exact fresh id plan hn
  | @starts x hx alive _ _ =>
    refine ⟨h.handles, fun run hrun => ?_⟩
    rcases List.mem_append.mp hrun with hrun | hrun
    · exact h.runs run hrun
    · rw [List.mem_singleton.mp hrun]
      exact h.handles x.id (sound.tracked x hx alive)
  | @runEnds run wakes waiters told _ =>
    refine ⟨h.handles, fun r hr => ?_⟩
    obtain ⟨o, ho, rfl⟩ := List.mem_map.mp hr
    have := h.runs o ho
    split <;> exact this
  | forgetsHandle _ => exact ⟨fun i hi => h.handles i (List.mem_filter.mp hi).1, h.runs⟩
  | forgetsRun _ => exact ⟨h.handles, fun r hr => h.runs r (List.mem_filter.mp hr).1⟩

variable {r : Runner TaskId} {x y : Handle}

/-- When everything old has ended, a handle that goes on is none of the old ones. -/
theorem Over.young (h : Over old r) (hx : x ∈ r.handles) (alive : x.ended = false) : ¬ old x.id :=
  fun ho => Bool.false_ne_true (alive.symm.trans (h.handles x hx ho))

theorem Over.set (h : Over old r) (young : ¬ old y.id) (waiters : List (Waiter TaskId)) :
    Over old { r.setHandle y with waiters } := by
  refine ⟨fun z hz ho => ?_, h.runs⟩
  rcases mem_setHandle hz with rfl | ⟨hz, -⟩
  · exact absurd ho young
  · exact h.handles z hz ho

theorem Winding.with_calls (h : w.Winding old) {ready : List (Nat × RunnerCall TaskId)}
    {asleep : List (RunnerCall TaskId)} (hushed : Hushed w.ready → Hushed ready)
    (handles : ∀ id, (0, .forgetHandle id) ∈ early w.ready → (0, .forgetHandle id) ∈ early ready)
    (runs : ∀ run, (0, .forgetRun run) ∈ early w.ready → (0, .forgetRun run) ∈ early ready) :
    Winding old { w with ready, asleep } where
  stopping := h.stopping
  waiters := h.waiters
  told := fun loud => h.told fun hu => loud (hushed hu)
  handles := fun x hx ho ended tracked => handles _ (h.handles x hx ho ended tracked)
  runs := fun run hr ho ended => runs _ (h.runs run hr ho ended)

theorem Winding.marks (h : w.Winding old) (hx : x ∈ w.runner.handles) (alive : x.ended = false)
    (goes : x.GoesOn y) : Winding old { w with runner := w.runner.setHandle y } where
  stopping := by
    intro z hz ho hl
    rcases mem_setHandle hz with rfl | ⟨hz, -⟩
    · rw [goes.id] at ho
      exact goes.stop (h.stopping x hx ho alive)
    · exact h.stopping z hz ho hl
  waiters := by
    intro v hv
    refine ⟨fun z hz ho hl => ?_, (h.waiters v hv).2⟩
    rcases mem_setHandle hz with rfl | ⟨hz, -⟩
    · rw [goes.id] at ho ⊢
      exact (h.waiters v hv).1 x hx ho alive
    · exact (h.waiters v hv).1 z hz ho hl
  told := by
    intro loud
    have past := h.told loud
    have young := past.young hx alive
    rw [← goes.id] at young
    exact past.set young w.runner.waiters
  handles := by
    intro z hz ho ended tracked
    rcases mem_setHandle hz with rfl | ⟨hz, -⟩
    · cases goes.alive.symm.trans ended
    · exact h.handles z hz ho ended tracked
  runs := h.runs

theorem Winding.ends (h : w.Winding old) (hx : x ∈ w.runner.handles) (alive : x.ended = false)
    {cancelled : Bool} {waiters : List (Waiter TaskId)} {told : List TaskId}
    (dismissed : Dismissed w.runner.waiters [x.id] [] waiters told) :
    Winding old { w with
      runner := { w.runner.setHandle { x with phase := .ended cancelled } with waiters }
      ready := w.ready ++ (0, .forgetHandle x.id) :: told.map fun who => (1, .stopped who) } where
  stopping := by
    intro z hz ho hl
    rcases mem_setHandle hz with rfl | ⟨hz, -⟩
    · cases hl
    · exact h.stopping z hz ho hl
  waiters := by
    intro v hv
    obtain ⟨u, hu, -, handles, runs⟩ := dismissed.stay v hv
    obtain ⟨uhandles, uruns⟩ := h.waiters u hu
    refine ⟨fun z hz ho hl => ?_, fun run hr ho hl => ?_⟩
    · rcases mem_setHandle hz with rfl | ⟨hz, other⟩
      · cases hl
      · exact handles _ (uhandles z hz ho hl) fun hm => other (List.mem_singleton.mp hm)
    · exact runs _ (uruns run hr ho hl) List.not_mem_nil
  told := by
    intro loud
    by_cases hushed : Hushed w.ready
    · have toldOne : ∃ who, who ∈ told := by
        refine hushed_told fun hu => loud ?_
        exact hushed_append.mpr ⟨hushed, List.forall_mem_cons.mpr ⟨rfl, hu⟩⟩
      obtain ⟨who, hw⟩ := toldOne
      obtain ⟨u, hu, -, handles, runs⟩ := dismissed.leave who hw
      obtain ⟨uhandles, uruns⟩ := h.waiters u hu
      refine ⟨fun z hz ho => ?_, fun run hr ho => ?_⟩
      · rcases mem_setHandle hz with rfl | ⟨hz, other⟩
        · rfl
        · by_contra hl
          have mem := handles _ (uhandles z hz ho (Bool.eq_false_iff.mpr hl))
          exact other (List.mem_singleton.mp mem)
      · by_contra hl
        cases runs _ (uruns run hr ho (Bool.eq_false_iff.mpr hl))
    · have past := h.told hushed
      have young : ¬ old x.id := past.young hx alive
      exact past.set (y := { x with phase := .ended cancelled }) young waiters
  handles := by
    intro z hz ho ended tracked
    rcases mem_setHandle hz with rfl | ⟨hz, -⟩
    · have hushed : Hushed w.ready := by
        by_contra loud
        exact (h.told loud).young hx alive ho
      exact mem_early_new hushed rfl
    · exact mem_early_append (h.handles z hz ho ended tracked)
  runs := fun run hr ho ended => mem_early_append (h.runs run hr ho ended)

/-- Nothing that is new is old. -/
theorem Winding.grow {v : Clockwork} (h : w.Winding old)
    (handles : ∀ z ∈ v.runner.handles, old z.id → z ∈ w.runner.handles)
    (runs : ∀ r ∈ v.runner.live, old r.handle → r ∈ w.runner.live)
    (tracked : ∀ id ∈ v.runner.tracked, old id → id ∈ w.runner.tracked)
    (waiters : v.runner.waiters = w.runner.waiters) (hushed : Hushed w.ready → Hushed v.ready)
    (calls : ∀ c ∈ early w.ready, c ∈ early v.ready) : v.Winding old where
  stopping := fun z hz ho => h.stopping z (handles z hz ho) ho
  waiters := by
    rw [waiters]
    intro u hu
    obtain ⟨uhandles, uruns⟩ := h.waiters u hu
    exact ⟨fun z hz ho => uhandles z (handles z hz ho) ho, fun r hr ho => uruns r (runs r hr ho) ho⟩
  told := by
    intro loud
    have past := h.told fun hu => loud (hushed hu)
    exact ⟨fun z hz ho => past.handles z (handles z hz ho) ho, fun r hr ho => past.runs r (runs r hr ho) ho⟩
  handles := by
    intro z hz ho ended ht
    exact calls _ (h.handles z (handles z hz ho) ho ended (tracked z.id ht ho))
  runs := fun r hr ho ended => calls _ (h.runs r (runs r hr ho) ho ended)

/-- Old handles have been asked to stop, and start no more runs. -/
theorem Winding.starts (h : w.Winding old) (hx : x ∈ w.runner.handles) (alive : x.ended = false)
    (going : x.stopRequested = false) (run : RunId) :
    Winding old { w with
      runner := { w.runner.setHandle { x with phase := .running run } with
        live := w.runner.live ++ [{ id := run, handle := x.id }], nextRun := run + 1 }
      ready := w.ready ++ [(0, .begin run)] } := by
  have young : ¬ old x.id := by
    intro ho
    cases going.symm.trans (h.stopping x hx ho alive)
  apply h.grow
  · intro z hz ho
    rcases mem_setHandle hz with rfl | ⟨hz, -⟩
    · exact absurd ho young
    · exact hz
  · intro r hr ho
    rcases List.mem_append.mp hr with hr | hr
    · exact hr
    · rw [List.mem_singleton.mp hr] at ho
      exact absurd ho young
  · exact fun id ht _ => ht
  · rfl
  · exact fun hu => hushed_append.mpr ⟨hu, hushed_singleton rfl⟩
  · exact fun c hc => mem_early_append hc

theorem mem_markEnded {run : RunId} {l : LiveRun} (h : l ∈ (r.markEnded run).live) :
    ∃ o ∈ r.live, l.id = o.id ∧ l.handle = o.handle ∧
      (l.ended = true ↔ o.ended = true ∨ o.id = run) := by
  obtain ⟨o, ho, hl⟩ := List.mem_map.mp h
  refine ⟨o, ho, ?_⟩
  split at hl
  · next hid =>
    cases hl
    simp [hid]
  · next hid =>
    cases hl
    simp [hid]

theorem Winding.runEnds (h : w.Winding old) {run : RunId} (wakes : List HandleId)
    {waiters : List (Waiter TaskId)} {told : List TaskId}
    (dismissed : Dismissed w.runner.waiters [] [run] waiters told) :
    Winding old { w with
      runner := { w.runner.markEnded run with waiters }
      ready := w.ready ++ (0, .forgetRun run) :: ((wakes.map fun h => (1, .wake h)) ++
        told.map fun who => (1, .stopped who)) } where
  stopping := h.stopping
  waiters := by
    intro v hv
    obtain ⟨u, hu, -, handles, runs⟩ := dismissed.stay v hv
    obtain ⟨uhandles, uruns⟩ := h.waiters u hu
    refine ⟨fun z hz ho hl => handles _ (uhandles z hz ho hl) List.not_mem_nil, fun l hl ho going => ?_⟩
    obtain ⟨o, hmem, id, handle, ended⟩ := mem_markEnded hl
    rw [handle] at ho
    rw [id]
    have going : ¬ (o.ended = true ∨ o.id = run) := by
      rw [← ended, going]
      exact Bool.false_ne_true
    obtain ⟨alive, other⟩ := not_or.mp going
    exact runs _ (uruns o hmem ho (Bool.eq_false_iff.mpr alive)) fun hm => other (List.mem_singleton.mp hm)
  told := by
    intro loud
    by_cases hushed : Hushed w.ready
    · have toldOne : ∃ who, who ∈ told := by
        refine hushed_told fun hu => loud ?_
        refine hushed_append.mpr ⟨hushed, List.forall_mem_cons.mpr ⟨rfl, hushed_append.mpr ⟨?_, hu⟩⟩⟩
        rintro c hc
        obtain ⟨_, -, rfl⟩ := List.mem_map.mp hc
        rfl
      obtain ⟨who, hw⟩ := toldOne
      obtain ⟨u, hu, -, handles, runs⟩ := dismissed.leave who hw
      obtain ⟨uhandles, uruns⟩ := h.waiters u hu
      refine ⟨fun z hz ho => ?_, fun l hl ho => ?_⟩
      · by_contra going
        cases handles _ (uhandles z hz ho (Bool.eq_false_iff.mpr going))
      · obtain ⟨o, hmem, -, handle, ended⟩ := mem_markEnded hl
        rw [handle] at ho
        rw [ended]
        by_contra going
        obtain ⟨alive, other⟩ := not_or.mp going
        have mem := runs _ (uruns o hmem ho (Bool.eq_false_iff.mpr alive))
        exact other (List.mem_singleton.mp mem)
    · have past := h.told hushed
      refine ⟨past.handles, fun l hl ho => ?_⟩
      obtain ⟨o, hmem, -, handle, ended⟩ := mem_markEnded hl
      rw [handle] at ho
      exact ended.mpr (.inl (past.runs o hmem ho))
  handles := fun z hz ho ended tracked => mem_early_append (h.handles z hz ho ended tracked)
  runs := by
    intro l hl ho stands
    obtain ⟨o, hmem, id, handle, ended⟩ := mem_markEnded hl
    rw [handle] at ho
    rw [id]
    cases he : o.ended with
    | true => exact mem_early_append (h.runs o hmem ho he)
    | false =>
      have same : o.id = run := (ended.mp stands).resolve_left (by simp [he])
      have hushed : Hushed w.ready := by
        by_contra loud
        cases he.symm.trans ((h.told loud).runs o hmem ho)
      rw [same]
      exact mem_early_new hushed rfl

theorem Tick.winding {v : Clockwork} (t : Tick new w v) (sound : w.Sound) (h : w.Winding old)
    (fresh : ∀ id plan, new id plan → ¬ old id) : v.Winding old := by
  cases t with
  | calls n id =>
    exact h.with_calls (fun hu => hushed_append.mpr ⟨hu, hushed_singleton rfl⟩)
      (fun _ => mem_early_append) fun _ => mem_early_append
  | sleeps id => exact h.with_calls (fun hu => hu) (fun _ hm => hm) fun _ hm => hm
  | @rouses pre post call n heq =>
    obtain ⟨id, rfl⟩ := sound.asleep call (heq ▸ List.mem_append_right _ List.mem_cons_self)
    exact h.with_calls (fun hu => hushed_append.mpr ⟨hu, hushed_singleton rfl⟩)
      (fun _ => mem_early_append) fun _ => mem_early_append
  | @takes pre post n call heq handle run =>
    refine h.with_calls (fun hu => ?_) (fun id hm => ?_) fun r hm => ?_
    · exact (heq ▸ hu).rest
    · rw [heq] at hm
      apply mem_early_rest hm
      rintro ⟨⟩
      exact handle id rfl
    · rw [heq] at hm
      apply mem_early_rest hm
      rintro ⟨⟩
      exact run r rfl
  | @launches id plan hn _ =>
    have young : ¬ old id := fresh id plan hn
    apply h.grow
    · intro z hz ho
      rcases List.mem_append.mp hz with hz | hz
      · exact hz
      · rw [List.mem_singleton.mp hz] at ho
        exact absurd ho young
    · exact fun r hr _ => hr
    · intro i ht ho
      rcases List.mem_append.mp ht with ht | ht
      · exact ht
      · rw [List.mem_singleton.mp ht] at ho
        exact absurd ho young
    · rfl
    · exact fun hu => hu
    · exact fun c hc => hc
  | marks hx alive goes => exact h.marks hx alive goes
  | ends cancelled hx alive dismissed => exact h.ends hx alive dismissed
  | starts hx alive going _ => exact h.starts hx alive going _
  | runEnds wakes dismissed => exact h.runEnds wakes dismissed
  | @forgetsHandle pre post n id heq =>
    refine ⟨h.stopping, h.waiters, fun loud => ?_, fun z hz ho ended tracked => ?_, fun r hr ho ended => ?_⟩
    · have past := h.told fun hu => loud (heq ▸ hu).rest
      exact ⟨past.handles, past.runs⟩
    · obtain ⟨tracked, other⟩ := List.mem_filter.mp tracked
      have mem := h.handles z hz ho ended tracked
      rw [heq] at mem
      apply mem_early_rest mem
      rintro ⟨⟩
      exact bne_iff_ne.mp other rfl
    · have mem := h.runs r hr ho ended
      rw [heq] at mem
      exact mem_early_rest mem nofun
  | @forgetsRun pre post n run heq =>
    have stays : ∀ r ∈ w.runner.live.filter (·.id != run), r ∈ w.runner.live ∧ r.id ≠ run := by
      intro r hr
      obtain ⟨hr, other⟩ := List.mem_filter.mp hr
      exact ⟨hr, bne_iff_ne.mp other⟩
    refine ⟨h.stopping, fun v hv => ⟨(h.waiters v hv).1, fun r hr => (h.waiters v hv).2 r (stays r hr).1⟩,
      fun loud => ?_, fun z hz ho ended tracked => ?_, fun r hr ho ended => ?_⟩
    · have past := h.told fun hu => loud (heq ▸ hu).rest
      exact ⟨past.handles, fun r hr => past.runs r (stays r hr).1⟩
    · have mem := h.handles z hz ho ended tracked
      rw [heq] at mem
      exact mem_early_rest mem nofun
    · have mem := h.runs r (stays r hr).1 ho ended
      rw [heq] at mem
      apply mem_early_rest mem
      rintro ⟨⟩
      exact (stays r hr).2 rfl

theorem Winding.mono {young : HandleId → Prop} (h : w.Winding old) (fewer : ∀ id, young id → old id) :
    w.Winding young where
  stopping := fun x hx ho => h.stopping x hx (fewer _ ho)
  waiters := fun v hv =>
    ⟨fun x hx ho => (h.waiters v hv).1 x hx (fewer _ ho), fun r hr ho => (h.waiters v hv).2 r hr (fewer _ ho)⟩
  told := fun loud => ⟨fun x hx ho => (h.told loud).handles x hx (fewer _ ho),
    fun r hr ho => (h.told loud).runs r hr (fewer _ ho)⟩
  handles := fun x hx ho => h.handles x hx (fewer _ ho)
  runs := fun r hr ho => h.runs r hr (fewer _ ho)

/-- A handle that has not ended has been asked to stop. -/
def Asked (r : Runner TaskId) (id : HandleId) : Prop :=
  ∀ x ∈ r.handles, x.id = id → x.ended = false → x.stopRequested = true

theorem asked_set {y : Handle} {id : HandleId} (stop : y.stopRequested = true)
    (h : id = y.id ∨ Asked r id) : Asked (r.setHandle y) id := by
  intro z hz hid alive
  rcases mem_setHandle hz with rfl | ⟨hz, other⟩
  · exact stop
  · rcases h with rfl | h
    · exact absurd hid other
    · exact h z hz hid alive

/-- What a request to stop leaves alone. -/
structure Unmoved (r q : Runner TaskId) : Prop where
  tracked : q.tracked = r.tracked
  live : q.live = r.live
  waiters : q.waiters = r.waiters
  asked : ∀ id, Asked r id → Asked q id

theorem unmoved_cancel (r : Runner TaskId) (h : HandleId) : Unmoved r (r.cancel h).1 := by
  unfold Runner.cancel
  split
  · exact ⟨rfl, rfl, rfl, fun _ ha => ha⟩
  · split
    · exact ⟨rfl, rfl, rfl, fun _ ha => ha⟩
    · exact ⟨rfl, rfl, rfl, fun id ha => asked_set rfl (.inr ha)⟩

theorem asked_cancel (sound : w.Sound) (h : HandleId) : Asked (w.runner.cancel h).1 h := by
  unfold Runner.cancel
  cases hx : w.runner.find? h with
  | none =>
    intro x hx' hid _
    have := List.find?_eq_none.mp hx x hx'
    rw [hid] at this
    exact absurd (beq_self_eq_true h) this
  | some x =>
    obtain ⟨mem, hid⟩ := mem_of_find? hx
    dsimp only
    split
    · next ended =>
      intro y hy hidy alive
      rw [sound.unique hy mem (hidy.trans hid.symm), ended] at alive
      cases alive
    · exact asked_set rfl (.inl hid.symm)

theorem Ticks.sound {v : Clockwork} (t : Ticks new w v) (h : w.Sound) : v.Sound := by
  induction t with
  | refl => exact h
  | tail _ t ih => exact t.sound ih

theorem Sound.find (h : w.Sound) (hx : x ∈ w.runner.handles) : w.runner.find? x.id = some x := by
  have found : (w.runner.find? x.id).isSome := List.find?_isSome.mpr ⟨x, hx, beq_self_eq_true x.id⟩
  obtain ⟨y, hy⟩ := Option.isSome_iff_exists.mp found
  obtain ⟨mem, id⟩ := mem_of_find? hy
  rw [hy, h.unique mem hx id]

theorem cancelAll_asks (new : HandleId → Plan → Prop) (hs : List HandleId) (sound : w.Sound) :
    Ticks new w (w.after (w.runner.cancelAll hs).1 (w.runner.cancelAll hs).2) ∧
      Unmoved w.runner (w.runner.cancelAll hs).1 ∧ ∀ h ∈ hs, Asked (w.runner.cancelAll hs).1 h := by
  induction hs generalizing w with
  | nil =>
    refine ⟨?_, ⟨rfl, rfl, rfl, fun _ ha => ha⟩, nofun⟩
    unfold Runner.cancelAll
    rw [after_none]
  | cons h hs ih =>
    have first : Ticks new w _ := ticks_cancel h
    have unmoved := unmoved_cancel w.runner h
    have asked := asked_cancel sound h
    obtain ⟨ticks, rest, all⟩ := ih (first.sound sound)
    unfold Runner.cancelAll
    dsimp only
    rw [after_append]
    refine ⟨first.trans ticks, ⟨rest.tracked.trans unmoved.tracked, rest.live.trans unmoved.live,
      rest.waiters.trans unmoved.waiters, fun id ha => rest.asked id (unmoved.asked id ha)⟩, ?_⟩
    exact List.forall_mem_cons.mpr ⟨rest.asked h asked, all⟩

/-- What a shutdown comes to once all handles have been asked to stop. -/
inductive Shut (who : TaskId) (w : Clockwork) : Clockwork → Bool → Prop
  | nothing : w.runner.tracked = [] → w.runner.live = [] → Shut who w w false
  | done : Over (fun _ => True) w.runner →
      Shut who w { w with ready := w.ready ++ [(1, .stopped who)] } true
  | waits {v : Waiter TaskId} : Waited (fun _ => True) w.runner v → Shut who w { w with
      runner := { w.runner with waiters := w.runner.waiters ++ [v] } } true

theorem shutdown_cases (new : HandleId → Plan → Prop) (sound : w.Sound) (who : TaskId) :
    ∃ v, Ticks new w v ∧ (∀ id, Asked v.runner id) ∧
      Shut who v (w.after (w.runner.shutdown who none).1 (w.runner.shutdown who none).2.1)
        (w.runner.shutdown who none).2.2 := by
  obtain ⟨ticks, unmoved, asked⟩ := cancelAll_asks new w.runner.tracked sound
  refine ⟨_, ticks, ?_, ?_⟩
  · intro id x hx hid alive
    have tracked := (ticks.sound sound).tracked x hx alive
    have tracked : x.id ∈ w.runner.tracked := unmoved.tracked ▸ tracked
    exact asked x.id tracked x hx rfl alive
  · have sound := ticks.sound sound
    unfold Runner.shutdown
    generalize w.runner.cancelAll w.runner.tracked = p at ticks unmoved asked sound
    obtain ⟨r, calls⟩ := p
    dsimp only at sound ⊢
    have all : (r.live.filter fun x => some x.id != none) = r.live :=
      List.filter_eq_self.mpr fun x _ => rfl
    have left : ∀ x ∈ r.handles, x.ended = false →
        x.id ∈ r.tracked.filter fun h => (r.find? h).any fun x => !x.ended := by
      intro x hx alive
      have found : r.find? x.id = some x := sound.find hx
      refine List.mem_filter.mpr ⟨sound.tracked x hx alive, ?_⟩
      rw [found, Option.any_some, alive]
      rfl
    have running : ∀ l ∈ r.live, l.ended = false →
        l.id ∈ (r.live.filter fun x => !x.ended).map (·.id) := by
      intro l hl alive
      refine List.mem_map_of_mem (List.mem_filter.mpr ⟨hl, ?_⟩)
      rw [alive]
      rfl
    rw [all]
    split
    · next none =>
      obtain ⟨tracked, live⟩ := Bool.and_eq_true_iff.mp none
      exact .nothing (List.isEmpty_iff.mp tracked) (List.isEmpty_iff.mp live)
    · split
      · next none =>
        obtain ⟨handles, runs⟩ := Bool.and_eq_true_iff.mp none
        rw [List.isEmpty_iff.mp handles] at left
        rw [List.isEmpty_iff.mp runs] at running
        dsimp only
        rw [after_append, after_post]
        refine .done ⟨fun x hx _ => ?_, fun l hl _ => ?_⟩
        · by_contra alive
          cases left x hx (Bool.eq_false_iff.mpr alive)
        · by_contra alive
          cases running l hl (Bool.eq_false_iff.mpr alive)
      · exact .waits ⟨fun x hx _ alive => left x hx alive, fun l hl _ alive => running l hl alive⟩

namespace Shut

variable {who : TaskId} {v : Clockwork} {waits : Bool}

theorem handles (h : Shut who w v waits) : v.runner.handles = w.runner.handles := by
  cases h <;> rfl

theorem tracked (h : Shut who w v waits) : v.runner.tracked = w.runner.tracked := by
  cases h <;> rfl

theorem live (h : Shut who w v waits) : v.runner.live = w.runner.live := by
  cases h <;> rfl

theorem sound (h : Shut who w v waits) (sound : w.Sound) : v.Sound := by
  cases h with
  | nothing _ _ => exact sound
  | done _ => exact sound.with_calls (by simp) (by simp) sound.asleep
  | waits _ => exact ⟨sound.1, sound.2, sound.3, sound.4, sound.5, sound.6, sound.7, sound.8⟩

end Shut

/-- A shutdown winds up the handles that were being wound up, and all others as well if nobody had
shut the runner down before. -/
theorem Shut.winding {who : TaskId} {v : Clockwork} {waits : Bool} (shut : Shut who w v waits)
    (h : w.Winding old) : v.Winding old := by
  cases shut with
  | nothing _ _ => exact h
  | done past =>
    refine ⟨h.stopping, h.waiters, fun _ => ?_, fun x hx ho ended tracked => ?_, fun r hr ho ended => ?_⟩
    · exact ⟨fun x hx _ => past.handles x hx trivial, fun r hr _ => past.runs r hr trivial⟩
    · exact mem_early_append (h.handles x hx ho ended tracked)
    · exact mem_early_append (h.runs r hr ho ended)
  | waits waited =>
    refine ⟨h.stopping, fun v hv => ?_, fun loud => ?_, h.handles, h.runs⟩
    · rcases List.mem_append.mp hv with hv | hv
      · exact h.waiters v hv
      · rw [List.mem_singleton.mp hv]
        exact ⟨fun x hx _ => waited.1 x hx trivial, fun r hr _ => waited.2 r hr trivial⟩
    · exact ⟨(h.told loud).handles, (h.told loud).runs⟩

/-- Nobody has shut the runner down. -/
structure Quiet (w : Clockwork) : Prop where
  waiters : w.runner.waiters = []
  hushed : Hushed w.ready

theorem Quiet.winding (h : w.Quiet) (sound : w.Sound) (asked : ∀ id, Asked w.runner id)
    (old : HandleId → Prop) : w.Winding old where
  stopping := fun x hx _ alive => asked x.id x hx rfl alive
  waiters := by
    rw [h.waiters]
    exact List.forall_mem_nil _
  told := fun loud => absurd h.hushed loud
  handles := by
    rw [h.hushed.early]
    exact fun x hx _ => sound.handles x hx
  runs := by
    rw [h.hushed.early]
    exact fun r hr _ => sound.runs r hr

theorem Tick.quiet {v : Clockwork} (t : Tick new w v) (sound : w.Sound) (h : w.Quiet) : v.Quiet := by
  have more : ∀ {c : Nat × RunnerCall TaskId}, c.2.isStopped = false → Hushed (w.ready ++ [c]) :=
    fun hc => hushed_append.mpr ⟨h.hushed, hushed_singleton hc⟩
  have alone : ∀ {hs : List HandleId} {runs : List RunId} {waiters : List (Waiter TaskId)}
      {told : List TaskId}, Dismissed w.runner.waiters hs runs waiters told → waiters = [] ∧ told = [] := by
    intro hs runs waiters told dismissed
    rw [h.waiters] at dismissed
    constructor
    · apply List.eq_nil_iff_forall_not_mem.mpr
      intro v hv
      obtain ⟨u, hu, -⟩ := dismissed.stay v hv
      cases hu
    · apply List.eq_nil_iff_forall_not_mem.mpr
      intro who hw
      obtain ⟨u, hu, -⟩ := dismissed.leave who hw
      cases hu
  cases t with
  | calls n id => exact ⟨h.waiters, more rfl⟩
  | sleeps id => exact ⟨h.waiters, h.hushed⟩
  | @rouses pre post call n heq =>
    obtain ⟨id, rfl⟩ := sound.asleep call (heq ▸ List.mem_append_right _ List.mem_cons_self)
    exact ⟨h.waiters, more rfl⟩
  | takes heq _ _ => exact ⟨h.waiters, (heq ▸ h.hushed).rest⟩
  | launches _ _ _ => exact ⟨h.waiters, h.hushed⟩
  | marks _ _ _ => exact ⟨h.waiters, h.hushed⟩
  | ends _ _ _ dismissed =>
    obtain ⟨rfl, rfl⟩ := alone dismissed
    exact ⟨rfl, more rfl⟩
  | starts _ _ _ _ => exact ⟨h.waiters, more rfl⟩
  | runEnds wakes dismissed =>
    obtain ⟨rfl, rfl⟩ := alone dismissed
    refine ⟨rfl, hushed_append.mpr ⟨h.hushed, List.forall_mem_cons.mpr ⟨rfl, ?_⟩⟩⟩
    rw [List.map_nil, List.append_nil]
    intro c hc
    obtain ⟨_, -, rfl⟩ := List.mem_map.mp hc
    rfl
  | forgetsHandle heq => exact ⟨h.waiters, (heq ▸ h.hushed).rest⟩
  | forgetsRun heq => exact ⟨h.waiters, (heq ▸ h.hushed).rest⟩

end Clockwork
end BatteryLink
