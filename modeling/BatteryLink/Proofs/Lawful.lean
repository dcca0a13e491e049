import BatteryLink.Proofs.Pace
/-!
Whatever happens in a workshop, its history is lawful: runs are created, begin and end in their time,
and shutdowns are over when they may be.
-/
namespace BatteryLink
namespace Workshop

namespace History

variable {l : History}

theorem Lawful.suffix {since before : History} (h : Lawful (since ++ before)) : before.Lawful := by
  induction since with
  | nil => exact h
  | cons p since ih => exact ih h.2

/-- Runs are created for handles that were launched. -/
theorem Lawful.launched (h : l.Lawful) {run : RunId} {i : HandleId} (hc : .created run i ∈ l.events) :
    l.Launched i := by
  induction l with
  | nil => cases hc
  | cons p l ih =>
    obtain ⟨allowed, earlier⟩ := h
    rcases List.mem_cons.mp hc with same | hc
    · obtain ⟨t, e⟩ := p
      cases same
      obtain ⟨-, plan, start⟩ := allowed
      exact ⟨plan, List.mem_cons_of_mem _ start.launched⟩
    · obtain ⟨plan, hl⟩ := ih earlier hc
      exact ⟨plan, List.mem_cons_of_mem _ hl⟩

/-- A handle that has ended a run has had one created. -/
theorem created_of_lastEnd {h : HandleId} {t : Binary64} (last : lastEnd h l = some t) :
    ∃ run, .created run h ∈ l.events := by
  induction l with
  | nil => cases last
  | cons p l ih =>
    obtain ⟨u, e⟩ := p
    have earlier : lastEnd h l = some t → ∃ run, .created run h ∈ events ((u, e) :: l) := by
      intro last
      obtain ⟨run, hc⟩ := ih last
      exact ⟨run, List.mem_cons_of_mem _ hc⟩
    unfold lastEnd at last
    split at last
    · next run i =>
      split at last
      · cases last
      · exact earlier last
    · next run how =>
      split at last
      · next hc => exact ⟨run, List.mem_cons_of_mem _ hc⟩
      · exact earlier last
    · exact earlier last

end History

namespace Bench

variable {w v : Bench} {x : Handle}

/-- All that holds of a bench. -/
structure InHand (w : Bench) : Prop where
  watched : w.Watched
  roster : w.Roster
  runs : w.Runs
  paced : w.Paced
  lawful : w.history.Lawful

theorem InHand.ids (h : w.InHand) : (w.runner.handles.map fun x => x.id).Nodup := (h.watched.sound 0).ids

/-- A handle that is woken and not asked to stop may start a run, unless it waits for one. -/
theorem InHand.mayStart (h : w.InHand) {rest : List (Nat × Item)}
    (taken : w.queue = (0, some (.wake x.id)) :: rest) (hx : x ∈ w.runner.handles) (alive : x.ended = false)
    (going : x.stopRequested = false) (idle : ∀ run, x.phase ≠ .running run) :
    w.history.MayStart w.now x.id x.plan where
  launched := h.roster.launched x hx
  free := fun asked => by
    rw [h.roster.asked x hx asked alive] at going
    cases going
  alone := fun run => h.runs.idle h.ids hx alive idle
  again := by
    intro run hc
    have woken := woken_pos (taken ▸ List.mem_cons_self : (0, some (.wake x.id)) ∈ w.queue)
    cases h.paced.stage x hx alive going with
    | fresh _ none _ => exact absurd hc (none run)
    | busy phase _ _ _ _ => exact absurd phase (idle _)
    | done phase _ _ _ _ => exact absurd phase (idle _)
    | @resting rest d t phase plan hd last waits =>
      rcases waits with ⟨-, -, comes⟩ | ⟨asleep, -⟩
      · exact ⟨rest, d, t, plan, hd, last, comes⟩
      · omega

/-- Nothing is left of what was there when a shutdown was asked for. -/
theorem InHand.mayStop (h : w.InHand) {since before : History} {t : Binary64} {who : TaskId}
    {current : Option RunId} (heq : w.history = since ++ (t, .stopping who current) :: before)
    (gone : Clockwork.Gone before.Launched w.runner) :
    (∀ run i, .created run i ∈ before.events → w.history.Ended run) ∧
      ((∀ i plan, .launched i plan ∉ since.events) → w.runner.pending = 0) := by
  have events : ∀ e, e ∈ w.history.events ↔
      e ∈ since.events ∨ e = .stopping who current ∨ e ∈ before.events := by
    intro e
    rw [heq, History.events, List.map_append, List.mem_append, List.map_cons, List.mem_cons]
    rfl
  have lawful : before.Lawful := by
    have whole := h.lawful
    rw [heq] at whole
    exact whole.suffix.2
  constructor
  · intro run i hc
    by_contra going
    obtain ⟨l, hl, -, handle, -⟩ := h.runs.counted run i ((events _).mpr (.inr (.inr hc))) going
    exact gone.runs l hl (handle ▸ lawful.launched hc)
  · intro none
    have old : ∀ x ∈ w.runner.handles, before.Launched x.id := by
      intro x hx
      rcases (events _).mp (h.roster.launched x hx) with late | same | hl
      · exact absurd late (none x.id x.plan)
      · cases same
      · exact ⟨x.plan, hl⟩
    have tracked : w.runner.tracked = [] := by
      refine List.eq_nil_iff_forall_not_mem.mpr fun id hid => ?_
      obtain ⟨x, hx, rfl⟩ := (h.watched.sound 0).known id hid
      exact gone.handles x.id hid (old x hx)
    have live : w.runner.live = [] := by
      refine List.eq_nil_iff_forall_not_mem.mpr fun l hl => ?_
      obtain ⟨x, hx, same⟩ := (h.watched.sound 0).origins l hl
      exact gone.runs l hl (same ▸ old x hx)
    unfold Runner.pending
    rw [tracked, live]
    rfl

/-- Those who wait for a shutdown are told when it may be over. -/
theorem InHand.reports (h : w.InHand) {who : TaskId} {rest : List (Nat × Item)}
    (taken : w.queue = (0, some (.stopped who)) :: rest) : w.history.MayStop who w.runner.pending := by
  intro since before t heq
  have ready : (w.only who).ready = [] ++ (0, .stopped who) :: rest.filterMap (seen who) := by
    unfold only
    rw [taken, List.filterMap_cons]
    unfold seen sees
    dsimp only
    rw [beq_self_eq_true]
    rfl
  have gone := (h.watched.winding since before t who heq).gone (h.watched.sound who) ready nofun
  exact h.mayStop heq ⟨gone.handles, gone.runs⟩

theorem InHand.stops (h : w.InHand) {current : Option RunId} (stop : w.Stop current v) : v.InHand := by
  have watched := stop.watched h.watched
  have roster := stop.roster h.roster (h.watched.sound 0)
  have runs := stop.runs h.runs h.ids
  have paced := stop.paced h.paced h.runs h.ids
  have new : ∀ c, .stopping w.shutdowns c ∉ w.history.events :=
    fun c hm => Nat.lt_irrefl _ (h.watched.numbered _ c hm)
  have asking : History.Lawful ((w.now, .stopping w.shutdowns current) :: w.history) := ⟨new, h.lawful⟩
  refine ⟨watched, roster, runs, paced, ?_⟩
  cases stop with
  | soon _ => exact asking
  | later _ _ => exact asking
  | atOnce tracked live =>
    refine ⟨fun since before t heq => ?_, asking⟩
    obtain ⟨rfl, rfl⟩ : current = none ∧ w.history = before := by
      cases since with
      | nil =>
        cases heq
        exact ⟨rfl, rfl⟩
      | cons p since =>
        obtain ⟨-, rest⟩ := List.cons_eq_cons.mp heq
        refine absurd ?_ (new none)
        rw [rest]
        exact List.mem_map.mpr ⟨_, List.mem_append_right _ List.mem_cons_self, rfl⟩
    have idle : w.runner.live = [] := (w.runner.cancelAll_rest w.runner.tracked).1.symm.trans (live rfl)
    refine ⟨fun run i hc => ?_, fun _ => ?_⟩
    · by_contra going
      have unended : ¬ w.history.Ended run :=
        fun past => going ((ended_cons (e := .stopping _ _) nofun).mpr past)
      obtain ⟨l, hl, -⟩ := h.runs.counted run i hc unended
      rw [idle] at hl
      cases hl
    · unfold Runner.pending
      rw [tracked, live rfl]
      rfl

theorem Act.inHand (act : w.Act v) (h : w.InHand) : v.InHand := by
  have watched := act.watched h.watched fun i plan hl => by
    obtain ⟨x, hx, id, -⟩ := h.roster.known i plan hl
    exact ⟨x, hx, id⟩
  have roster := act.roster h.roster h.runs (h.watched.sound 0)
  have runs := act.runs h.runs h.watched.asleep h.ids h.paced.awaits
  have paced := act.paced h.paced h.runs h.roster h.ids
  refine ⟨watched, roster, runs, paced, ?_⟩
  cases act with
  | skips _ | rouses _ _ _ _ _ _ | posts _ | idles _ _ | forgetsHandle _ | forgetsRun _
  | finishes _ _ _ _ _ _ => exact h.lawful
  | pauses delay => exact (w.pause_rest delay none).2.2 ▸ h.lawful
  | sleeps _ _ _ _ _ _ =>
    unfold pause
    split <;> exact h.lawful
  | @begins run rest taken =>
    have due : run ∈ w.queue.filterMap beginOf :=
      List.mem_filterMap.mpr ⟨_, taken ▸ List.mem_cons_self, rfl⟩
    exact ⟨h.runs.fresh run due, h.lawful⟩
  | reports taken => exact ⟨h.reports taken, h.lawful⟩
  | @starts x rest taken hx alive going idle =>
    refine ⟨⟨fun i hc => Nat.lt_irrefl _ (h.runs.below _ i hc), x.plan, ?_⟩, h.lawful⟩
    exact h.mayStart taken hx alive going idle
  | runEnds how began going _ => exact ⟨⟨began, going⟩, h.lawful⟩
  | @launches i plan fresh leaves =>
    refine ⟨?_, h.lawful⟩
    rintro ⟨plan, hl⟩
    obtain ⟨x, hx, id, -⟩ := h.roster.known i plan hl
    exact fresh x hx id
  | cancels known =>
    obtain ⟨x, hx, rfl⟩ := known
    exact ⟨⟨x.plan, h.roster.launched x hx⟩, h.lawful⟩
  | stops current stop => exact (h.stops stop).lawful

theorem Acts.inHand (acts : Acts w v) (h : w.InHand) : v.InHand := by
  induction acts with
  | refl => exact h
  | tail _ act ih => exact act.inHand ih

theorem inHand_opened (now : Binary64) : (opened now).bench.InHand where
  watched :=
    { asleep := nofun
      sound := fun _ => Clockwork.sound_empty
      quiet := fun _ _ => ⟨rfl, nofun⟩
      numbered := nofun
      winding := fun since before t who heq => by
        cases since <;> cases heq }
  roster := ⟨nofun, nofun, nofun, nofun, nofun, nofun, nofun⟩
  runs := ⟨⟨nofun, nofun, List.nodup_nil, nofun, nofun⟩, nofun, nofun, nofun, nofun, nofun, nofun, nofun, nofun⟩
  paced := ⟨List.Pairwise.nil, fun _ _ => ⟨rfl, rfl⟩, nofun⟩
  lawful := trivial

end Bench

/-- Whatever is done in a workshop, all that holds of its bench is kept. -/
theorem inHand_run {s : Workshop} (h : s.bench.InHand) (moves : List Move) : (s.run moves).bench.InHand := by
  induction moves generalizing s with
  | nil => exact h
  | cons m moves ih => exact ih ((acts_step s m).inHand h)

end Workshop
end BatteryLink
