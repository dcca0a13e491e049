import BatteryLink.Proofs.Runs
/-!
What the history of a workshop tells of its handles: those that were launched are there, and they
stop when they are asked to, or when there is nothing to go on for.
-/
namespace BatteryLink

namespace Workshop.Bench

variable {w v : Bench}

/-- Handles are those that were launched, and they stop when they are asked to, or when there is
nothing to go on for. -/
structure Roster (w : Bench) : Prop where
  launched : ∀ x ∈ w.runner.handles, .launched x.id x.plan ∈ w.history.events
  known : ∀ h plan, .launched h plan ∈ w.history.events → ∃ x ∈ w.runner.handles, x.id = h ∧ x.plan = plan
  created : ∀ run h, .created run h ∈ w.history.events → w.history.Launched h
  asks : ∀ h, w.history.Asked h → w.history.Launched h
  asked : ∀ x ∈ w.runner.handles, w.history.Asked x.id → x.ended = false → x.stopRequested = true
  free : ∀ x ∈ w.runner.handles, x.ended = true ∨ x.stopRequested = true →
    w.history.Asked x.id ∨ x.plan.IsOver
  leaves : ∀ x ∈ w.runner.handles, x.plan.Leaves

/-- What may be written down about handles that there are. -/
structure Writes (w v : Bench) (e : Event) : Prop where
  old : ∀ h plan, e ≠ .launched h plan
  created : ∀ run h, e = .created run h → w.history.Launched h
  asks : ∀ h, History.Asks h w.history e → w.history.Launched h ∧
    ∀ z ∈ v.runner.handles, z.id = h → z.ended = false → z.stopRequested = true

/-- A handle after something has happened: it may have been asked to stop, and it may have ended. -/
structure Later (l : History) (x z : Handle) : Prop where
  id : z.id = x.id
  plan : z.plan = x.plan
  alive : z.ended = false → x.ended = false
  stop : z.ended = false → x.stopRequested = true → z.stopRequested = true
  free : z.ended = true ∨ z.stopRequested = true →
    (x.ended = true ∨ x.stopRequested = true) ∨ l.Asked x.id ∨ x.plan.IsOver

theorem Later.refl (l : History) (x : Handle) : Later l x x :=
  ⟨rfl, rfl, fun alive => alive, fun _ stop => stop, .inl⟩

/-- Nothing is launched. -/
theorem Roster.grow (h : w.Roster)
    (back : ∀ z ∈ v.runner.handles, ∃ x ∈ w.runner.handles, Later v.history x z)
    (forth : ∀ x ∈ w.runner.handles, ∃ z ∈ v.runner.handles, z.id = x.id ∧ z.plan = x.plan)
    (written : v.history = w.history ∨ ∃ t e, v.history = (t, e) :: w.history ∧ Writes w v e) :
    v.Roster := by
  have still : ∀ e ∈ w.history.events, e ∈ v.history.events := by
    rcases written with same | ⟨t, e, more, -⟩
    · exact fun e he => same ▸ he
    · exact fun e he => more ▸ List.mem_cons_of_mem _ he
  have launched : ∀ h, w.history.Launched h → v.history.Launched h := fun _ ⟨plan, hp⟩ => ⟨plan, still _ hp⟩
  have known : ∀ h plan, .launched h plan ∈ v.history.events → .launched h plan ∈ w.history.events := by
    intro i plan hl
    rcases written with same | ⟨t, e, more, writes⟩
    · exact same ▸ hl
    · rw [more] at hl
      exact (List.mem_cons.mp hl).resolve_left fun same => writes.old i plan same.symm
  have asks : ∀ i, v.history.Asked i → w.history.Asked i ∨
      w.history.Launched i ∧ ∀ z ∈ v.runner.handles, z.id = i → z.ended = false → z.stopRequested = true := by
    intro i hi
    rcases written with same | ⟨t, e, more, writes⟩
    · exact .inl (same ▸ hi)
    · rw [more] at hi
      exact hi.symm.imp_right (writes.asks i)
  have asked : ∀ i, w.history.Asked i → v.history.Asked i := by
    intro i hi
    rcases written with same | ⟨t, e, more, -⟩
    · exact same ▸ hi
    · exact more ▸ .inr hi
  refine ⟨fun z hz => ?_, fun i plan hl => ?_, fun run i hc => ?_, fun i hi => ?_, fun z hz hi alive => ?_,
    fun z hz past => ?_, fun z hz => ?_⟩
  · obtain ⟨x, hx, later⟩ := back z hz
    rw [later.id, later.plan]
    exact still _ (h.launched x hx)
  · obtain ⟨x, hx, id, same⟩ := h.known i plan (known i plan hl)
    obtain ⟨z, hz, zid, zplan⟩ := forth x hx
    exact ⟨z, hz, zid.trans id, zplan.trans same⟩
  · apply launched
    rcases written with same | ⟨t, e, more, writes⟩
    · exact h.created run i (same ▸ hc)
    · rw [more] at hc
      rcases List.mem_cons.mp hc with same | hc
      · exact writes.created run i same.symm
      · exact h.created run i hc
  · rcases asks i hi with hi | ⟨hl, -⟩
    · exact launched i (h.asks i hi)
    · exact launched i hl
  · obtain ⟨x, hx, later⟩ := back z hz
    rcases asks z.id hi with hi | ⟨-, all⟩
    · exact later.stop alive (h.asked x hx (later.id ▸ hi) (later.alive alive))
    · exact all z hz rfl alive
  · obtain ⟨x, hx, later⟩ := back z hz
    rw [later.id, later.plan]
    rcases later.free past with past | rest
    · exact (h.free x hx past).imp_left (asked x.id)
    · exact rest
  · obtain ⟨x, hx, later⟩ := back z hz
    rw [later.plan]
    exact h.leaves x hx

theorem later_set (ids : (w.runner.handles.map fun x => x.id).Nodup) {l : History} {x y : Handle}
    (hx : x ∈ w.runner.handles) (later : Later l x y) :
    (∀ z ∈ (w.runner.setHandle y).handles, ∃ x ∈ w.runner.handles, Later l x z) ∧
    ∀ x ∈ w.runner.handles, ∃ z ∈ (w.runner.setHandle y).handles, z.id = x.id ∧ z.plan = x.plan := by
  refine ⟨fun z hz => ?_, fun u hu => ?_⟩
  · rcases Clockwork.mem_setHandle hz with rfl | ⟨hz, -⟩
    · exact ⟨x, hx, later⟩
    · exact ⟨z, hz, .refl l z⟩
  · by_cases same : u.id = y.id
    · cases List.inj_on_of_nodup_map ids hu hx (same.trans later.id)
      exact ⟨y, List.mem_map.mpr ⟨x, hx, if_pos same⟩, later.id, later.plan⟩
    · exact ⟨u, Clockwork.mem_setHandle_of_ne hu same, rfl, rfl⟩

/-- Some are asked to stop. -/
theorem later_stopIf (l : History) (p : Handle → Prop) [DecidablePred p]
    (asked : ∀ x ∈ w.runner.handles, p x → l.Asked x.id) :
    (∀ z ∈ w.runner.handles.map (Handle.stopIf p), ∃ x ∈ w.runner.handles, Later l x z) ∧
    ∀ x ∈ w.runner.handles, ∃ z ∈ w.runner.handles.map (Handle.stopIf p), z.id = x.id ∧ z.plan = x.plan := by
  refine ⟨fun z hz => ?_, fun x hx => ⟨_, List.mem_map_of_mem hx, x.id_stopIf p, x.plan_stopIf p⟩⟩
  obtain ⟨x, hx, rfl⟩ := List.mem_map.mp hz
  refine ⟨x, hx, x.id_stopIf p, x.plan_stopIf p, fun alive => x.ended_stopIf p ▸ alive,
    fun _ stop => (x.stop_stopIf p).mpr (.inl stop), fun past => ?_⟩
  rw [Handle.ended_stopIf, Handle.stop_stopIf] at past
  rcases past with ended | stop | held
  · exact .inl (.inl ended)
  · exact .inl (.inr stop)
  · exact .inr (.inl (asked x hx held))

theorem Roster.keep (h : w.Roster) (handles : v.runner.handles = w.runner.handles)
    (written : v.history = w.history ∨ ∃ t e, v.history = (t, e) :: w.history ∧ Writes w v e) :
    v.Roster :=
  h.grow (fun z hz => ⟨z, handles ▸ hz, .refl _ z⟩) (fun x hx => ⟨x, handles.symm ▸ hx, rfl, rfl⟩) written

/-- What asks nobody to stop. -/
theorem writes_quietly {e : Event} (old : ∀ h plan, e ≠ .launched h plan)
    (created : ∀ run h, e = .created run h → w.history.Launched h)
    (quiet : ∀ h, ¬ History.Asks h w.history e) : Writes w v e :=
  ⟨old, created, fun h asks => absurd asks (quiet h)⟩

/-- A shutdown is asked for. -/
theorem Roster.asking (h : w.Roster) {who : TaskId} (sound : (w.only who).Sound) (k : TaskId)
    (current : Option RunId) : (w.asking k current).Roster := by
  have handles : (w.asking k current).runner.handles =
      w.runner.handles.map (Handle.stopIf (Handle.Called w.runner.tracked)) :=
    Runner.cancelAll_handles (r := w.runner) sound.ids w.runner.tracked
  have written : (w.asking k current).history = (w.now, .stopping k current) :: w.history := rfl
  obtain ⟨back, forth⟩ := later_stopIf (w := w) (w.asking k current).history (Handle.Called w.runner.tracked)
    fun x hx _ => written ▸ .inl ⟨x.plan, h.launched x hx⟩
  rw [← handles] at back forth
  refine h.grow back forth (.inr ⟨_, _, written, nofun, nofun, fun i launched => ⟨launched, ?_⟩⟩)
  intro z hz _ alive
  rw [handles] at hz
  obtain ⟨x, hx, rfl⟩ := List.mem_map.mp hz
  rw [Handle.ended_stopIf] at alive
  exact (x.stop_stopIf _).mpr (.inr ⟨alive, sound.tracked x hx alive⟩)

theorem Stop.roster {current : Option RunId} (stop : w.Stop current v) (h : w.Roster) {who : TaskId}
    (sound : (w.only who).Sound) : v.Roster := by
  have asking := h.asking sound w.shutdowns current
  cases stop with
  | atOnce _ _ => exact asking.keep rfl (.inr ⟨_, _, rfl, writes_quietly nofun nofun fun _ => id⟩)
  | soon _ => exact asking.keep rfl (.inl rfl)
  | later _ _ => exact asking.keep rfl (.inl rfl)

/-- A job that is given up takes its handle with it, and no other does. -/
theorem Roster.runEnds (h : w.Roster) (runs : w.Runs) (ids : (w.runner.handles.map fun x => x.id).Nodup)
    {run : RunId} (how : RunEnd) (going : ¬ w.history.Ended run)
    (handles : v.runner.handles = (w.runner.afterRun (w.runner.waitingFor? run) how).handles)
    (written : v.history = (w.now, .ended run how) :: w.history) : v.Roster := by
  have handles : v.runner.handles = w.runner.handles.map (Handle.stopIf (Handle.Left run how)) :=
    handles.trans (Runner.afterRun_handles ids run (fun x hx y hy => runs.alone hx hy) how)
  obtain ⟨back, forth⟩ := later_stopIf (w := w) v.history (Handle.Left run how) fun x hx left => by
    obtain ⟨rfl, phase⟩ := left
    exact written ▸ .inl (runs.home x hx run phase)
  rw [← handles] at back forth
  refine h.grow back forth (.inr ⟨_, _, written, nofun, nofun, fun i asks => ?_⟩)
  cases how with
  | returned => exact asks.elim
  | raised => exact asks.elim
  | givenUp =>
    have asks : .created run i ∈ w.history.events := asks
    refine ⟨h.created run i asks, fun z hz id alive => ?_⟩
    obtain ⟨x, hx, rfl⟩ := List.mem_map.mp (handles ▸ hz)
    rw [Handle.id_stopIf] at id
    rw [Handle.ended_stopIf] at alive
    obtain ⟨y, hy, yid, phase⟩ := runs.going run i asks going
    cases List.inj_on_of_nodup_map ids hy hx (yid.trans id.symm)
    refine (x.stop_stopIf _).mpr (.inr ⟨rfl, phase.resolve_right fun dead => ?_⟩)
    cases alive.symm.trans dead

theorem Roster.launches (h : w.Roster) {new : HandleId} {plan : Plan}
    (fresh : ∀ x ∈ w.runner.handles, x.id ≠ new) (leaves : plan.Leaves)
    (handles : v.runner.handles = w.runner.handles ++ [{ id := new, plan }])
    (written : v.history = (w.now, .launched new plan) :: w.history) : v.Roster := by
  have launched : ∀ i, w.history.Launched i → v.history.Launched i := by
    rintro i ⟨plan, hl⟩
    exact ⟨plan, written ▸ List.mem_cons_of_mem _ hl⟩
  have asked : ∀ i, v.history.Asked i ↔ w.history.Asked i := by
    intro i
    rw [written]
    exact or_iff_right id
  have unknown : ¬ w.history.Launched new := by
    rintro ⟨plan, hl⟩
    obtain ⟨x, hx, same, -⟩ := h.known new plan hl
    exact fresh x hx same
  refine ⟨fun z hz => ?_, fun i p hl => ?_, fun run i hc => ?_, fun i hi => ?_, fun z hz hi alive => ?_,
    fun z hz past => ?_, fun z hz => ?_⟩
  · rw [handles] at hz
    rw [written]
    rcases List.mem_append.mp hz with hz | hz
    · exact List.mem_cons_of_mem _ (h.launched z hz)
    · cases List.mem_singleton.mp hz
      exact List.mem_cons_self
  · rw [written] at hl
    rw [handles]
    rcases List.mem_cons.mp hl with same | hl
    · cases same
      exact ⟨_, List.mem_append_right _ List.mem_cons_self, rfl, rfl⟩
    · obtain ⟨x, hx, same⟩ := h.known i p hl
      exact ⟨x, List.mem_append_left _ hx, same⟩
  · rw [written] at hc
    exact launched i (h.created run i ((List.mem_cons.mp hc).resolve_left nofun))
  · exact launched i (h.asks i ((asked i).mp hi))
  · rw [asked] at hi
    rcases List.mem_append.mp (handles ▸ hz) with hz | hz
    · exact h.asked z hz hi alive
    · cases List.mem_singleton.mp hz
      exact absurd (h.asks new hi) unknown
  · rw [asked]
    rcases List.mem_append.mp (handles ▸ hz) with hz | hz
    · exact h.free z hz past
    · cases List.mem_singleton.mp hz
      rcases past with past | past <;> cases past
  · rcases List.mem_append.mp (handles ▸ hz) with hz | hz
    · exact h.leaves z hz
    · cases List.mem_singleton.mp hz
      exact leaves

/-- A handle goes on, or it comes to its end. -/
theorem Roster.set (h : w.Roster) (ids : (w.runner.handles.map fun x => x.id).Nodup) {x y : Handle}
    (hx : x ∈ w.runner.handles) (later : Later v.history x y)
    (handles : v.runner.handles = (w.runner.setHandle y).handles)
    (written : v.history = w.history ∨ ∃ t e, v.history = (t, e) :: w.history ∧ Writes w v e) : v.Roster := by
  obtain ⟨back, forth⟩ := later_set ids hx later
  rw [← handles] at back forth
  exact h.grow back forth written

/-- A handle goes over to another phase. -/
theorem later_phase (l : History) {x : Handle} (phase : Phase) (alive : x.ended = false)
    (goes : Handle.ended { x with phase } = true → x.stopRequested = true ∨ x.plan.IsOver) :
    Later l x { x with phase } := by
  refine ⟨rfl, rfl, fun _ => alive, fun _ stop => stop, fun past => ?_⟩
  rcases past with ended | stop
  · exact (goes ended).imp .inr .inr
  · exact .inl (.inr stop)

theorem Act.roster (act : w.Act v) (h : w.Roster) (runs : w.Runs) {who : TaskId} (sound : (w.only who).Sound) :
    v.Roster := by
  have ids := sound.ids
  cases act with
  | skips _ | rouses _ _ _ _ _ _ | posts _ | idles _ _ | forgetsHandle _ | forgetsRun _ =>
    exact h.keep rfl (.inl rfl)
  | pauses delay =>
    unfold pause
    split <;> exact h.keep rfl (.inl rfl)
  | begins _ | reports _ => exact h.keep rfl (.inr ⟨_, _, rfl, writes_quietly nofun nofun fun _ => id⟩)
  | @sleeps x phase span d rest taken hx alive going hd because =>
    have later : Later w.history x { x with phase } := by
      refine later_phase w.history phase alive fun ended => ?_
      rcases because with ⟨-, -, rfl⟩ | ⟨-, -, rfl⟩ <;> cases ended
    unfold pause
    split <;> exact h.set ids hx later rfl (.inl rfl)
  | @starts x rest taken hx alive going idle =>
    refine h.set ids hx (later_phase _ (.running w.runner.nextRun) alive nofun) rfl
      (.inr ⟨_, _, rfl, writes_quietly nofun ?_ fun _ => id⟩)
    rintro _ _ same
    cases same
    exact ⟨x.plan, h.launched x hx⟩
  | @finishes x waiters told rest cancelled taken hx alive because dismissed =>
    exact h.set ids hx (later_phase w.history (.ended cancelled) alive fun _ => because) rfl (.inl rfl)
  | @runEnds run waiters told how began going dismissed => exact h.runEnds runs ids how going rfl rfl
  | launches fresh leaves => exact h.launches fresh leaves rfl rfl
  | @cancels id known =>
    obtain ⟨y, hy, same⟩ := known
    have handles := Runner.cancelAll_handles (r := w.runner) ids [id]
    obtain ⟨back, forth⟩ := later_stopIf (w := w) ((w.now, .cancelled id) :: w.history) (Handle.Called [id])
      fun x _ called => .inl (List.mem_singleton.mp called.2).symm
    rw [← show (w.runner.cancelAll [id]).1.handles = _ from handles] at back forth
    refine h.grow back forth (.inr ⟨_, _, rfl, nofun, nofun, ?_⟩)
    rintro i rfl
    refine ⟨⟨y.plan, same ▸ h.launched y hy⟩, fun z hz id alive => ?_⟩
    obtain ⟨x, hx, rfl⟩ := List.mem_map.mp (handles ▸ hz)
    rw [Handle.id_stopIf] at id
    rw [Handle.ended_stopIf] at alive
    exact (x.stop_stopIf _).mpr (.inr ⟨alive, List.mem_singleton.mpr id⟩)
  | stops current stop => exact stop.roster h sound

end Workshop.Bench
end BatteryLink
