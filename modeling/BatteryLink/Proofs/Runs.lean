import BatteryLink.Proofs.Drain
/-!
Runs of a workshop. Each run has its place: it is about to begin, or its job is being done, or it has
ended.
-/
namespace BatteryLink

/-- A handle after those that something holds of have been asked to stop. -/
def Handle.stopIf (p : Handle → Prop) [DecidablePred p] (x : Handle) : Handle :=
  if p x then { x with stopRequested := true } else x

namespace Handle

section
variable (p : Handle → Prop) [DecidablePred p] (x : Handle)

theorem id_stopIf : (x.stopIf p).id = x.id := by
  unfold stopIf
  split <;> rfl

theorem plan_stopIf : (x.stopIf p).plan = x.plan := by
  unfold stopIf
  split <;> rfl

theorem phase_stopIf : (x.stopIf p).phase = x.phase := by
  unfold stopIf
  split <;> rfl

theorem ended_stopIf : (x.stopIf p).ended = x.ended := by
  unfold ended
  rw [phase_stopIf]

theorem stop_stopIf : (x.stopIf p).stopRequested = true ↔ x.stopRequested = true ∨ p x := by
  unfold stopIf
  split
  · next h => exact ⟨fun _ => .inr h, fun _ => rfl⟩
  · next h => exact ⟨.inl, fun hs => hs.resolve_right h⟩

variable {p x} in
theorem stopIf_of_not (h : ¬ p x) : x.stopIf p = x := if_neg h

end

/-- A handle is one of some, and it has not ended. -/
def Called (hs : List HandleId) (x : Handle) : Prop := x.ended = false ∧ x.id ∈ hs

instance (hs : List HandleId) : DecidablePred (Called hs) := fun _ => instDecidableAnd

/-- A handle waits for a run whose job is given up. -/
def Left (run : RunId) (how : RunEnd) (x : Handle) : Prop := how = .givenUp ∧ x.phase = .running run

instance (run : RunId) (how : RunEnd) : DecidablePred (Left run how) := fun _ => instDecidableAnd

theorem stopIf_called (h : HandleId) (hs : List HandleId) (x : Handle) :
    (x.stopIf (Called [h])).stopIf (Called hs) = x.stopIf (Called (h :: hs)) := by
  by_cases first : x.Called [h]
  · have stopped : x.stopIf (Called [h]) = { x with stopRequested := true } := if_pos first
    have both : x.Called (h :: hs) := ⟨first.1, List.mem_cons.mpr (.inl (List.mem_singleton.mp first.2))⟩
    rw [stopped]
    unfold stopIf
    rw [if_pos both]
    split <;> rfl
  · have same : x.Called (h :: hs) ↔ x.Called hs := by
      refine and_congr_right fun alive => List.mem_cons.trans (or_iff_right fun id => ?_)
      exact first ⟨alive, List.mem_singleton.mpr id⟩
    rw [stopIf_of_not first]
    unfold stopIf
    rw [if_congr same rfl rfl]

end Handle

namespace Runner

section
variable {r : Runner TaskId} {p : Handle → Prop} [DecidablePred p]

theorem handles_stopIf_none (none : ∀ x ∈ r.handles, ¬ p x) : r.handles = r.handles.map (Handle.stopIf p) :=
  (List.map_id r.handles).symm.trans
    (List.map_congr_left fun x hx => (Handle.stopIf_of_not (none x hx)).symm)

theorem handles_stopIf_one (ids : (r.handles.map fun x => x.id).Nodup) {y : Handle} (hy : y ∈ r.handles)
    (one : ∀ x ∈ r.handles, p x ↔ x = y) :
    (r.setHandle { y with stopRequested := true }).handles = r.handles.map (Handle.stopIf p) := by
  refine List.map_congr_left fun x hx => ?_
  unfold Handle.stopIf
  by_cases same : x = y
  · rw [if_pos ((one x hx).mpr same), if_pos (congrArg Handle.id same), same]
  · rw [if_neg fun h => same ((one x hx).mp h), if_neg fun id => same (List.inj_on_of_nodup_map ids hx hy id)]

end

/-- A handle waits for a run that no other waits for. -/
theorem afterRun_handles {r : Runner TaskId} (ids : (r.handles.map fun x => x.id).Nodup) (run : RunId)
    (one : ∀ x ∈ r.handles, ∀ y ∈ r.handles, x.phase = .running run → y.phase = .running run → x.id = y.id)
    (how : RunEnd) :
    (r.afterRun (r.waitingFor? run) how).handles = r.handles.map (Handle.stopIf (Handle.Left run how)) := by
  by_cases gives : how = .givenUp
  · subst gives
    cases hw : r.waitingFor? run with
    | none =>
      refine handles_stopIf_none fun x hx left => ?_
      exact List.find?_eq_none.mp hw x hx (beq_iff_eq.mpr left.2)
    | some y =>
      have hy : y ∈ r.handles := List.mem_of_find?_eq_some hw
      have running : y.phase = .running run := by simpa using List.find?_some hw
      refine handles_stopIf_one ids hy fun x hx => ⟨fun left => ?_, fun same => same ▸ ⟨rfl, running⟩⟩
      exact List.inj_on_of_nodup_map ids hx hy (one x hx y hy left.2 running)
  · have same : r.afterRun (r.waitingFor? run) how = r := by
      cases how with
      | givenUp => exact absurd rfl gives
      | _ => rfl
    rw [same]
    exact handles_stopIf_none fun x _ left => gives left.1

theorem afterRun_rest (r : Runner TaskId) (x : Option Handle) (how : RunEnd) :
    (r.afterRun x how).live = r.live ∧ (r.afterRun x how).nextRun = r.nextRun := by
  cases how <;> cases x <;> exact ⟨rfl, rfl⟩

theorem find?_of_mem {r : Runner TaskId} (ids : (r.handles.map fun x => x.id).Nodup) {x : Handle}
    (hx : x ∈ r.handles) : r.find? x.id = some x := by
  have found : (r.find? x.id).isSome := List.find?_isSome.mpr ⟨x, hx, beq_self_eq_true x.id⟩
  obtain ⟨y, hy⟩ := Option.isSome_iff_exists.mp found
  obtain ⟨mem, id⟩ := Clockwork.mem_of_find? hy
  rw [hy, List.inj_on_of_nodup_map ids mem hx id]

theorem cancel_handles {r : Runner TaskId} (ids : (r.handles.map fun x => x.id).Nodup) (h : HandleId) :
    (r.cancel h).1.handles = r.handles.map (Handle.stopIf (Handle.Called [h])) := by
  unfold cancel
  cases hx : r.find? h with
  | none =>
    refine handles_stopIf_none fun x hx' called => ?_
    exact List.find?_eq_none.mp hx x hx' (beq_iff_eq.mpr (List.mem_singleton.mp called.2))
  | some y =>
    obtain ⟨mem, rfl⟩ := Clockwork.mem_of_find? hx
    have only : ∀ x ∈ r.handles, x.Called [y.id] → x = y :=
      fun x hx called => List.inj_on_of_nodup_map ids hx mem (List.mem_singleton.mp called.2)
    dsimp only
    split
    · next ended =>
      refine handles_stopIf_none fun x hx' called => ?_
      rw [← only x hx' called, called.1] at ended
      cases ended
    · next alive =>
      refine handles_stopIf_one ids mem fun x hx => ⟨only x hx, fun same => ?_⟩
      subst same
      exact ⟨Bool.eq_false_iff.mpr alive, List.mem_singleton.mpr rfl⟩

theorem cancelAll_handles {r : Runner TaskId} (ids : (r.handles.map fun x => x.id).Nodup)
    (hs : List HandleId) : (r.cancelAll hs).1.handles = r.handles.map (Handle.stopIf (Handle.Called hs)) := by
  induction hs generalizing r with
  | nil => exact handles_stopIf_none fun x _ called => List.not_mem_nil called.2
  | cons h hs ih =>
    have one := cancel_handles ids h
    have still : ((r.cancel h).1.handles.map fun x => x.id).Nodup := by
      rw [one, List.map_map]
      exact (List.map_congr_left fun x _ => Handle.id_stopIf (Handle.Called [h]) x) ▸ ids
    unfold cancelAll
    dsimp only
    rw [ih still, one, List.map_map]
    exact List.map_congr_left fun x _ => x.stopIf_called h hs

theorem cancelAll_rest (r : Runner TaskId) (hs : List HandleId) :
    (r.cancelAll hs).1.live = r.live ∧ (r.cancelAll hs).1.nextRun = r.nextRun ∧
      (r.cancelAll hs).1.tracked = r.tracked := by
  have one : ∀ (r : Runner TaskId) (h : HandleId), (r.cancel h).1.live = r.live ∧
      (r.cancel h).1.nextRun = r.nextRun ∧ (r.cancel h).1.tracked = r.tracked := by
    intro r h
    unfold cancel
    split
    · exact ⟨rfl, rfl, rfl⟩
    · split <;> exact ⟨rfl, rfl, rfl⟩
  induction hs generalizing r with
  | nil => exact ⟨rfl, rfl, rfl⟩
  | cons h hs ih =>
    obtain ⟨live, next, tracked⟩ := ih (r.cancel h).1
    obtain ⟨live', next', tracked'⟩ := one r h
    exact ⟨live.trans live', next.trans next', tracked.trans tracked'⟩

end Runner

namespace Workshop.Bench

variable {w v : Bench}

def beginOf (p : Nat × Item) : Option RunId :=
  match p.2 with
  | some (.begin run) => some run
  | _ => none

/-- A run that was created begins before the clock goes on, and it does so once. -/
structure Begins (w : Bench) : Prop where
  prompt : ∀ n run, (n, some (.begin run)) ∈ w.queue → n = 0
  fresh : ∀ run ∈ w.queue.filterMap beginOf, .began run ∉ w.history.events ∧
    ∃ h, (w.now, .created run h) ∈ w.history
  nodup : (w.queue.filterMap beginOf).Nodup
  due : ∀ run h, .created run h ∈ w.history.events → .began run ∉ w.history.events →
    run ∈ w.queue.filterMap beginOf
  began : ∀ run, .began run ∈ w.history.events → ∃ h, .created run h ∈ w.history.events

/-- Until a run has ended it counts, and its handle waits for it or has ended; no two runs of a handle
go on at the same time. -/
structure Runs (w : Bench) : Prop extends w.Begins where
  below : ∀ run h, .created run h ∈ w.history.events → run < w.runner.nextRun
  origin : ∀ run h i, .created run h ∈ w.history.events → .created run i ∈ w.history.events → h = i
  counted : ∀ run h, .created run h ∈ w.history.events → ¬ w.history.Ended run →
    ∃ l ∈ w.runner.live, l.id = run ∧ l.handle = h ∧ l.ended = false
  home : ∀ x ∈ w.runner.handles, ∀ run, x.phase = .running run → .created run x.id ∈ w.history.events
  going : ∀ run h, .created run h ∈ w.history.events → ¬ w.history.Ended run →
    ∃ x ∈ w.runner.handles, x.id = h ∧ (x.phase = .running run ∨ x.ended = true)
  one : ∀ run other h, .created run h ∈ w.history.events → .created other h ∈ w.history.events →
    ¬ w.history.Ended run → ¬ w.history.Ended other → run = other
  ended : ∀ run, w.history.Ended run → .began run ∈ w.history.events
  forgets : ∀ n run, (n, some (.forgetRun run)) ∈ w.queue → w.history.Ended run

/-- Events that are not about runs. -/
def Aside : Event → Prop
  | .created _ _ | .began _ | .ended _ _ => False
  | _ => True

/-- The same runs are about to begin. -/
structure SameBegins (q r : List (Nat × Item)) : Prop where
  begins : r.filterMap beginOf = q.filterMap beginOf
  prompt : ∀ n run, (n, some (.begin run)) ∈ r → (n, some (.begin run)) ∈ q

/-- The same runs are about to begin, and no others to be forgotten. -/
structure SameRuns (q r : List (Nat × Item)) : Prop extends SameBegins q r where
  forgets : ∀ n run, (n, some (.forgetRun run)) ∈ r → ∃ m, (m, some (.forgetRun run)) ∈ q

/-- Items that are not about runs. -/
def Mute : Item → Prop
  | some (.begin _) | some (.forgetRun _) => False
  | _ => True

theorem Mute.begins {p : Nat × Item} (h : Mute p.2) : beginOf p = none := by
  unfold beginOf
  split
  · next begins =>
    rw [begins] at h
    exact h.elim
  · rfl

theorem SameBegins.append (q : List (Nat × Item)) {more : List (Nat × Item)}
    (quiet : ∀ p ∈ more, beginOf p = none) : SameBegins q (q ++ more) where
  begins := by
    rw [List.filterMap_append, List.filterMap_eq_nil_iff.mpr quiet, List.append_nil]
  prompt := by
    intro n run hm
    rcases List.mem_append.mp hm with hm | hm
    · exact hm
    · cases quiet _ hm

theorem SameRuns.refl (q : List (Nat × Item)) : SameRuns q q :=
  ⟨⟨rfl, fun _ _ => id⟩, fun n _ h => ⟨n, h⟩⟩

theorem SameRuns.trans {q r l : List (Nat × Item)} (h : SameRuns q r) (h' : SameRuns r l) : SameRuns q l :=
  ⟨⟨h'.begins.trans h.begins, fun n run hm => h.prompt n run (h'.prompt n run hm)⟩, fun n run hm =>
    have ⟨m, hm⟩ := h'.forgets n run hm
    h.forgets m run hm⟩

theorem SameRuns.append (q : List (Nat × Item)) {more : List (Nat × Item)} (mute : ∀ p ∈ more, Mute p.2) :
    SameRuns q (q ++ more) :=
  ⟨.append q fun p hp => (mute p hp).begins, fun n _ hm =>
    ⟨n, (List.mem_append.mp hm).resolve_right fun hm => mute _ hm⟩⟩

theorem SameRuns.rest {n : Nat} {item : Item} {rest : List (Nat × Item)} (quiet : beginOf (n, item) = none) :
    SameRuns ((n, item) :: rest) rest :=
  ⟨⟨(List.filterMap_cons_none quiet).symm, fun _ _ => List.mem_cons_of_mem _⟩,
    fun m _ h => ⟨m, List.mem_cons_of_mem _ h⟩⟩

theorem SameRuns.skips {n : Nat} {item : Item} {rest : List (Nat × Item)}
    (quiet : beginOf (n + 1, item) = none) : SameRuns ((n + 1, item) :: rest) (rest ++ [(n, item)]) where
  begins := by
    rw [List.filterMap_append, List.filterMap_cons_none quiet]
    exact (congrArg _ (List.filterMap_cons_none quiet)).trans (List.append_nil _)
  prompt := by
    intro m run hm
    rcases List.mem_append.mp hm with hm | hm
    · exact List.mem_cons_of_mem _ hm
    · cases List.mem_singleton.mp hm
      cases quiet
  forgets := by
    intro m run hm
    rcases List.mem_append.mp hm with hm | hm
    · exact ⟨m, List.mem_cons_of_mem _ hm⟩
    · cases List.mem_singleton.mp hm
      exact ⟨n + 1, List.mem_cons_self⟩

theorem mute_wakes (turns : Nat) (hs : List HandleId) : ∀ p ∈ wakes turns hs, Mute p.2 :=
  List.forall_mem_map.mpr fun _ _ => trivial

theorem mute_words (told : List TaskId) : ∀ p ∈ words told, Mute p.2 :=
  List.forall_mem_map.mpr fun _ _ => trivial

/-- What timers have to say is not about runs. -/
theorem mute_timer {item : Item} (h : item = none ∨ ∃ h, item = some (.wake h)) : Mute item := by
  rcases h with rfl | ⟨_, rfl⟩ <;> trivial

/-- What is written down about the beginnings of runs is the same. -/
structure SameNews (l m : History) : Prop where
  created : ∀ run h, .created run h ∈ m.events ↔ .created run h ∈ l.events
  began : ∀ run, .began run ∈ m.events ↔ .began run ∈ l.events
  moment : ∀ t run h, (t, .created run h) ∈ l → (t, .created run h) ∈ m

theorem same_news {l : History} {t : Binary64} {e : Event} (created : ∀ run h, e ≠ .created run h)
    (began : ∀ run, e ≠ .began run) : SameNews l ((t, e) :: l) where
  created := fun run h => List.mem_cons.trans (or_iff_right (created run h).symm)
  began := fun run => List.mem_cons.trans (or_iff_right (began run).symm)
  moment := fun _ _ _ => List.mem_cons_of_mem _

theorem ended_cons {t : Binary64} {e : Event} {l : History} {run : RunId} (h : ∀ how, e ≠ .ended run how) :
    History.Ended ((t, e) :: l) run ↔ l.Ended run :=
  exists_congr fun how => List.mem_cons.trans (or_iff_right (h how).symm)

theorem news_aside (h : v.history = w.history ∨ ∃ t e, v.history = (t, e) :: w.history ∧ Aside e) :
    SameNews w.history v.history ∧ ∀ run, v.history.Ended run ↔ w.history.Ended run := by
  rcases h with same | ⟨t, e, more, aside⟩
  · rw [same]
    exact ⟨⟨fun _ _ => .rfl, fun _ => .rfl, fun _ _ _ => id⟩, fun _ => .rfl⟩
  · rw [more]
    refine ⟨same_news (fun run h same => ?_) fun run same => ?_, fun run => ended_cons fun how same => ?_⟩
    all_goals
      rw [same] at aside
      exact aside

theorem Begins.still (h : w.Begins) (queue : SameBegins w.queue v.queue)
    (now : w.queue ≠ [] → v.now = w.now) (news : SameNews w.history v.history) : v.Begins := by
  refine ⟨fun n run hm => h.prompt n run (queue.prompt n run hm), fun run hr => ?_, queue.begins ▸ h.nodup,
    fun run i hc hb => ?_, fun run hb => ?_⟩
  · rw [queue.begins] at hr
    obtain ⟨unbegun, i, hc⟩ := h.fresh run hr
    have busy : w.queue ≠ [] := by
      intro none
      rw [none] at hr
      cases hr
    rw [now busy]
    exact ⟨fun hb => unbegun ((news.began run).mp hb), i, news.moment _ _ _ hc⟩
  · rw [queue.begins]
    exact h.due run i ((news.created run i).mp hc) fun hb' => hb ((news.began run).mpr hb')
  · obtain ⟨i, hc⟩ := h.began run ((news.began run).mp hb)
    exact ⟨i, (news.created run i).mpr hc⟩

/-- An act that is not about runs. -/
theorem Runs.still (h : w.Runs) (queue : SameRuns w.queue v.queue)
    (now : w.queue ≠ [] → v.now = w.now) (next : v.runner.nextRun = w.runner.nextRun)
    (written : v.history = w.history ∨ ∃ t e, v.history = (t, e) :: w.history ∧ Aside e)
    (live : ∀ l ∈ w.runner.live, ¬ w.history.Ended l.id → l ∈ v.runner.live)
    (home : ∀ z ∈ v.runner.handles, ∀ run, z.phase = .running run →
      ∃ x ∈ w.runner.handles, x.id = z.id ∧ x.phase = .running run)
    (going : ∀ x ∈ w.runner.handles, ∀ run, ¬ w.history.Ended run →
      (x.phase = .running run ∨ x.ended = true) →
      ∃ z ∈ v.runner.handles, z.id = x.id ∧ (z.phase = .running run ∨ z.ended = true)) : v.Runs := by
  obtain ⟨news, ended⟩ := news_aside written
  have created := news.created
  refine ⟨h.toBegins.still queue.toSameBegins now news, ?_, ?_, ?_, ?_, ?_, ?_, ?_, ?_⟩
  · exact fun run i hc => next ▸ h.below run i ((created run i).mp hc)
  · exact fun run i j hi hj => h.origin run i j ((created run i).mp hi) ((created run j).mp hj)
  · intro run i hc he
    rw [ended] at he
    obtain ⟨l, hl, id, handle, alive⟩ := h.counted run i ((created run i).mp hc) he
    exact ⟨l, live l hl (id ▸ he), id, handle, alive⟩
  · intro z hz run phase
    obtain ⟨x, hx, id, phase⟩ := home z hz run phase
    exact (created run z.id).mpr (id ▸ h.home x hx run phase)
  · intro run i hc he
    rw [ended] at he
    obtain ⟨x, hx, id, phase⟩ := h.going run i ((created run i).mp hc) he
    obtain ⟨z, hz, zid, phase⟩ := going x hx run he phase
    exact ⟨z, hz, zid.trans id, phase⟩
  · intro run other i hc ho hr hq
    rw [ended] at hr hq
    exact h.one run other i ((created run i).mp hc) ((created other i).mp ho) hr hq
  · exact fun run he => (news.began run).mpr (h.ended run ((ended run).mp he))
  · intro n run hf
    obtain ⟨m, hm⟩ := queue.forgets n run hf
    exact (ended run).mpr (h.forgets m run hm)

theorem Runs.keep (h : w.Runs) (queue : SameRuns w.queue v.queue)
    (now : w.queue ≠ [] → v.now = w.now) (next : v.runner.nextRun = w.runner.nextRun)
    (written : v.history = w.history ∨ ∃ t e, v.history = (t, e) :: w.history ∧ Aside e)
    (live : v.runner.live = w.runner.live) (handles : v.runner.handles = w.runner.handles) : v.Runs :=
  h.still queue now next written (fun _ hl _ => live.symm ▸ hl)
    (fun z hz _ phase => ⟨z, handles ▸ hz, rfl, phase⟩) fun x hx _ _ phase => ⟨x, handles.symm ▸ hx, rfl, phase⟩

/-- A handle goes on that has no run under way, or it ends. -/
theorem Runs.set (h : w.Runs) (ids : (w.runner.handles.map fun x => x.id).Nodup) {x y : Handle}
    (hx : x ∈ w.runner.handles) (id : y.id = x.id) (idle : ∀ run, y.phase ≠ .running run)
    (past : y.ended = true ∨ x.ended = false ∧ ∀ run, x.phase = .running run → w.history.Ended run)
    (handles : v.runner.handles = (w.runner.setHandle y).handles) (live : v.runner.live = w.runner.live)
    (next : v.runner.nextRun = w.runner.nextRun) (queue : SameRuns w.queue v.queue) (now : v.now = w.now)
    (history : v.history = w.history) : v.Runs := by
  refine h.still queue (fun _ => now) next (.inl history) (fun _ hl _ => live.symm ▸ hl) ?_ ?_
  · intro z hz run phase
    rw [handles] at hz
    rcases Clockwork.mem_setHandle hz with rfl | ⟨hz, -⟩
    · exact absurd phase (idle run)
    · exact ⟨z, hz, rfl, phase⟩
  · intro u hu run going phase
    rw [handles]
    by_cases same : u.id = y.id
    · cases List.inj_on_of_nodup_map ids hu hx (same.trans id)
      refine ⟨y, List.mem_map.mpr ⟨x, hx, if_pos same⟩, id, .inr (past.resolve_right ?_)⟩
      rintro ⟨alive, ended⟩
      rcases phase with running | dead
      · exact going (ended run running)
      · cases alive.symm.trans dead
    · exact ⟨u, Clockwork.mem_setHandle_of_ne hu same, rfl, phase⟩

/-- Requests to stop do not change what runs do. -/
theorem Runs.ask (h : w.Runs) {hs : List HandleId} (ids : (w.runner.handles.map fun x => x.id).Nodup)
    {more : List (Nat × Item)} (mute : ∀ p ∈ more, Mute p.2) {e : Event} (aside : Aside e) (shutdowns : Nat) :
    Runs { w with
      queue := w.queue ++ more, runner := (w.runner.cancelAll hs).1, shutdowns
      history := (w.now, e) :: w.history } := by
  obtain ⟨live, next, -⟩ := w.runner.cancelAll_rest hs
  have handles := Runner.cancelAll_handles ids hs
  refine h.still (.append _ mute) (fun _ => rfl) next (.inr ⟨_, _, rfl, aside⟩)
    (fun _ hl _ => live.symm ▸ hl) ?_ ?_
  · intro z hz run phase
    obtain ⟨x, hx, rfl⟩ := List.mem_map.mp (handles ▸ hz)
    exact ⟨x, hx, (x.id_stopIf _).symm, x.phase_stopIf (Handle.Called hs) ▸ phase⟩
  · intro x hx run _ phase
    refine ⟨x.stopIf (Handle.Called hs), handles.symm ▸ List.mem_map_of_mem hx, x.id_stopIf _, ?_⟩
    rw [Handle.phase_stopIf, Handle.ended_stopIf]
    exact phase

theorem Stop.runs {current : Option RunId} (stop : w.Stop current v) (h : w.Runs)
    (ids : (w.runner.handles.map fun x => x.id).Nodup) : v.Runs := by
  have asking : (w.asking w.shutdowns current).Runs :=
    h.ask ids (mute_wakes 0 _) (e := .stopping w.shutdowns current) trivial _
  cases stop with
  | atOnce _ _ => exact asking.keep (.refl _) (fun _ => rfl) rfl (.inr ⟨_, _, rfl, trivial⟩) rfl rfl
  | soon _ => exact asking.keep (.append _ (mute_words _)) (fun _ => rfl) rfl (.inl rfl) rfl rfl
  | later _ _ => exact asking.keep (.refl _) (fun _ => rfl) rfl (.inl rfl) rfl rfl

theorem Begins.begins (h : w.Begins) {run : RunId} {rest : List (Nat × Item)}
    (taken : w.queue = (0, some (.begin run)) :: rest) :
    Begins (note { w with queue := rest } (.began run)) := by
  have begins : w.queue.filterMap beginOf = run :: rest.filterMap beginOf := by
    rw [taken]
    rfl
  obtain ⟨first, distinct⟩ := List.nodup_cons.mp (begins ▸ h.nodup)
  refine ⟨fun n r hm => h.prompt n r (taken ▸ List.mem_cons_of_mem _ hm), fun r hr => ?_, distinct,
    fun r i hc hb => ?_, fun r hb => ?_⟩
  · obtain ⟨unbegun, i, hc⟩ := h.fresh r (begins ▸ List.mem_cons_of_mem _ hr)
    refine ⟨fun hb => ?_, i, List.mem_cons_of_mem _ hc⟩
    rcases List.mem_cons.mp hb with same | hb
    · cases same
      exact first hr
    · exact unbegun hb
  · obtain ⟨other, unbegun⟩ := not_or.mp fun hm => hb (List.mem_cons.mpr hm)
    have due := h.due r i ((List.mem_cons.mp hc).resolve_left nofun) unbegun
    rw [begins] at due
    exact (List.mem_cons.mp due).resolve_left fun same => other (same ▸ rfl)
  · rcases List.mem_cons.mp hb with same | hb
    · cases same
      obtain ⟨-, i, hc⟩ := h.fresh run (begins ▸ List.mem_cons_self)
      exact ⟨i, List.mem_cons_of_mem _ (List.mem_map.mpr ⟨_, hc, rfl⟩)⟩
    · obtain ⟨i, hc⟩ := h.began r hb
      exact ⟨i, List.mem_cons_of_mem _ hc⟩

theorem Runs.begins (h : w.Runs) {run : RunId} {rest : List (Nat × Item)}
    (taken : w.queue = (0, some (.begin run)) :: rest) :
    Runs (note { w with queue := rest } (.began run)) := by
  have created : ∀ r i, .created r i ∈ History.events ((w.now, .began run) :: w.history) ↔
      .created r i ∈ w.history.events := fun r i => List.mem_cons.trans (or_iff_right nofun)
  have ended : ∀ r, History.Ended ((w.now, .began run) :: w.history) r ↔ w.history.Ended r :=
    fun r => ended_cons nofun
  refine ⟨h.toBegins.begins taken, ?_, ?_, ?_, ?_, ?_, ?_, ?_, ?_⟩
  · exact fun r i hc => h.below r i ((created r i).mp hc)
  · exact fun r i j hi hj => h.origin r i j ((created r i).mp hi) ((created r j).mp hj)
  · exact fun r i hc he => h.counted r i ((created r i).mp hc) fun he' => he ((ended r).mpr he')
  · exact fun x hx r phase => (created r x.id).mpr (h.home x hx r phase)
  · exact fun r i hc he => h.going r i ((created r i).mp hc) fun he' => he ((ended r).mpr he')
  · exact fun r q i hr hq er eq => h.one r q i ((created r i).mp hr) ((created q i).mp hq)
      (fun he => er ((ended r).mpr he)) fun he => eq ((ended q).mpr he)
  · exact fun r he => List.mem_cons_of_mem _ (h.ended r ((ended r).mp he))
  · exact fun n r hf => (ended r).mpr (h.forgets n r (taken ▸ List.mem_cons_of_mem _ hf))

/-- A run that is created begins at the next turn that is free. -/
theorem Begins.starts (h : w.Begins)
    (below : ∀ run h, .created run h ∈ w.history.events → run < w.runner.nextRun)
    {id : HandleId} {runner : Runner TaskId} {rest : List (Nat × Item)}
    (taken : w.queue = (0, some (.wake id)) :: rest) :
    Begins (note { w with queue := rest ++ [(0, some (.begin w.runner.nextRun))], runner }
      (.created w.runner.nextRun id)) := by
  have begins : (rest ++ [(0, some (RunnerCall.begin w.runner.nextRun))]).filterMap beginOf =
      w.queue.filterMap beginOf ++ [w.runner.nextRun] := by
    rw [List.filterMap_append, taken]
    rfl
  have unused : ∀ i, .created w.runner.nextRun i ∉ w.history.events :=
    fun i hc => Nat.lt_irrefl _ (below _ i hc)
  have began : ∀ {r}, .began r ∈ History.events ((w.now, .created w.runner.nextRun id) :: w.history) →
      .began r ∈ w.history.events := fun hb => (List.mem_cons.mp hb).resolve_left nofun
  refine ⟨fun n r hm => ?_, fun r hr => ?_, begins ▸ ?_, fun r i hc hb => begins ▸ ?_, fun r hb => ?_⟩
  · rcases List.mem_append.mp hm with hm | hm
    · exact h.prompt n r (taken ▸ List.mem_cons_of_mem _ hm)
    · cases List.mem_singleton.mp hm
      rfl
  · rcases List.mem_append.mp (begins ▸ hr) with hr | hr
    · obtain ⟨unbegun, i, hc⟩ := h.fresh r hr
      exact ⟨fun hb => unbegun (began hb), i, List.mem_cons_of_mem _ hc⟩
    · cases List.mem_singleton.mp hr
      refine ⟨fun hb => ?_, id, List.mem_cons_self⟩
      obtain ⟨i, hc⟩ := h.began _ (began hb)
      exact unused i hc
  · refine List.nodup_append.mpr ⟨h.nodup, List.nodup_singleton _, fun r hr q hq same => ?_⟩
    obtain ⟨-, i, hc⟩ := h.fresh r hr
    rw [same, List.mem_singleton.mp hq] at hc
    exact unused i (List.mem_map.mpr ⟨_, hc, rfl⟩)
  · rcases List.mem_cons.mp hc with same | hc
    · cases same
      exact List.mem_append_right _ List.mem_cons_self
    · exact List.mem_append_left _ (h.due r i hc fun hb' => hb (List.mem_cons_of_mem _ hb'))
  · obtain ⟨i, hc⟩ := h.began r (began hb)
    exact ⟨i, List.mem_cons_of_mem _ hc⟩

/-- A handle that waits for no run has none under way. -/
theorem Runs.idle (h : w.Runs) (ids : (w.runner.handles.map fun x => x.id).Nodup) {x : Handle}
    (hx : x ∈ w.runner.handles) (alive : x.ended = false) (idle : ∀ run, x.phase ≠ .running run) {run : RunId}
    (hc : .created run x.id ∈ w.history.events) : w.history.Ended run := by
  by_contra going
  obtain ⟨y, hy, id, phase⟩ := h.going run x.id hc going
  cases List.inj_on_of_nodup_map ids hy hx id
  rcases phase with running | dead
  · exact idle run running
  · cases alive.symm.trans dead

theorem Runs.starts (h : w.Runs) (ids : (w.runner.handles.map fun x => x.id).Nodup) {x : Handle}
    {rest : List (Nat × Item)} (taken : w.queue = (0, some (.wake x.id)) :: rest) (hx : x ∈ w.runner.handles)
    (alive : x.ended = false) (idle : ∀ run, x.phase ≠ .running run) :
    Runs (note { w with
      queue := rest ++ [(0, some (.begin w.runner.nextRun))]
      runner := { w.runner.setHandle { x with phase := .running w.runner.nextRun } with
        live := w.runner.live ++ [{ id := w.runner.nextRun, handle := x.id }]
        nextRun := w.runner.nextRun + 1 } } (.created w.runner.nextRun x.id)) := by
  have unused : ∀ i, .created w.runner.nextRun i ∉ w.history.events :=
    fun i hc => Nat.lt_irrefl _ (h.below _ i hc)
  have created : ∀ {r i}, .created r i ∈ History.events ((w.now, .created w.runner.nextRun x.id) :: w.history) →
      (r = w.runner.nextRun ∧ i = x.id) ∨ .created r i ∈ w.history.events := by
    intro r i hc
    rcases List.mem_cons.mp hc with same | hc
    · cases same
      exact .inl ⟨rfl, rfl⟩
    · exact .inr hc
  have ended : ∀ r, History.Ended ((w.now, .created w.runner.nextRun x.id) :: w.history) r ↔
      w.history.Ended r := fun r => ended_cons nofun
  have all_ended : ∀ r, .created r x.id ∈ w.history.events → w.history.Ended r :=
    fun _ => h.idle ids hx alive idle
  refine ⟨h.toBegins.starts h.below taken, ?_, ?_, ?_, ?_, ?_, ?_, ?_, ?_⟩
  · intro r i hc
    rcases created hc with ⟨rfl, -⟩ | hc
    · exact Nat.lt_succ_self _
    · exact Nat.lt_succ_of_lt (h.below r i hc)
  · intro r i j hi hj
    rcases created hi with ⟨rfl, rfl⟩ | hi <;> rcases created hj with ⟨same, rfl⟩ | hj
    · rfl
    · exact absurd hj (unused j)
    · exact absurd (same ▸ hi) (unused i)
    · exact h.origin r i j hi hj
  · intro r i hc he
    rcases created hc with ⟨rfl, rfl⟩ | hc
    · exact ⟨_, List.mem_append_right _ List.mem_cons_self, rfl, rfl, rfl⟩
    · obtain ⟨l, hl, rest⟩ := h.counted r i hc fun he' => he ((ended r).mpr he')
      exact ⟨l, List.mem_append_left _ hl, rest⟩
  · intro z hz r phase
    rcases Clockwork.mem_setHandle hz with rfl | ⟨hz, -⟩
    · cases phase
      exact List.mem_cons_self
    · exact List.mem_cons_of_mem _ (h.home z hz r phase)
  · intro r i hc he
    rcases created hc with ⟨rfl, rfl⟩ | hc
    · exact ⟨_, List.mem_map.mpr ⟨x, hx, if_pos rfl⟩, rfl, .inl rfl⟩
    · obtain ⟨y, hy, rfl, phase⟩ := h.going r i hc fun he' => he ((ended r).mpr he')
      have other : y.id ≠ x.id := by
        intro same
        exact he ((ended r).mpr (all_ended r (same ▸ hc)))
      exact ⟨y, Clockwork.mem_setHandle_of_ne hy other, rfl, phase⟩
  · intro r q i hr hq er eq
    rcases created hr with ⟨rfl, rfl⟩ | hr <;> rcases created hq with ⟨rfl, same⟩ | hq
    · rfl
    · exact absurd ((ended q).mpr (all_ended q hq)) eq
    · exact absurd ((ended r).mpr (all_ended r (same ▸ hr))) er
    · exact h.one r q i hr hq (fun he => er ((ended r).mpr he)) fun he => eq ((ended q).mpr he)
  · exact fun r he => List.mem_cons_of_mem _ (h.ended r ((ended r).mp he))
  · intro n r hf
    rcases List.mem_append.mp hf with hf | hf
    · exact (ended r).mpr (h.forgets n r (taken ▸ List.mem_cons_of_mem _ hf))
    · cases List.mem_singleton.mp hf

/-- No two handles wait for a run. -/
theorem Runs.alone (h : w.Runs) {run : RunId} {x y : Handle} (hx : x ∈ w.runner.handles)
    (hy : y ∈ w.runner.handles) (px : x.phase = .running run) (py : y.phase = .running run) : x.id = y.id :=
  h.origin run x.id y.id (h.home x hx run px) (h.home y hy run py)

theorem Runs.runEnds (h : w.Runs) (ids : (w.runner.handles.map fun x => x.id).Nodup) {run : RunId}
    (waiters : List (Waiter TaskId)) {told : List TaskId} (how : RunEnd)
    (began : .began run ∈ w.history.events) : Runs (note { w with
      queue := w.queue ++ (0, some (.forgetRun run)) ::
        (wakes 1 ((w.runner.waitingFor? run).toList.map Handle.id) ++ words told)
      runner := { (w.runner.afterRun (w.runner.waitingFor? run) how).markEnded run with waiters } }
      (.ended run how)) := by
  obtain ⟨live, next⟩ := w.runner.afterRun_rest (w.runner.waitingFor? run) how
  have handles := Runner.afterRun_handles ids run (fun x hx y hy => h.alone hx hy) how
  have mute : ∀ p ∈ wakes 1 ((w.runner.waitingFor? run).toList.map Handle.id) ++ words told, Mute p.2 :=
    List.forall_mem_append.mpr ⟨mute_wakes _ _, mute_words _⟩
  have queue : SameBegins w.queue (w.queue ++ (0, some (.forgetRun run)) ::
      (wakes 1 ((w.runner.waitingFor? run).toList.map Handle.id) ++ words told)) :=
    .append _ (List.forall_mem_cons.mpr ⟨rfl, fun p hp => (mute p hp).begins⟩)
  have news : SameNews w.history ((w.now, .ended run how) :: w.history) := same_news nofun nofun
  have open_before : ∀ {r}, ¬ History.Ended ((w.now, .ended run how) :: w.history) r →
      ¬ w.history.Ended r ∧ r ≠ run := by
    refine fun {r} going => ⟨fun ⟨i, hi⟩ => going ⟨i, List.mem_cons_of_mem _ hi⟩, ?_⟩
    rintro rfl
    exact going ⟨how, List.mem_cons_self⟩
  refine ⟨h.toBegins.still queue (fun _ => rfl) news, ?_, ?_, ?_, ?_, ?_, ?_, ?_, ?_⟩
  · exact fun r i hc => (congrArg (r < ·) next).mpr (h.below r i ((news.created r i).mp hc))
  · exact fun r i j hi hj => h.origin r i j ((news.created r i).mp hi) ((news.created r j).mp hj)
  · intro r i hc he
    obtain ⟨going, other⟩ := open_before he
    obtain ⟨l, hl, id, rest⟩ := h.counted r i ((news.created r i).mp hc) going
    refine ⟨l, List.mem_map.mpr ⟨l, live.symm ▸ hl, if_neg fun same => ?_⟩, id, rest⟩
    exact other (id.symm.trans same)
  · intro z hz r phase
    obtain ⟨x, hx, rfl⟩ := List.mem_map.mp (handles ▸ (show z ∈ (w.runner.afterRun _ how).handles from hz))
    rw [Handle.phase_stopIf] at phase
    rw [Handle.id_stopIf]
    exact (news.created r x.id).mpr (h.home x hx r phase)
  · intro r i hc he
    obtain ⟨going, -⟩ := open_before he
    obtain ⟨x, hx, id, phase⟩ := h.going r i ((news.created r i).mp hc) going
    have mem : x.stopIf (Handle.Left run how) ∈ (w.runner.afterRun (w.runner.waitingFor? run) how).handles :=
      handles.symm ▸ List.mem_map_of_mem hx
    refine ⟨_, mem, (x.id_stopIf _).trans id, ?_⟩
    rw [Handle.phase_stopIf, Handle.ended_stopIf]
    exact phase
  · exact fun r q i hr hq er eq => h.one r q i ((news.created r i).mp hr) ((news.created q i).mp hq)
      (open_before er).1 (open_before eq).1
  · rintro r ⟨i, hi⟩
    refine (news.began r).mpr ?_
    rcases List.mem_cons.mp hi with same | hi
    · cases same
      exact began
    · exact h.ended r ⟨i, hi⟩
  · intro n r hf
    rcases List.mem_append.mp hf with hf | hf
    · obtain ⟨i, hi⟩ := h.forgets n r hf
      exact ⟨i, List.mem_cons_of_mem _ hi⟩
    · rcases List.mem_cons.mp hf with same | hf
      · cases same
        exact ⟨how, List.mem_cons_self⟩
      · exact (mute _ hf).elim

/-- A handle that is woken while it waits for a run does so because the run has ended. -/
def Awaits (w : Bench) : Prop := ∀ x ∈ w.runner.handles, ∀ run, (0, some (.wake x.id)) ∈ w.queue →
  x.ended = false → x.stopRequested = false → x.phase = .running run → w.history.Ended run

theorem Act.runs (act : w.Act v) (h : w.Runs) (asleep : w.Asleep)
    (ids : (w.runner.handles.map fun x => x.id).Nodup) (awaits : w.Awaits) : v.Runs := by
  have goes : ∀ {rest : List (Nat × Item)} {item : Item}, w.queue = (0, item) :: rest →
      beginOf (0, item) = none → SameRuns w.queue rest := fun taken quiet => taken ▸ .rest quiet
  cases act with
  | @skips n item rest heq =>
    have quiet : beginOf (n + 1, item) = none := by
      unfold beginOf
      split
      · next run begins =>
        cases h.prompt (n + 1) run (heq ▸ begins ▸ List.mem_cons_self)
      · rfl
    exact h.keep (heq ▸ .skips quiet) (fun _ => rfl) rfl (.inl rfl) rfl rfl
  | rouses due later split isDue still moves =>
    refine h.keep (.append _ (List.forall_mem_map.mpr fun t ht => ?_)) still rfl (.inl rfl) rfl rfl
    exact mute_timer (asleep t (split ▸ List.mem_append_left _ ht))
  | posts turns =>
    exact h.keep (.append _ (List.forall_mem_singleton.mpr trivial)) (fun _ => rfl) rfl (.inl rfl) rfl rfl
  | pauses delay =>
    unfold pause
    split
    · exact h.keep (.append _ (List.forall_mem_singleton.mpr trivial)) (fun _ => rfl) rfl (.inl rfl) rfl rfl
    · exact h.keep (.refl _) (fun _ => rfl) rfl (.inl rfl) rfl rfl
  | @idles item rest taken idle =>
    have quiet : beginOf (0, item) = none := by
      cases item with
      | none => rfl
      | some call =>
        obtain ⟨_, rfl, -⟩ := idle call rfl
        rfl
    exact h.keep (goes taken quiet) (fun _ => rfl) rfl (.inl rfl) rfl rfl
  | begins taken => exact h.begins taken
  | reports taken => exact h.keep (goes taken rfl) (fun _ => rfl) rfl (.inr ⟨_, _, rfl, trivial⟩) rfl rfl
  | forgetsHandle taken => exact h.keep (goes taken rfl) (fun _ => rfl) rfl (.inl rfl) rfl rfl
  | @forgetsRun run rest taken =>
    refine h.still (goes taken rfl) (fun _ => rfl) rfl (.inl rfl) (fun l hl going => ?_)
      (fun z hz _ phase => ⟨z, hz, rfl, phase⟩) fun x hx _ _ phase => ⟨x, hx, rfl, phase⟩
    refine List.mem_filter.mpr ⟨hl, bne_iff_ne.mpr ?_⟩
    rintro rfl
    exact going (h.forgets 0 l.id (taken ▸ List.mem_cons_self))
  | @sleeps x phase span d rest taken hx alive going hd because =>
    have waits : ∀ run, x.phase = .running run → w.history.Ended run :=
      fun run => awaits x hx run (taken ▸ List.mem_cons_self) alive going
    have idle : ∀ run, phase ≠ .running run := by
      rcases because with ⟨-, -, rfl⟩ | ⟨-, -, rfl⟩ <;> nofun
    have set : Runs { w with queue := rest, runner := w.runner.setHandle { x with phase } } :=
      h.set ids (y := { x with phase }) hx rfl idle (.inr ⟨alive, waits⟩) rfl rfl rfl (goes taken rfl) rfl rfl
    unfold pause
    split
    · exact set.keep (.append _ (List.forall_mem_singleton.mpr trivial)) (fun _ => rfl) rfl (.inl rfl) rfl rfl
    · exact set.keep (.refl _) (fun _ => rfl) rfl (.inl rfl) rfl rfl
  | starts taken hx alive going idle => exact h.starts ids taken hx alive idle
  | @finishes x waiters told rest cancelled taken hx alive because dismissed =>
    refine h.set ids (y := { x with phase := .ended cancelled }) hx rfl nofun (.inl rfl) rfl rfl rfl
      ((goes taken rfl).trans (.append _ ?_)) rfl rfl
    exact List.forall_mem_cons.mpr ⟨trivial, mute_words _⟩
  | @runEnds run waiters told how began going dismissed => exact h.runEnds ids waiters how began
  | @launches id plan fresh leaves =>
    refine h.still (.append _ (mute_wakes 0 _)) (fun _ => rfl) rfl (.inr ⟨_, _, rfl, trivial⟩)
      (fun _ hl _ => hl) ?_ fun x hx _ _ phase => ⟨x, List.mem_append_left _ hx, rfl, phase⟩
    intro z hz run phase
    rcases List.mem_append.mp hz with hz | hz
    · exact ⟨z, hz, rfl, phase⟩
    · cases List.mem_singleton.mp hz
      cases phase
  | @cancels id known => exact h.ask ids (mute_wakes 0 _) (e := .cancelled id) trivial w.shutdowns
  | stops current stop => exact stop.runs h ids

end Workshop.Bench
end BatteryLink
