import BatteryLink.Proofs.Rest
/-!
What those may rely on who have jobs done in a workshop: nothing unlawful happens, and what has to
happen does.
-/
namespace BatteryLink
namespace Workshop

variable {s : Workshop}

theorem step_history (s : Workshop) (m : Move) : ∃ new, (s.step m).history = new ++ s.history := by
  have acts := acts_step s m
  suffices ∀ {w v : Bench}, Bench.Acts w v → ∃ new, v.history = new ++ w.history from this acts
  intro w v acts
  induction acts with
  | refl => exact ⟨[], rfl⟩
  | tail _ act ih =>
    obtain ⟨new, same⟩ := ih
    rcases act.history_eq with ⟨current, stop⟩ | ⟨-, still | ⟨e, more, -⟩⟩
    · rcases stop.history_eq with ⟨-, more | ⟨pending, more⟩⟩
      · exact ⟨_ :: new, by rw [more, same]; rfl⟩
      · exact ⟨_ :: _ :: new, by rw [more, same]; rfl⟩
    · exact ⟨new, still.trans same⟩
    · exact ⟨_ :: new, by rw [more, same]; rfl⟩

theorem events_run {e : Event} (h : e ∈ s.history.events) (moves : List Move) :
    e ∈ (s.run moves).history.events := by
  induction moves generalizing s with
  | nil => exact h
  | cons m moves ih =>
    refine ih (s := s.step m) ?_
    obtain ⟨new, more⟩ := step_history s m
    rw [more, History.events, List.map_append]
    exact List.mem_append_right _ h

theorem pause_queue (w : Bench) (delay : Binary64) (item : Item) :
    ∃ more, (w.pause delay item).queue = w.queue ++ more := by
  unfold Bench.pause
  split
  · exact ⟨_, rfl⟩
  · exact ⟨[], (List.append_nil _).symm⟩

/-- What the runner has to do is put behind all that is to be done. -/
theorem after_queue (s : Workshop) (runner : Runner TaskId) (calls : Runner.Calls TaskId) :
    ∃ more, (s.after runner calls).agenda.queue = s.agenda.queue ++ more := by
  suffices ∀ w : Bench, ∃ more, (calls.foldl Bench.errand w).queue = w.queue ++ more by
    obtain ⟨more, grown⟩ := this { s.bench with runner }
    exact ⟨more, (congrArg Bench.queue (bench_after s runner calls)).trans grown⟩
  intro w
  induction calls generalizing w with
  | nil => exact ⟨[], (List.append_nil _).symm⟩
  | cons call calls ih =>
    obtain ⟨more, grown⟩ := ih (w.errand call)
    have one : ∃ item, (w.errand call).queue = w.queue ++ item := by
      cases call with
      | post turns call => exact ⟨_, rfl⟩
      | pause delay call => exact pause_queue w delay (some call)
    obtain ⟨item, first⟩ := one
    exact ⟨item ++ more, grown.trans (by rw [first, List.append_assoc])⟩

theorem deliver_queue (s : Workshop) (item : Item) :
    ∃ more, (s.deliver item).agenda.queue = s.agenda.queue ++ more := by
  have still : ∃ more, s.agenda.queue = s.agenda.queue ++ more := ⟨[], (List.append_nil _).symm⟩
  rcases item with - | (h | run | h | run | who)
  · exact still
  · have woken := after_queue s (s.runner.wake h).1 (s.runner.wake h).2
    unfold deliver wake
    dsimp only
    split <;> exact woken
  all_goals exact still

theorem step_queue (s : Workshop) {m : Move} (other : m ≠ .turn) :
    ∃ more, (s.step m).agenda.queue = s.agenda.queue ++ more := by
  have still : ∃ more, s.agenda.queue = s.agenda.queue ++ more := ⟨[], (List.append_nil _).symm⟩
  cases m with
  | turn => exact absurd rfl other
  | post turns => exact ⟨[(turns, none)], congrArg Bench.queue (bench_post s turns none)⟩
  | pause delay =>
    obtain ⟨more, grown⟩ := pause_queue s.bench delay none
    exact ⟨more, (congrArg Bench.queue (bench_pause s delay none)).trans grown⟩
  | launch h c =>
    unfold step
    dsimp only
    split
    · next plan _ _ => exact after_queue s (s.runner.launch h plan).1 (s.runner.launch h plan).2
    · exact still
  | cancel h =>
    unfold step
    dsimp only
    split
    · exact after_queue s (s.runner.cancel h).1 (s.runner.cancel h).2.1
    · exact still
  | finish run how =>
    unfold step
    dsimp only
    split
    · exact after_queue s (s.runner.endRun run (how == .givenUp)).1 (s.runner.endRun run (how == .givenUp)).2
    · exact still
  | shutdown current =>
    have asked := after_queue s (s.runner.shutdown s.shutdowns current).1
      (s.runner.shutdown s.shutdowns current).2.1
    unfold step shutdown
    dsimp only
    split <;> exact asked

def Move.isTurn : Move → Bool
  | .turn => true
  | _ => false

/-- What stands before a run that is to begin becomes less with each turn, and nothing is put before
it. -/
theorem begun_in_turns {run : RunId} {pre post : List (Nat × Item)}
    (heq : s.agenda.queue = pre ++ (0, some (.begin run)) :: post) {moves : List Move}
    (enough : pre.length < moves.countP Move.isTurn) : .began run ∈ (s.run moves).history.events := by
  induction moves generalizing s pre post with
  | nil => cases enough
  | cons m moves ih =>
    by_cases turn : m = .turn
    · subst turn
      rw [List.countP_cons_of_pos (show Move.isTurn .turn = true from rfl)] at enough
      obtain ⟨y, b, next, comes⟩ := Agenda.next?_ahead heq
      have stepped : s.step .turn = deliver { s with agenda := b } y := by
        unfold step turn
        dsimp only
        rw [next]
      change .began run ∈ ((s.step .turn).run moves).history.events
      rw [stepped]
      rcases comes with rfl | ⟨pre', post', still, shorter⟩
      · exact events_run (s := deliver { s with agenda := b } (some (.begin run))) List.mem_cons_self moves
      · obtain ⟨more, grown⟩ := deliver_queue { s with agenda := b } y
        have split : (deliver { s with agenda := b } y).agenda.queue =
            pre' ++ (0, some (.begin run)) :: (post' ++ more) := by
          rw [grown, still, List.append_assoc]
          rfl
        exact ih split (by omega)
    · have same : (m :: moves).countP Move.isTurn = moves.countP Move.isTurn := by
        refine List.countP_cons_of_neg fun isTurn => turn ?_
        cases m <;> first | rfl | cases isTurn
      obtain ⟨more, grown⟩ := step_queue s turn
      have split : (s.step m).agenda.queue = pre ++ (0, some (.begin run)) :: (post ++ more) := by
        rw [grown, heq, List.append_assoc]
        rfl
      exact ih split (same ▸ enough)

/-- What happens in a turn. The rest is somebody's doing. -/
def Event.OfTurn : Event → Prop
  | .created _ _ | .began _ | .stopped _ _ => True
  | _ => False

theorem turn_history (s : Workshop) :
    s.turn.history = s.history ∨ ∃ t e, s.turn.history = (t, e) :: s.history ∧ e.OfTurn := by
  unfold turn
  split
  · exact .inl rfl
  · next item agenda _ =>
    rcases item with - | (i | run | i | run | who)
    · exact .inl rfl
    · unfold deliver wake
      dsimp only
      split
      · exact .inr ⟨_, _, rfl, trivial⟩
      · exact .inl rfl
    · exact .inr ⟨_, _, rfl, trivial⟩
    · exact .inl rfl
    · exact .inl rfl
    · exact .inr ⟨_, _, rfl, trivial⟩

/-- A run ends only if its job does. -/
theorem ended_step {m : Move} {run : RunId} {how : RunEnd} (h : .ended run how ∈ (s.step m).history.events) :
    .ended run how ∈ s.history.events ∨ m = .finish run how := by
  have other : ∀ {t : Binary64} {e : Event}, .ended run how ∈ History.events ((t, e) :: s.history) →
      e ≠ .ended run how → .ended run how ∈ s.history.events ∨ m = .finish run how :=
    fun hm he => .inl ((List.mem_cons.mp hm).resolve_left he.symm)
  cases m with
  | turn =>
    rcases turn_history s with same | ⟨t, e, more, ofTurn⟩
    · exact .inl (same ▸ h)
    · refine other (t := t) (more ▸ h) ?_
      rintro rfl
      exact ofTurn.elim
  | post turns => exact .inl h
  | pause delay => exact .inl h
  | launch i c =>
    unfold step at h
    dsimp only at h
    split at h
    · exact other h nofun
    · exact .inl h
  | cancel i =>
    unfold step at h
    dsimp only at h
    split at h
    · exact other h nofun
    · exact .inl h
  | finish r how' =>
    unfold step at h
    dsimp only at h
    split at h
    · rcases List.mem_cons.mp h with same | h
      · cases same
        exact .inr rfl
      · exact .inl h
    · exact .inl h
  | shutdown current =>
    unfold step shutdown at h
    dsimp only at h
    split at h
    · exact other h nofun
    · exact other ((List.mem_cons.mp h).resolve_left nofun) nofun

theorem underWay_step {run : RunId} (h : s.isUnderWay run = true) (m : Move) :
    (s.step m).isUnderWay run = true ∨ ∃ how, m = .finish run how := by
  obtain ⟨began, going⟩ := isUnderWay_iff.mp h
  by_cases finished : ∃ how, m = .finish run how
  · exact .inr finished
  · refine .inl (isUnderWay_iff.mpr ⟨events_run began [m], ?_⟩)
    rintro ⟨how, ended⟩
    rcases ended_step ended with before | now
    · exact going ⟨how, before⟩
    · exact finished ⟨how, now⟩

/-- A handle that recurs and that nobody has asked to stop goes on after a run, however it has ended: as
long as the next has not been created there is something to be done, and the clock does not go past
the time for it. -/
theorem goes_on (h : s.bench.InHand) {i : HandleId} {rest : Span} {d t : Binary64}
    (launched : .launched i (.every rest) ∈ s.history.events) (hd : rest.onClock? = some d)
    (free : ¬ s.history.Asked i) (last : s.history.lastEnd i = some t) :
    s.agenda.next?.isSome ∧ (s.agenda.now = t ∨ (t.add d).lt s.agenda.now = false) := by
  obtain ⟨x, hx, rfl, plan⟩ := h.roster.known i _ launched
  have active : ¬ (x.ended = true ∨ x.stopRequested = true) := by
    intro past
    rcases h.roster.free x hx past with asked | past
    · exact free asked
    · exact past rest d plan hd
  obtain ⟨alive, going⟩ := not_or.mp active
  have busy : 0 < s.bench.woken x.id → s.agenda.next?.isSome :=
    fun woken => Agenda.next?_isSome (.inl (Bench.queue_of_woken (w := s.bench) woken))
  cases h.paced.stage x hx (Bool.eq_false_iff.mpr alive) (Bool.eq_false_iff.mpr going) with
  | fresh _ none _ =>
    obtain ⟨run, hc⟩ := History.created_of_lastEnd last
    exact absurd hc (none run)
  | busy _ _ none _ _ => cases none.symm.trans last
  | done _ _ now woken _ =>
    cases now.symm.trans last
    exact ⟨busy (woken ▸ Nat.one_pos), .inl rfl⟩
  | resting _ same hd' last' waits =>
    cases same.symm.trans plan
    cases hd.symm.trans hd'
    cases last.symm.trans last'
    rcases waits with ⟨woken, -, -, ahead⟩ | ⟨-, -, u, hu, -, due, ahead⟩
    · exact ⟨busy (woken ▸ Nat.one_pos), ahead⟩
    · exact ⟨Agenda.next?_isSome (.inr (List.ne_nil_of_mem hu)), due ▸ ahead⟩

/-- Turns ask no handle to stop and end no run. Unless a run of it is created, nothing has changed for a
handle when they are over. -/
theorem turns_history (s : Workshop) (i : HandleId) (n : Nat) : ∃ new : History,
    (s.run (List.replicate n .turn)).history = new ++ s.history ∧ ((∃ run, .created run i ∈ new.events) ∨
      (History.Asked i (new ++ s.history) → s.history.Asked i) ∧
        History.lastEnd i (new ++ s.history) = s.history.lastEnd i) := by
  induction n with
  | zero => exact ⟨[], rfl, .inr ⟨id, rfl⟩⟩
  | succ n ih =>
    obtain ⟨new, grown, before⟩ := ih
    have last : s.run (List.replicate (n + 1) .turn) = (s.run (List.replicate n .turn)).turn := by
      unfold run
      rw [List.replicate_succ', List.foldl_append]
      rfl
    rw [last]
    rcases turn_history (s.run (List.replicate n .turn)) with same | ⟨t, e, more, ofTurn⟩
    · exact ⟨new, same.trans grown, before⟩
    · refine ⟨(t, e) :: new, more.trans (congrArg _ grown), ?_⟩
      rcases before with ⟨run, hc⟩ | ⟨asked, open'⟩
      · exact .inl ⟨run, List.mem_cons_of_mem _ hc⟩
      · by_cases own : ∃ run, e = .created run i
        · obtain ⟨run, rfl⟩ := own
          exact .inl ⟨run, List.mem_cons_self⟩
        · have foreign : Bench.Foreign (new ++ s.history) i e := by
            refine ⟨fun run same => own ⟨run, same⟩, ?_⟩
            rintro run how rfl
            exact ofTurn.elim
          have asks : ¬ History.Asks i (new ++ s.history) e := by
            cases e <;> first | exact ofTurn.elim | exact id
          exact .inr ⟨fun past => asked (past.resolve_left asks),
            (Bench.lastEnd_foreign foreign t).trans open'⟩

/-- A handle that recurs has its next run when all that is to be done is done, if nobody asks it to
stop. -/
theorem runs_again (h : s.bench.InHand) {i : HandleId} {rest : Span} {d t : Binary64}
    (launched : .launched i (.every rest) ∈ s.history.events) (hd : rest.onClock? = some d)
    (free : ¬ s.history.Asked i) (last : s.history.lastEnd i = some t) :
    ∃ n run new, (s.run (List.replicate n .turn)).history = new ++ s.history ∧
      .created run i ∈ new.events := by
  obtain ⟨n, still⟩ := comes_to_rest s h
  obtain ⟨new, grown, ⟨run, hc⟩ | ⟨asked, same⟩⟩ := turns_history s i n
  · exact ⟨n, run, new, grown, hc⟩
  · have waits := inHand_run h (List.replicate n .turn)
    obtain ⟨more, -⟩ := goes_on waits (events_run launched _) hd (grown ▸ fun past => free (asked past))
      (grown ▸ same.trans last)
    rw [still] at more
    cases more

/-- What those may rely on who have jobs done. -/
structure Reliable (s : Workshop) : Prop where
  lawful : s.history.Lawful
  /-- A run that has been created begins after so many turns, whatever else is done. -/
  begins : ∀ run h, .created run h ∈ s.history.events → .began run ∉ s.history.events →
    ∃ n, ∀ moves : List Move, n ≤ moves.countP Move.isTurn → .began run ∈ (s.run moves).history.events
  /-- A run that is under way goes on until its job ends. -/
  stays : ∀ run m, s.isUnderWay run = true → (s.step m).isUnderWay run = true ∨ ∃ how, m = .finish run how
  /-- A handle that recurs goes on after a run, however it has ended, until it is asked to stop: the time
  for the next run is not missed, and if nothing else is done the run is created. -/
  recurs : ∀ h rest d t, .launched h (.every rest) ∈ s.history.events → rest.onClock? = some d →
    ¬ s.history.Asked h → s.history.lastEnd h = some t →
    (s.agenda.now = t ∨ (t.add d).lt s.agenda.now = false) ∧
      ∃ n run new, (s.run (List.replicate n .turn)).history = new ++ s.history ∧
        .created run h ∈ new.events

/-- Whatever is done in a workshop, all may rely on it. -/
theorem reliable_run (now : Binary64) (moves : List Move) : ((opened now).run moves).Reliable := by
  have h := inHand_run (Bench.inHand_opened now) moves
  refine ⟨h.lawful, fun run i hc hb => ?_, fun run m going => underWay_step going m,
    fun i rest d t launched hd free last =>
      ⟨(goes_on h launched hd free last).2, runs_again h launched hd free last⟩⟩
  obtain ⟨⟨n, item⟩, hp, begins⟩ := List.mem_filterMap.mp (h.runs.due run i hc hb)
  have same : item = some (.begin run) := by
    unfold Bench.beginOf at begins
    split at begins
    · next r same =>
      cases begins
      exact same
    · cases begins
  subst same
  cases h.runs.prompt n run hp
  obtain ⟨pre, post, heq⟩ := List.append_of_mem hp
  exact ⟨pre.length + 1, fun more enough => begun_in_turns heq enough⟩

/-- A job that raises is run again ten seconds later; its handle is cancelled while it is being done for
the second time, and a shutdown waits for it. -/
theorem reliable_run_overtaken :
    let s := (opened .zero).run [.launch 0 (.every (.int 10)), .turn, .turn, .finish 0 .raised, .turn, .turn,
      .turn, .turn, .cancel 0, .shutdown none, .turn, .turn, .finish 1 .returned, .turn, .turn, .turn, .turn]
    s.Reliable ∧ s.agenda.now = .ofRatio false 10 1 ∧ s.history.events = [.stopped 0 0, .ended 1 .returned,
      .stopping 0 none, .cancelled 0, .began 1, .created 1 0, .ended 0 .raised, .began 0, .created 0 0,
      .launched 0 (.every (.whole 10))] :=
  ⟨reliable_run _ _, by decide +kernel, by decide +kernel⟩

end Workshop
end BatteryLink
