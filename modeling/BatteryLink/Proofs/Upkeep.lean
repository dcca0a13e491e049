import BatteryLink.Proofs.Frame
/-!
What turns tell of jobs and toggles: the jobs that they plan and cancel, and the toggles that they
switch off. Everything else that they tell is news of the device.
-/
namespace BatteryLink

open Routine (Cause Next Effect Held Polled Ordered Purpose)

/-- News of the device, and the passing of the lock. -/
inductive Notice.Idle : Notice → Prop
  | said {n : Notice} : Poll.Says n → Idle n
  | granted (t : TaskId) : Idle (.granted t)

/-- Notices that a scheduler gets. -/
def Notice.isChore : Notice → Bool
  | .scheduled _ _ _ | .cancelled _ => true
  | _ => false

theorem Notice.Idle.not_chore {n : Notice} (h : n.Idle) : n.isChore = false := by
  cases h with
  | said h => cases h <;> rfl
  | granted t => rfl

namespace Session

/-- What a scheduler gets after a turn. -/
def chores (s : Session) : List Notice := s.outbox.filter Notice.isChore

/-- Apart from idle notices a turn tells this. -/
def Tells (s : Session) (news : List Notice) : Prop :=
  ∃ pre post, s.outbox = pre ++ news ++ post ∧ (∀ n ∈ pre, n.Idle) ∧ ∀ n ∈ post, n.Idle

/-- What the host application hears when a toggle is switched off. -/
def offer (s : Session) (toggle : Option String) : List Notice :=
  match toggle with
  | none => []
  | some channel => if s.hears channel then [.published channel (.value (.switch false))] else []

/-- The books of jobs are the same. -/
structure Keeps (s u : Session) : Prop where
  disposed : u.disposed = s.disposed
  pollJob : u.pollJob = s.pollJob
  pending : u.pending = s.pending
  nextJob : u.nextJob = s.nextJob

theorem Keeps.refl (s : Session) : s.Keeps s := ⟨rfl, rfl, rfl, rfl⟩

theorem Keeps.trans {s u v : Session} (h : s.Keeps u) (k : u.Keeps v) : s.Keeps v :=
  ⟨k.disposed.trans h.disposed, k.pollJob.trans h.pollJob, k.pending.trans h.pending,
    k.nextJob.trans h.nextJob⟩

theorem filter_idle {ns : List Notice} (h : ∀ n ∈ ns, n.Idle) : ns.filter Notice.isChore = [] := by
  rw [List.filter_eq_nil_iff]
  intro n hn
  simp [(h n hn).not_chore]

theorem Tells.chores {s : Session} {news : List Notice} (h : s.Tells news) :
    s.chores = news.filter Notice.isChore := by
  obtain ⟨pre, post, hs, hpre, hpost⟩ := h
  unfold Session.chores
  rw [hs, List.filter_append, List.filter_append, filter_idle hpre, filter_idle hpost]
  simp

theorem chores_offer (s : Session) (toggle : Option String) :
    (s.offer toggle).filter Notice.isChore = [] := by
  unfold offer
  split
  · rfl
  · split <;> rfl

theorem tells_nil {s : Session} (h : ∀ n ∈ s.outbox, n.Idle) : s.Tells [] :=
  ⟨s.outbox, [], by simp, h, by simp⟩

/-- The lock is passed on after everything else. -/
theorem Tells.released {s : Session} {news : List Notice} (h : s.Tells news) :
    s.released.Tells news := by
  obtain ⟨pre, post, hs, hpre, hpost⟩ := h
  unfold Session.released
  split
  · exact ⟨pre, post, hs, hpre, hpost⟩
  · next t _ _ =>
    refine ⟨pre, post ++ [.granted t], ?_, hpre, ?_⟩
    · simp [emit, hs]
    · intro n hn
      rcases List.mem_append.mp hn with hn | hn
      · exact hpost n hn
      · rw [List.mem_singleton.mp hn]
        exact .granted t

theorem offered_outbox (s : Session) (toggle : Option String) :
    (s.offered toggle).outbox = s.outbox ++ s.offer toggle := by
  cases toggle with
  | none => simp [offered, offer]
  | some channel =>
    unfold offered offer
    by_cases h : s.hears channel = true
    · simp [h, emit]
    · simp [h]

theorem keeps_offered (s : Session) (toggle : Option String) : s.Keeps (s.offered toggle) := by
  obtain ⟨_, h⟩ := s.offered_eq toggle
  rw [h]
  exact ⟨rfl, rfl, rfl, rfl⟩

theorem keeps_released (s : Session) : s.Keeps s.released := by
  obtain ⟨_, _, h⟩ := s.released_eq
  rw [h]
  exact ⟨rfl, rfl, rfl, rfl⟩

/-- What is heard of a toggle depends on the gate to the host application alone. -/
theorem offer_congr {s u : Session} (disposed : u.disposed = s.disposed) (health : u.health = s.health)
    (host : u.host = s.host) (toggle : Option String) : u.offer toggle = s.offer toggle := by
  unfold offer hears
  rw [disposed, health, host]

theorem offer_released (s : Session) (toggle : Option String) :
    s.released.offer toggle = s.offer toggle := by
  obtain ⟨_, _, h⟩ := s.released_eq
  rw [h]
  exact offer_congr rfl rfl rfl toggle

theorem offer_offered (s : Session) (toggle : Option String) :
    (s.offered toggle).offer toggle = s.offer toggle := by
  obtain ⟨_, h⟩ := s.offered_eq toggle
  rw [h]
  exact offer_congr rfl rfl rfl toggle

theorem offer_disposed {s : Session} (h : s.disposed = true) (toggle : Option String) :
    s.offer toggle = [] := by
  unfold offer hears
  cases toggle <;> simp [h]

/-- The end of an order switches its toggle off, as far as the host application hears of it. -/
theorem tells_offered {s : Session} (h : s.outbox = []) (toggle : Option String) :
    (s.offered toggle).Tells (s.offer toggle) :=
  ⟨[], [], by simp [offered_outbox, h], by simp, by simp⟩

end Session

namespace Routine

variable {self : TaskId} {s : Session} {p : Except Trouble Next × Session}

/-- The poll that follows an order. -/
def followUp (id : JobId) (toggle : Option String) : Notice :=
  .scheduled id (.after (.ofMilliseconds Order.followUpDelay)) (.followUp id toggle)

/-- What a turn of an order means for its toggle: nothing while it goes on; at its end a poll is
planned, or the toggle is switched off at once. -/
inductive Reset (toggle : Option String) (cut : Trouble → Prop) (s : Session) :
    Except Trouble Next × Session → Prop
  | waits {next : Next} {u : Session} : (∀ o, next ≠ .done o) → s.Keeps u → u.Tells [] →
      Reset toggle cut s (.ok next, u)
  | accepted {t : Tally} {u : Session} : t.ok = true → u.disposed = s.disposed →
      u.pollJob = s.pollJob → u.pending = s.pending ++ [s.nextJob] →
      u.nextJob = s.nextJob + 1 → u.Tells [followUp s.nextJob toggle] →
      Reset toggle cut s (.ok (.done (.tally t)), u)
  | refused {t : Tally} {u : Session} : t.ok = false → s.Keeps u → u.Tells (u.offer toggle) →
      Reset toggle cut s (.ok (.done (.tally t)), u)
  | unheard {e : Trouble} {u : Session} : e.OfHost s.host → s.Keeps u → u.Tells (u.offer toggle) →
      Reset toggle cut s (.error e, u)
  | interrupted {e : Trouble} {u : Session} : cut e → s.Keeps u → u.Tells [] →
      Reset toggle cut s (.error e, u)

theorem tells_refused (hs : s.outbox = []) {t : Tally} (ht : t.ok = false) (toggle : Option String) :
    s.Keeps (s.concluded t toggle).released ∧
      (s.concluded t toggle).released.Tells ((s.concluded t toggle).released.offer toggle) := by
  have offered : s.concluded t toggle = { s with lastResult := some t }.offered toggle := by
    unfold Session.concluded
    rw [ht, if_neg Bool.false_ne_true]
  have keeps : s.Keeps { s with lastResult := some t } := ⟨rfl, rfl, rfl, rfl⟩
  rw [offered]
  refine ⟨(keeps.trans (Session.keeps_offered _ _)).trans (Session.keeps_released _), ?_⟩
  rw [Session.offer_released, Session.offer_offered]
  have swept : { s with lastResult := some t }.outbox = [] := hs
  exact (Session.tells_offered swept toggle).released

theorem Held.reset {toggle : Option String} {n : Nat} {asks runs : Prop} {cut : Trouble → Prop}
    (h : Held toggle n asks runs cut s p) (hs : s.outbox = []) : Reset toggle cut s p := by
  have quiet : s.Tells [] := Session.tells_nil (by simp [hs])
  cases h with
  | goes _ h =>
    cases h with
    | asked _ _ _ => exact .waits nofun (.refl s) quiet
    | paused _ _ => exact .waits nofun (.refl s) quiet
    | ended t =>
      cases ht : t.ok with
      | true =>
        have followed : s.concluded t toggle =
            { s with lastResult := some t }.followedUp toggle := by
          unfold Session.concluded
          rw [ht, if_pos rfl]
        have keeps := (s.concluded t toggle).keeps_released
        have told : (s.concluded t toggle).Tells [followUp s.nextJob toggle] := by
          rw [followed]
          refine ⟨[], [], ?_, by simp, by simp⟩
          simp [Session.followedUp, Session.entrusted, Session.emit, hs, followUp]
        have pollJob := keeps.pollJob
        have pending := keeps.pending
        have nextJob := keeps.nextJob
        rw [followed] at pollJob pending nextJob
        exact .accepted ht ((calm_concluded s t toggle).trans (calm_released _)).disposed
          (by rw [followed]; exact pollJob) (by rw [followed]; exact pending)
          (by rw [followed]; exact nextJob) told.released
      | false =>
        obtain ⟨keeps, told⟩ := tells_refused hs ht toggle
        exact .refused ht keeps told
    | unheard t ht he =>
      obtain ⟨keeps, told⟩ := tells_refused hs ht toggle
      exact .unheard he keeps told
  | dropped hd =>
    refine .refused rfl s.keeps_released ?_
    rw [Session.offer_released, Session.offer_disposed hd]
    exact quiet.released
  | interrupted he => exact .interrupted he s.keeps_released quiet.released

theorem Ordered.reset {k : Order.Kind} (h : Ordered self k s p) (hs : s.outbox = []) :
    Reset k.toggle (fun _ => False) s p := by
  cases h with
  | queued _ => exact .waits nofun ⟨rfl, rfl, rfl, rfl⟩ (Session.tells_nil (by simp [Session.queued, hs]))
  | held _ h =>
    have swept : (s.locked self).outbox = [] := hs
    cases h.reset swept with
    | waits goes keeps told => exact .waits goes ⟨keeps.1, keeps.2, keeps.3, keeps.4⟩ told
    | accepted ht disposed pollJob pending nextJob told =>
      exact .accepted ht disposed pollJob pending nextJob told
    | refused ht keeps told => exact .refused ht ⟨keeps.1, keeps.2, keeps.3, keeps.4⟩ told
    | unheard he keeps told => exact .unheard he ⟨keeps.1, keeps.2, keeps.3, keeps.4⟩ told
    | interrupted he _ _ => exact he.elim

theorem keeps_path {u : Session} (path : Poll.Path s u) : s.Keeps u := by
  obtain ⟨_, _, _, _, _, rfl⟩ := path.spares
  exact ⟨rfl, rfl, rfl, rfl⟩

theorem idle_path {u : Session} (path : Poll.Path s u) (hs : s.outbox = []) :
    ∀ n ∈ u.outbox, n.Idle := by
  obtain ⟨ns, hns, said⟩ := path.says
  rw [hns, hs, List.nil_append]
  exact fun n hn => .said (said n hn)

/-- A result after which a task has ended. -/
def Ended (r : Except Trouble Next) : Prop := ∀ next, r = .ok next → ∃ o, next = .done o

theorem ended_error (e : Trouble) : Ended (.error e) := by
  intro next h
  cases h

/-- A result after which a task waits. -/
def Waits (r : Except Trouble Next) : Prop := ∃ next, r = .ok next ∧ ∀ o, next ≠ .done o

theorem Waits.ask {r : Except Trouble Next} {x : Exchange} {k : Asked} (h : r = .ok (.ask x k)) :
    Waits r := by
  refine ⟨_, h, ?_⟩
  rintro o ⟨⟩

theorem Waits.pause {r : Except Trouble Next} {w : Order.Writing} (h : r = .ok (.pause w)) :
    Waits r := by
  refine ⟨_, h, ?_⟩
  rintro o ⟨⟩

theorem Waits.queue {r : Except Trouble Next} {k : Order.Kind} (h : r = .ok (.queue k)) :
    Waits r := by
  refine ⟨_, h, ?_⟩
  rintro o ⟨⟩

theorem Waits.not_ended {r : Except Trouble Next} (h : Waits r) : ¬ Ended r := by
  obtain ⟨next, hr, goes⟩ := h
  intro ended
  obtain ⟨out, done⟩ := ended next hr
  exact goes out done

/-- What a turn of a follow-up means for its job and its toggle: nothing while it goes on; at its end
the job is crossed out and the toggle switched off. -/
inductive Settle (id : JobId) (toggle : Option String) (s : Session) :
    Except Trouble Next × Session → Prop
  | waits {r : Except Trouble Next} {u : Session} : Waits r → s.Keeps u → u.Tells [] →
      Settle id toggle s (r, u)
  | settled {r : Except Trouble Next} {u : Session} : Ended r → u.disposed = s.disposed →
      u.pollJob = s.pollJob → u.pending = s.pending.erase id → u.nextJob = s.nextJob →
      u.Tells (u.offer toggle) → Settle id toggle s (r, u)

theorem settled_settle {u : Session} (path : Poll.Path s u) (hs : s.outbox = []) (id : JobId)
    (toggle : Option String) {r : Except Trouble Next} (hr : Ended r) :
    Settle id toggle s (r, u.settled (.followUp id toggle)) := by
  have keeps := keeps_path path
  have idle := idle_path path hs
  have offered := Session.keeps_offered { u with pending := u.pending.erase id } toggle
  have pending := offered.pending.trans (congrArg (·.erase id) keeps.pending)
  refine .settled hr (offered.disposed.trans keeps.disposed) (offered.pollJob.trans keeps.pollJob) pending
    (offered.nextJob.trans keeps.nextJob) ⟨u.outbox, [], ?_, idle, by simp⟩
  have outbox := Session.offered_outbox { u with pending := u.pending.erase id } toggle
  have offer := Session.offer_offered { u with pending := u.pending.erase id } toggle
  rw [List.append_nil]
  exact outbox.trans (congrArg _ offer.symm)

theorem Polled.settle {id : JobId} {toggle : Option String} {n : Nat} {cut : Trouble → Prop}
    (h : Polled (.followUp id toggle) n cut s p) (hs : s.outbox = []) : Settle id toggle s p := by
  cases h with
  | asked _ _ path =>
    exact .waits ⟨_, rfl, nofun⟩ (keeps_path path) (Session.tells_nil (idle_path path hs))
  | ended complete path =>
    apply settled_settle path hs id toggle
    rintro next ⟨⟩
    exact ⟨_, rfl⟩
  | failed _ path => exact settled_settle path hs id toggle (ended_error _)

/-- Other polls have nothing to do with jobs and toggles. -/
theorem Polled.quiet {purpose : Purpose} {n : Nat} {cut : Trouble → Prop}
    (h : Polled purpose n cut s p) (hs : s.outbox = [])
    (other : ∀ id toggle, purpose ≠ .followUp id toggle) : s.Keeps p.2 ∧ p.2.Tells [] := by
  have same : ∀ u : Session, u.settled purpose = u := by
    intro u
    cases purpose with
    | answer => rfl
    | refresh => rfl
    | followUp id toggle => exact absurd rfl (other id toggle)
  cases h with
  | asked _ _ path => exact ⟨keeps_path path, Session.tells_nil (idle_path path hs)⟩
  | ended _ path =>
    rw [same]
    exact ⟨keeps_path path, Session.tells_nil (idle_path path hs)⟩
  | failed _ path =>
    rw [same]
    exact ⟨keeps_path path, Session.tells_nil (idle_path path hs)⟩

/-- The result of an order that the device has taken in full. -/
def Accepts (o : Operation) (r : Except Trouble Next) : Prop :=
  o.isOrder = true ∧ ∃ t, r = .ok (.done (.tally t)) ∧ t.ok = true

/-- What a turn of an operation does to the books of jobs, and what it tells a scheduler. -/
inductive Upkeep (o : Operation) (s : Session) : Except Trouble Next × Session → Prop
  | same {r : Except Trouble Next} {u : Session} : ¬ Accepts o r → s.Keeps u → u.chores = [] →
      ((∃ id toggle, o = .followUp id toggle) → Waits r) → Upkeep o s (r, u)
  | planned {r : Except Trouble Next} {u : Session} {toggle : Option String} : Accepts o r →
      u.disposed = s.disposed → u.pollJob = s.pollJob → u.pending = s.pending ++ [s.nextJob] →
      u.nextJob = s.nextJob + 1 → u.chores = [followUp s.nextJob toggle] → Upkeep o s (r, u)
  | settled {r : Except Trouble Next} {u : Session} {id : JobId} {toggle : Option String} :
      o = .followUp id toggle → Ended r → u.disposed = s.disposed → u.pollJob = s.pollJob →
      u.pending = s.pending.erase id → u.nextJob = s.nextJob → u.chores = [] → Upkeep o s (r, u)
  | polling {r : Except Trouble Next} {u : Session} {rest : Span} : o = .connect →
      s.disposed = false → u.disposed = s.disposed → u.pollJob = some s.nextJob → u.pending = s.pending →
      u.nextJob = s.nextJob + 1 → u.chores = [.scheduled s.nextJob (.every rest) .poll] →
      Upkeep o s (r, u)
  | closed {r : Except Trouble Next} {u : Session} : o = .dispose → u.disposed = true →
      u.pollJob = none → u.pending = [] → u.nextJob = s.nextJob → u.chores = s.upkeep.map .cancelled →
      Upkeep o s (r, u)

theorem not_accepts_error (o : Operation) (e : Trouble) : ¬ Accepts o (.error e) := by
  rintro ⟨-, t, ht, -⟩
  cases ht

theorem not_accepts_of_waits {o : Operation} {next : Next} (h : ∀ out, next ≠ .done out) :
    ¬ Accepts o (.ok next) := by
  rintro ⟨-, t, ht, -⟩
  exact h _ (Except.ok.inj ht)

theorem not_accepts_tally {o : Operation} {t : Tally} (h : t.ok = false) :
    ¬ Accepts o (.ok (.done (.tally t))) := by
  rintro ⟨-, _, ⟨⟩, ht⟩
  cases h.symm.trans ht

theorem not_accepts_other {o : Operation} {r : Except Trouble Next} (h : o.isOrder = false) :
    ¬ Accepts o r := by
  rintro ⟨ho, -⟩
  cases h.symm.trans ho

theorem Upkeep.quiet {o : Operation} (refused : ¬ Accepts o p.1) (h : s.Keeps p.2 ∧ p.2.Tells [])
    (ho : ∀ id toggle, o ≠ .followUp id toggle) : Upkeep o s p :=
  .same refused h.1 h.2.chores fun ⟨id, toggle, he⟩ => absurd he (ho id toggle)

theorem Reset.upkeep {toggle : Option String} {cut : Trouble → Prop} {o : Operation}
    (h : Reset toggle cut s p) (ho : o.isOrder = true) : Upkeep o s p := by
  have other : (∃ id toggle, o = .followUp id toggle) → ∀ P : Prop, P := by
    rintro ⟨id, toggle, rfl⟩
    cases ho
  cases h with
  | waits goes keeps told =>
    exact .same (not_accepts_of_waits goes) keeps told.chores fun h => other h _
  | accepted ht disposed pollJob pending nextJob told =>
    exact .planned ⟨ho, _, rfl, ht⟩ disposed pollJob pending nextJob told.chores
  | refused ht keeps told =>
    exact .same (not_accepts_tally ht) keeps (told.chores.trans (Session.chores_offer _ _)) fun h => other h _
  | unheard _ keeps told =>
    exact .same (not_accepts_error o _) keeps (told.chores.trans (Session.chores_offer _ _)) fun h => other h _
  | interrupted _ keeps told =>
    exact .same (not_accepts_error o _) keeps told.chores fun h => other h _

theorem Begun.upkeep {o : Operation} (h : Begun self o s p) (hs : s.outbox = [])
    (ho : o.isOrder = true) : Upkeep o s p := by
  have other : ∀ id toggle, o ≠ .followUp id toggle := by
    rintro id toggle rfl
    cases ho
  have quiet : s.Tells [] := Session.tells_nil (by simp [hs])
  have offered : ∀ toggle, (s.offered toggle).chores = [] := fun toggle =>
    (Session.tells_offered hs toggle).chores.trans (s.chores_offer toggle)
  have none : ∀ {P : Prop}, (∃ id toggle, o = .followUp id toggle) → P :=
    fun ⟨id, toggle, he⟩ => absurd he (other id toggle)
  have nothing : ¬ Accepts o (.ok (.done .nothing)) := by
    rintro ⟨-, _, ⟨⟩, -⟩
  cases h with
  | idle h =>
    refine .quiet ?_ ⟨.refl s, quiet⟩ other
    rcases h with rfl | ⟨f, rfl⟩
    · exact nothing
    · exact not_accepts_error o _
  | wrote _ => exact .quiet nothing ⟨⟨rfl, rfl, rfl, rfl⟩, quiet⟩ other
  | ordered _ _ h => exact (h.reset hs).upkeep ho
  | @turnedDown toggle =>
    have keeps := s.keeps_offered toggle
    exact .same (not_accepts_tally rfl) ⟨keeps.1, keeps.2, keeps.3, keeps.4⟩ (offered toggle) none
  | @unheard toggle _ _ =>
    exact .same (not_accepts_error o _) (s.keeps_offered toggle) (offered toggle) none

theorem Polled.not_accepts {purpose : Purpose} {n : Nat} {cut : Trouble → Prop}
    (h : Polled purpose n cut s p) (o : Operation) : ¬ Accepts o p.1 := by
  cases h with
  | asked _ _ _ => exact not_accepts_of_waits nofun
  | ended complete _ =>
    rintro ⟨-, t, ht, -⟩
    cases purpose <;> cases ht
  | failed _ _ => exact not_accepts_error o _

theorem tells_told (hs : s.outbox = []) (status : DeviceStatus) (detail : Option String) :
    s.Keeps (s.told status detail) ∧ (s.told status detail).Tells [] := by
  unfold Session.told
  split
  · exact ⟨.refl s, Session.tells_nil (by simp [hs])⟩
  · refine ⟨⟨rfl, rfl, rfl, rfl⟩, Session.tells_nil ?_⟩
    simpa [Session.emit, hs] using .said (.reported status detail)

theorem upkeep_closed (hs : s.outbox = []) (r : Except Trouble Next) :
    Upkeep .dispose s (r, s.closed) := by
  refine .closed rfl rfl rfl rfl rfl ?_
  unfold Session.chores Session.closed
  simp [hs, List.filter_map, Function.comp_def, Notice.isChore]

theorem upkeep_polling {u : Session} (path : Poll.Path s u) (hs : s.outbox = [])
    (r : Except Trouble Next) : Upkeep .connect s (r, u.polling) := by
  have keeps := keeps_path path
  have idle := idle_path path hs
  have disposed := path.spares.disposed
  unfold Session.polling
  by_cases hd : u.disposed = true
  · rw [if_pos hd]
    exact .same (not_accepts_other rfl) keeps (Session.filter_idle idle)
      (by rintro ⟨id, toggle, h⟩; cases h)
  · rw [if_neg hd]
    have live : s.disposed = false := by
      rw [← disposed]
      exact Bool.eq_false_iff.mpr hd
    have chores : (u.entrusted (.every (.whole u.config.refreshInterval)) fun _ => .poll).chores =
        [.scheduled u.nextJob (.every (.whole u.config.refreshInterval)) .poll] := by
      unfold Session.chores Session.entrusted Session.emit
      dsimp only
      rw [List.filter_append, Session.filter_idle idle]
      rfl
    rw [keeps.nextJob] at chores
    exact .polling rfl live disposed (congrArg some keeps.nextJob) keeps.pending
      (congrArg (· + 1) keeps.nextJob) chores

theorem Started.upkeep {o : Operation} (h : Started self s o p) (hs : s.outbox = []) :
    Upkeep o s p := by
  cases h with
  | order ho h => exact h.upkeep hs ho
  | probed => exact .quiet (not_accepts_other rfl) ⟨.refl s, Session.tells_nil (by simp [hs])⟩ nofun
  | greeted => exact .quiet (not_accepts_other rfl) (tells_told hs _ _) nofun
  | ungreeted => exact .quiet (not_accepts_other rfl) (tells_told hs _ _) nofun
  | closed => exact upkeep_closed hs _

/-- Every turn keeps the books of jobs in one of these ways. -/
theorem Effect.upkeep {o : Operation} {c : Cause} (h : Effect self s c p) (hs : s.outbox = [])
    (serves : c.Serves o) : Upkeep o s p := by
  cases h with
  | started h =>
    cases serves
    exact h.upkeep hs
  | @polled _ purpose n _ hp h =>
    have refused : ¬ Accepts o p.1 := h.not_accepts o
    cases hp.serves serves with
    | poll => exact .quiet refused (h.quiet hs nofun) nofun
    | refresh _ => exact .quiet refused (h.quiet hs nofun) nofun
    | followUp id toggle =>
      cases h.settle hs with
      | waits waits keeps told => exact .same refused keeps told.chores fun _ => waits
      | settled ended disposed pollJob pending nextJob told =>
        exact .settled rfl ended disposed pollJob pending nextJob (told.chores.trans (Session.chores_offer _ _))
  | held hc h => exact (h.reset hs).upkeep (hc.serves serves).1
  | @probed _ r u hc path =>
    have quiet := And.intro (keeps_path path) (Session.tells_nil (idle_path path hs))
    rcases hc.serves serves with rfl | rfl
    · exact .quiet (not_accepts_other rfl) quiet nofun
    · exact .quiet (not_accepts_other rfl) quiet nofun
  | polling path =>
    cases serves
    exact upkeep_polling path hs _

/-- Only the end of an order that the device has taken in full plans a job, and that is a poll. -/
theorem Upkeep.chores_order {o : Operation} (h : Upkeep o s p) (order : o.isOrder = true) :
    (Accepts o p.1 ∧ ∃ id toggle, p.2.chores = [followUp id toggle]) ∨
      (¬ Accepts o p.1 ∧ p.2.chores = []) := by
  cases h with
  | same refused _ chores _ => exact .inr ⟨refused, chores⟩
  | planned accepts _ _ _ _ chores => exact .inl ⟨accepts, _, _, chores⟩
  | settled ho _ _ _ _ _ _ =>
    rw [ho] at order
    cases order
  | polling ho _ _ _ _ _ _ =>
    rw [ho] at order
    cases order
  | closed ho _ _ _ _ _ =>
    rw [ho] at order
    cases order

end Routine

theorem Entry.Sound.upkeep {e : Entry} (h : e.Sound) (serves : e.cause.Serves e.operation) :
    Routine.Upkeep e.operation e.before (e.result, e.after) :=
  h.effect.upkeep h.swept serves

/-- Whether a turn is the end of an order that the device has taken in full. -/
def Entry.Accepts (e : Entry) : Prop := Routine.Accepts e.operation e.result

/-- All turns of a life but the last one leave its task waiting. -/
theorem Life.waits {t : TaskId} {o : Operation} {e : Entry} {es : List Entry} (h : Life t o (e :: es)) :
    ∀ f ∈ es, Routine.Waits f.result := by
  generalize hl : e :: es = l at h
  induction h generalizing e es with
  | started _ _ _ _ =>
    cases hl
    exact List.forall_mem_nil _
  | @resumed _ f fs next _ _ _ hr resumes _ ih =>
    cases hl
    refine List.forall_mem_cons.mpr ⟨⟨next, hr, ?_⟩, ih rfl⟩
    rintro out rfl
    exact resumes

/-- The jobs that an order plans: none until its end, and a poll if the device has taken it in full. -/
theorem Life.chores {t : TaskId} {o : Operation} {e : Entry} {es : List Entry} (h : Life t o (e :: es))
    (order : o.isOrder = true) :
    (Routine.Accepts o e.result ∧ ∃ id toggle,
        (e :: es).flatMap (·.after.chores) = [Routine.followUp id toggle]) ∨
      (¬ Routine.Accepts o e.result ∧ (e :: es).flatMap (·.after.chores) = []) := by
  have kept : ∀ f ∈ e :: es, Routine.Upkeep o f.before (f.result, f.after) := by
    intro f hf
    obtain ⟨-, rfl, sound⟩ := h.task f hf
    exact sound.upkeep (h.serves f hf)
  have quiet : es.flatMap (·.after.chores) = [] := by
    rw [List.flatMap_eq_nil_iff]
    intro f hf
    obtain ⟨next, hr, goes⟩ := h.waits f hf
    rcases (kept f (List.mem_cons_of_mem _ hf)).chores_order order with ⟨⟨-, t, done, -⟩, -⟩ | ⟨-, none⟩
    · exact absurd (Except.ok.inj (hr.symm.trans done)) (goes _)
    · exact none
  rw [List.flatMap_cons, quiet, List.append_nil]
  exact (kept e List.mem_cons_self).chores_order order

namespace Crowd

/-- A task that has ended has had a last turn, after which it does not wait. -/
theorem Orderly.last_turn {c : Crowd} (h : c.Orderly) {x : Ending} (hx : x ∈ c.endings)
    (alone : x.operation ≠ .dispose) :
    ∃ e es, c.turns x.task = e :: es ∧ Life x.task x.operation (e :: es) ∧
      Ends e.result x.result ∧ Routine.Ended e.result := by
  obtain ⟨e, es, turns, life, ends⟩ := h.ended x hx
  refine ⟨e, es, turns, life, ends, ?_⟩
  intro next hr
  obtain ⟨-, -, sound⟩ := life.task e List.mem_cons_self
  obtain ⟨serves, -⟩ := sound.effect.course life.course.1 next hr
  rw [hr] at ends
  generalize x.result = out at ends
  cases ends with
  | done o => exact ⟨o, rfl⟩
  | stopped => exact absurd serves alone

end Crowd
end BatteryLink
