import BatteryLink.Proofs.Frame
import BatteryLink.Proofs.Health
/-!
What the host application is told in a turn. Every turn but the first one of a connection is a
course of small acts, and each of these publishes a value while the device is known to be online,
or takes down an outcome and reports the change, or concerns others.
-/
namespace BatteryLink

open Routine (Cause Next Effect)

/-- Whether a notice is for the host application. -/
def Notice.isNews : Notice → Bool
  | .published _ _ | .reported _ _ => true
  | .scheduled _ _ _ | .cancelled _ | .granted _ => false

/-- The status that the host application is told with a notice. -/
def Notice.status? : Notice → Option DeviceStatus
  | .reported status _ => some status
  | _ => none

theorem Notice.status?_of_not_isNews {n : Notice} (h : n.isNews = false) : n.status? = none := by
  cases n <;> first | rfl | cases h

theorem Notice.status?_eq_some {n : Notice} {status : DeviceStatus} :
    n.status? = some status ↔ ∃ detail, n = .reported status detail := by
  cases n <;> simp [status?]

theorem Notice.eq_published {n : Notice} (news : n.isNews = true) (other : n.status? = none) :
    ∃ channel content, n = .published channel content := by
  cases n with
  | published channel content => exact ⟨channel, content, rfl⟩
  | reported status detail => cases other
  | scheduled _ _ _ => cases news
  | cancelled _ => cases news
  | granted _ => cases news

theorem Session.hears_iff {s : Session} {channel : String} : s.hears channel = true ↔
    s.disposed = false ∧ s.health.status = .online ∧ s.host.refusal? channel = none := by
  simp [hears, Health.isOnline, and_assoc]

namespace Routine

/-- Nothing that the host application hears of has happened. -/
structure Silent (s u : Session) : Prop where
  health : u.health = s.health
  disposed : s.disposed = true → u.disposed = true
  outbox : ∃ ns, u.outbox = s.outbox ++ ns ∧ ∀ n ∈ ns, n.isNews = false

theorem Silent.of_outbox {s u : Session} (health : u.health = s.health)
    (disposed : u.disposed = s.disposed) (outbox : u.outbox = s.outbox) : Silent s u where
  health := health
  disposed := fun h => disposed.trans h
  outbox := ⟨[], by simpa using outbox⟩

/-- The acts that turns are made of, as far as the host application is concerned. -/
inductive Act : Session → Session → Prop
  | published (s : Session) {channel : String} (content : Published) :
      s.hears channel = true → Act s (s.emit (.published channel content))
  | recorded (s : Session) (reachable : Bool) : Act s (s.recorded reachable)
  | silent {s u : Session} : Silent s u → Act s u

/-- One act of a turn after another. -/
abbrev Course : Session → Session → Prop := Relation.ReflTransGen Act

theorem Silent.course {s u : Session} (h : Silent s u) : Course s u := .single (.silent h)

theorem course_path {s u : Session} (h : Poll.Path s u) : Course s u := by
  refine Relation.ReflTransGen.mono (fun a b act => ?_) _ _ h
  cases act with
  | recorded reachable => exact .recorded a reachable
  | published content hears _ => exact .published a content hears
  | identified i => exact .silent (.of_outbox rfl rfl rfl)
  | completed now => exact .silent (.of_outbox rfl rfl rfl)
  | failed text => exact .silent (.of_outbox rfl rfl rfl)

theorem course_offered (s : Session) (toggle : Option String) : Course s (s.offered toggle) := by
  unfold Session.offered
  split
  · exact .refl
  · split
    · next hears => exact .single (.published s _ hears)
    · exact .refl

theorem silent_entrusted (s : Session) (plan : Plan) (job : JobId → Job) :
    Silent s (s.entrusted plan job) where
  health := rfl
  disposed := id
  outbox := ⟨[_], rfl, by simp [Notice.isNews]⟩

theorem silent_released (s : Session) : Silent s s.released := by
  unfold Session.released
  split
  · exact .of_outbox rfl rfl rfl
  · exact ⟨rfl, id, [_], rfl, by simp [Notice.isNews]⟩

theorem silent_polling (s : Session) : Silent s s.polling := by
  unfold Session.polling
  split
  · exact .of_outbox rfl rfl rfl
  · have entrusted := silent_entrusted s (.every (.whole s.config.refreshInterval)) fun _ => .poll
    exact ⟨entrusted.health, entrusted.disposed, entrusted.outbox⟩

theorem silent_closed (s : Session) : Silent s s.closed where
  health := rfl
  disposed := fun _ => rfl
  outbox := ⟨s.upkeep.map .cancelled, rfl, List.forall_mem_map.mpr fun _ _ => rfl⟩

theorem course_concluded (s : Session) (t : Tally) (toggle : Option String) :
    Course s (s.concluded t toggle) := by
  have noted : Course s { s with lastResult := some t } := Silent.course (.of_outbox rfl rfl rfl)
  unfold Session.concluded
  split
  · have entrusted := silent_entrusted { s with lastResult := some t }
      (.after (.ofMilliseconds Order.followUpDelay)) (.followUp · toggle)
    exact noted.trans (Silent.course ⟨entrusted.health, entrusted.disposed, entrusted.outbox⟩)
  · exact noted.trans (course_offered _ _)

theorem course_settled (s : Session) (purpose : Purpose) : Course s (s.settled purpose) := by
  cases purpose with
  | answer => exact .refl
  | refresh => exact .refl
  | followUp id toggle =>
    have erased : Course s { s with pending := s.pending.erase id } := Silent.course (.of_outbox rfl rfl rfl)
    exact erased.trans (course_offered _ _)

variable {self : TaskId} {s : Session} {p : Except Trouble Next × Session}

theorem Held.acts {toggle : Option String} {n : Nat} {asks runs : Prop} {cut : Trouble → Prop}
    (h : Held toggle n asks runs cut s p) : Course s p.2 := by
  cases h with
  | goes _ h =>
    cases h with
    | asked _ _ _ => exact .refl
    | paused _ _ => exact .refl
    | ended t => exact (course_concluded s t toggle).trans (silent_released _).course
    | unheard t _ _ => exact (course_concluded s t toggle).trans (silent_released _).course
  | dropped _ => exact (silent_released s).course
  | interrupted _ => exact (silent_released s).course

theorem Polled.acts {purpose : Purpose} {n : Nat} {cut : Trouble → Prop}
    (h : Polled purpose n cut s p) : Course s p.2 := by
  cases h with
  | asked _ _ path => exact course_path path
  | ended _ path => exact (course_path path).trans (course_settled _ _)
  | failed _ path => exact (course_path path).trans (course_settled _ _)

theorem Ordered.acts {k : Order.Kind} (h : Ordered self k s p) : Course s p.2 := by
  cases h with
  | queued _ => exact Silent.course (.of_outbox rfl rfl rfl)
  | held _ h =>
    have locked : Course s (s.locked self) := Silent.course (.of_outbox rfl rfl rfl)
    exact locked.trans h.acts

theorem Begun.acts {o : Operation} (h : Begun self o s p) : Course s p.2 := by
  cases h with
  | idle _ => exact .refl
  | wrote _ => exact Silent.course (.of_outbox rfl rfl rfl)
  | ordered _ _ h => exact h.acts
  | @turnedDown toggle =>
    exact (course_offered s toggle).trans (Silent.course (.of_outbox rfl rfl rfl))
  | unheard _ => exact course_offered s _

/-- The first turn of a connection greets the host application. Every other turn is a course of
acts. -/
theorem Effect.acts {c : Cause} (h : Effect self s c p) :
    c = .started .connect ∧ p.2 = s.told .unknown none ∨ c ≠ .started .connect ∧ Course s p.2 := by
  cases h with
  | @started o _ h =>
    cases h with
    | order ho h =>
      refine .inr ⟨?_, h.acts⟩
      rintro ⟨⟩
      cases ho
    | probed => exact .inr ⟨nofun, .refl⟩
    | greeted => exact .inl ⟨rfl, rfl⟩
    | ungreeted => exact .inl ⟨rfl, rfl⟩
    | closed => exact .inr ⟨nofun, (silent_closed s).course⟩
  | polled hp h => exact .inr ⟨by cases hp <;> nofun, h.acts⟩
  | held hc h => exact .inr ⟨by cases hc <;> nofun, h.acts⟩
  | probed hc path => exact .inr ⟨by cases hc <;> nofun, course_path path⟩
  | polling path => exact .inr ⟨nofun, (course_path path).trans (silent_polling _).course⟩

end Routine

/-- An element of two lists one after the other is in the first one or in the second one. -/
theorem append_eq_append_cons {α : Type} {xs ys as bs : List α} {a : α}
    (h : xs ++ ys = as ++ a :: bs) :
    (∃ cs, xs = as ++ a :: cs) ∨ ∃ cs, as = xs ++ cs ∧ ys = cs ++ a :: bs := by
  rcases List.append_eq_append_iff.mp h with ⟨cs, has, hys⟩ | ⟨cs, hxs, hbs⟩
  · exact .inr ⟨cs, has, hys⟩
  · cases cs with
    | nil => exact .inr ⟨[], by simpa using hxs.symm, hbs.symm⟩
    | cons c cs =>
      cases (List.cons.inj hbs).1
      exact .inl ⟨cs, hxs⟩

/-- The statuses that some notices tell. -/
def statusesIn (ns : List Notice) : List DeviceStatus := ns.filterMap Notice.status?

@[simp] theorem statusesIn_append (ns ms : List Notice) :
    statusesIn (ns ++ ms) = statusesIn ns ++ statusesIn ms :=
  List.filterMap_append

theorem statusesIn_eq_nil {ns : List Notice} (h : ∀ n ∈ ns, n.isNews = false) : statusesIn ns = [] :=
  List.filterMap_eq_nil_iff.mpr fun n hn => Notice.status?_of_not_isNews (h n hn)

/-- The notices `ns` lead from one status to another: the last one that they tell is the status in
the end, and if they tell none it has not changed. -/
structure Tracks (start : DeviceStatus) (ns : List Notice) (last : DeviceStatus) : Prop where
  last : (statusesIn ns).getLast?.getD start = last
  known : .unknown ∉ statusesIn ns

namespace Tracks

variable {a b c : DeviceStatus} {ns ms : List Notice}

theorem of_none (h : statusesIn ns = []) : Tracks a ns a where
  last := by rw [h]; rfl
  known := by rw [h]; exact List.not_mem_nil

theorem trans (h : Tracks a ns b) (k : Tracks b ms c) : Tracks a (ns ++ ms) c where
  last := by
    rw [statusesIn_append, List.getLast?_append, Option.getD_or, h.last, k.last]
  known := by
    rw [statusesIn_append, List.mem_append]
    exact fun hu => hu.elim h.known k.known

end Tracks

namespace Routine

variable {s u v : Session}

/-- What is said in an act. -/
structure Act.Said (s u : Session) (ns : List Notice) : Prop where
  outbox : u.outbox = s.outbox ++ ns
  disposed : s.disposed = true → u.disposed = true ∧ ∀ n ∈ ns, n.isNews = false
  tracks : u.disposed = false → Tracks s.health.status ns u.health.status

theorem said_nothing (closes : s.disposed = true → u.disposed = true) (outbox : u.outbox = s.outbox)
    (status : s.health.status = u.health.status) : Act.Said s u [] where
  outbox := by simpa using outbox
  disposed := fun h => ⟨closes h, List.forall_mem_nil _⟩
  tracks := fun _ => status ▸ .of_none rfl

theorem Act.recorded_said (s : Session) (reachable : Bool) :
    ∃ ns, Act.Said s (s.recorded reachable) ns ∧ ns.all (·.status?.isSome) := by
  unfold Session.recorded
  dsimp only
  split
  · next same => exact ⟨[], said_nothing id rfl (Health.status_of_changed_eq_none same), rfl⟩
  · next change hc =>
    obtain ⟨known, current⟩ := Health.current_of_changed hc
    unfold Session.told
    split
    · next closed =>
      refine ⟨[], ⟨by simp, fun h => ⟨h, List.forall_mem_nil _⟩, fun live => ?_⟩, rfl⟩
      cases closed.symm.trans live
    · next live =>
      refine ⟨[.reported change.current _], ⟨rfl, fun h => absurd h live, fun _ => ?_⟩, rfl⟩
      exact ⟨current, by simpa [statusesIn, Notice.status?] using known.symm⟩

/-- An act that publishes a value does nothing else. -/
theorem Act.said (h : Act s u) : ∃ ns, Act.Said s u ns ∧
    ((∃ channel content, s.hears channel = true ∧ u = s.emit (.published channel content) ∧
      ns = [.published channel content]) ∨ ∀ channel content, .published channel content ∉ ns) := by
  cases h with
  | @published channel content hears =>
    have live := (Session.hears_iff.mp hears).1
    refine ⟨_, ⟨rfl, fun h => ?_, fun _ => .of_none rfl⟩, .inl ⟨channel, content, hears, rfl, rfl⟩⟩
    cases live.symm.trans h
  | recorded reachable =>
    obtain ⟨ns, said, statuses⟩ := Act.recorded_said s reachable
    refine ⟨ns, said, .inr fun channel content hn => ?_⟩
    cases List.all_eq_true.mp statuses _ hn
  | silent h =>
    obtain ⟨health, disposed, ns, outbox, silent⟩ := h
    refine ⟨ns, ⟨outbox, fun h => ⟨disposed h, silent⟩, fun _ => ?_⟩, .inr fun channel content hn => ?_⟩
    · rw [health]
      exact .of_none (statusesIn_eq_nil silent)
    · cases silent _ hn

theorem Course.said (h : Course s u) : ∃ ns, Act.Said s u ns := by
  induction h with
  | refl => exact ⟨[], said_nothing id rfl rfl⟩
  | @tail v w _ act ih =>
    obtain ⟨ns, before, quiet, tracks⟩ := ih
    obtain ⟨ms, ⟨outbox, quiet', tracks'⟩, -⟩ := act.said
    refine ⟨ns ++ ms, by rw [outbox, before, List.append_assoc], fun h => ?_, fun live => ?_⟩
    · obtain ⟨closed, silent⟩ := quiet h
      obtain ⟨closed', silent'⟩ := quiet' closed
      exact ⟨closed', List.forall_mem_append.mpr ⟨silent, silent'⟩⟩
    · have live_before : v.disposed = false := by
        rw [← Bool.not_eq_true]
        exact fun hv => Bool.false_ne_true (live.symm.trans (quiet' hv).1)
      exact (tracks live_before).trans (tracks' live)

/-- A value that is published in the course of a turn is published at a point of that course at which
the host application hears of it. -/
theorem Course.published (h : Course s u) (start : s.outbox = []) {said rest : List Notice}
    {channel : String} {content : Published}
    (outbox : u.outbox = said ++ .published channel content :: rest) :
    ∃ v, Course s v ∧ v.outbox = said ∧ v.hears channel = true ∧
      Course (v.emit (.published channel content)) u := by
  induction h generalizing rest with
  | refl =>
    rw [start] at outbox
    simp at outbox
  | @tail v w course act ih =>
    obtain ⟨ns, ⟨after, -, -⟩, kind⟩ := act.said
    -- the value belongs to the acts before this one, or to this one
    rcases append_eq_append_cons (after.symm.trans outbox) with ⟨more, hv⟩ | ⟨ms, rfl, hn⟩
    · obtain ⟨x, hx, before, hears, on⟩ := ih hv
      exact ⟨x, hx, before, hears, on.tail act⟩
    · rcases kind with ⟨c, d, hears, rfl, rfl⟩ | silent
      · cases ms with
        | nil =>
          cases hn
          exact ⟨v, course, (List.append_nil _).symm, hears, .refl⟩
        | cons m ms => simp at hn
      · exact absurd (hn ▸ List.mem_append_right _ List.mem_cons_self) (silent channel content)

end Routine
end BatteryLink
