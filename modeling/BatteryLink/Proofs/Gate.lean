import BatteryLink.Proofs.News
import BatteryLink.Proofs.Outcomes
import BatteryLink.Proofs.Progress
/-!
What the host application hears in a whole run. Values reach it only while the device is known to be
online, and after a disposal nothing does.
-/
namespace BatteryLink

open Routine (Cause Next Effect Course)

theorem statusesIn_filter (ns : List Notice) : statusesIn (ns.filter Notice.isNews) = statusesIn ns := by
  unfold statusesIn
  rw [List.filterMap_filter]
  congr 1
  funext n
  cases n <;> rfl

/-- The status of the device as the host application has heard of it. That it is unknown is said as a
greeting, whatever the status is. -/
def believed (ns : List Notice) : DeviceStatus :=
  ((statusesIn ns).filter (· ≠ .unknown)).getLast?.getD .unknown

theorem believed_append {ms ns : List Notice} {b : DeviceStatus} (h : Tracks (believed ms) ns b) :
    believed (ms ++ ns) = b := by
  have known : (statusesIn ns).filter (· ≠ .unknown) = statusesIn ns :=
    List.filter_eq_self.mpr fun s hs => decide_eq_true fun unknown => h.known (unknown ▸ hs)
  unfold believed
  rw [statusesIn_append, List.filter_append, known, List.getLast?_append, Option.getD_or]
  exact h.last

theorem believed_greeting (ms : List Notice) (detail : Option String) :
    believed (ms ++ [.reported .unknown detail]) = believed ms := by
  simp [believed, statusesIn, Notice.status?]

/-- Who takes the device for online has heard of it after anything else. -/
theorem reported_of_believed {a b : List Notice} {status : DeviceStatus} {detail : Option String}
    (other : status ≠ .online) (known : status ≠ .unknown)
    (h : believed (a ++ .reported status detail :: b) = .online) :
    ∃ detail', .reported .online detail' ∈ b := by
  have last : ((statusesIn b).filter (· ≠ .unknown)).getLast?.getD status = .online := by
    rw [← h]
    unfold believed
    rw [List.append_cons, statusesIn_append, statusesIn_append, List.filter_append,
      List.getLast?_append, Option.getD_or]
    simp [statusesIn, Notice.status?, known]
  rw [Option.getD_eq_iff] at last
  rcases last with last | ⟨-, same⟩
  · have mem := (List.mem_filter.mp (List.mem_of_getLast? last)).1
    obtain ⟨n, hn, hs⟩ := List.mem_filterMap.mp mem
    obtain ⟨detail', rfl⟩ := Notice.status?_eq_some.mp hs
    exact ⟨detail', hn⟩
  · exact absurd same other

/-- What the host application hears in a turn. -/
def Entry.heard (e : Entry) : List Notice := e.after.outbox.filter Notice.isNews

namespace Entry

variable {e : Entry}

/-- A session that a turn leaves open was open before it. -/
theorem Sound.open_before (h : e.Sound) (live : e.after.disposed = false) :
    e.before.disposed = false := by
  rw [← Bool.not_eq_true]
  exact fun closed => Bool.false_ne_true (live.symm.trans (h.effect.disposed_iff.mpr (.inl closed)))

theorem heard_disposed (h : e.Sound) (closed : e.before.disposed = true) : e.heard = [] := by
  unfold heard
  rcases h.effect.acts with ⟨-, after⟩ | ⟨-, course⟩
  · dsimp only at after
    rw [after, Session.told, if_pos closed, h.swept]
    rfl
  · obtain ⟨ns, outbox, quiet, -⟩ := course.said
    rw [outbox, h.swept]
    exact List.filter_eq_nil_iff.mpr fun n hn => by simp [(quiet closed).2 n hn]

theorem heard_disposal (h : e.Sound) (disposal : e.cause = .started .dispose) : e.heard = [] := by
  rcases h.effect.calm with ⟨other, -⟩ | ⟨-, after⟩ | ⟨other, -⟩
  · exact absurd disposal other
  · dsimp only at after
    unfold heard
    rw [after, Session.closed, h.swept]
    exact List.filter_eq_nil_iff.mpr (by simp [Notice.isNews])
  · exact absurd disposal other

/-- A connection begins with a greeting. -/
theorem heard_connect (h : e.Sound) (connect : e.cause = .started .connect)
    (live : e.before.disposed = false) :
    e.heard = [.reported .unknown none] ∧ e.after.health = e.before.health := by
  rcases h.effect.acts with ⟨-, after⟩ | ⟨other, -⟩
  · dsimp only at after
    unfold heard
    rw [after, Session.told, if_neg (by simp [live]), Session.emit, h.swept]
    exact ⟨rfl, rfl⟩
  · exact absurd connect other

/-- Any other turn tells of every change of the status. -/
theorem heard_tracks (h : e.Sound) (other : e.cause ≠ .started .connect)
    (live : e.after.disposed = false) : Tracks e.before.health.status e.heard e.after.health.status := by
  rcases h.effect.acts with ⟨connect, -⟩ | ⟨-, course⟩
  · exact absurd connect other
  · obtain ⟨ns, outbox, -, tracks⟩ := course.said
    have said := tracks live
    unfold heard
    rw [outbox, h.swept, List.nil_append]
    exact ⟨by rw [statusesIn_filter]; exact said.last, by rw [statusesIn_filter]; exact said.known⟩

/-- A value is heard at a point of the turn at which the session is not disposed of and the device is
known to be online. -/
theorem heard_published (h : e.Sound) {said rest : List Notice} {channel : String}
    {content : Published} (split : e.heard = said ++ .published channel content :: rest) :
    ∃ v, Course e.before v ∧ v.outbox.filter Notice.isNews = said ∧ v.hears channel = true ∧
      Course (v.emit (.published channel content)) e.after := by
  obtain ⟨l₁, l₂, outbox, hsaid, hrest⟩ := List.filter_eq_append_iff.mp split
  obtain ⟨m₁, m₂, rfl, none, -, -⟩ := List.filter_eq_cons_iff.mp hrest
  have silent : m₁.filter Notice.isNews = [] := List.filter_eq_nil_iff.mpr none
  rw [← List.append_assoc] at outbox
  rcases h.effect.acts with ⟨-, after⟩ | ⟨-, course⟩
  · dsimp only at after
    have mem : Notice.published channel content ∈ e.after.outbox := by
      rw [outbox]
      exact List.mem_append_right _ List.mem_cons_self
    rw [after] at mem
    unfold Session.told at mem
    split at mem
    · rw [h.swept] at mem
      cases mem
    · simp [Session.emit, h.swept] at mem
  · obtain ⟨v, before, hv, hears, on⟩ := course.published h.swept outbox
    refine ⟨v, before, ?_, hears, on⟩
    rw [hv, List.filter_append, silent, List.append_nil, hsaid]

end Entry

/-- Whether the answer to a probe is waited for. -/
def Routine.Next.probes : Routine.Next → Bool
  | .ask _ .probe => true
  | _ => false

theorem Routine.Next.probes_iff {n : Routine.Next} : n.probes = true ↔ ∃ x, n = .ask x .probe := by
  unfold probes
  split <;> simp_all

namespace Crowd

variable {c d : Crowd}

/-- All that the host application has heard, the earliest first. -/
def heard (c : Crowd) : List Notice := c.log.reverse.flatMap Entry.heard

theorem heard_cons {e : Entry} (log : d.log = e :: c.log) : d.heard = c.heard ++ e.heard := by
  unfold heard
  rw [log, List.reverse_cons, List.flatMap_append]
  simp

theorem heard_same (log : d.log = c.log) : d.heard = c.heard := by
  unfold heard
  rw [log]

/-- Acts that take no time tell the host application nothing. -/
theorem silent_instant {turn : Turn Bool} (h : Instant turn) {s : Session} (swept : s.outbox = []) :
    (turn.exec s).2.outbox.filter Notice.isNews = [] := by
  obtain ⟨job, -, hu⟩ := exec_instant h s
  rw [hu]
  split
  · rw [swept]
    rfl
  · rw [Session.entrusted, Session.emit, swept]
    rfl

theorem Turned.log_ne (h : c.Turned d) : d.log ≠ c.log := by
  obtain ⟨e, -, -, log, -⟩ := h.log
  rw [log]
  exact List.cons_ne_self e c.log

/-- Only turns learn anything of the device. -/
theorem moved_alike (ho : c.Orderly) (moved : Moved c d) (log : d.log = c.log) :
    c.session.Alike d.session := by
  cases moved with
  | same => exact ⟨rfl, rfl⟩
  | asked _ => exact absurd log (spawn_turned ho _ _ _).log_ne
  | @resumed m cause _ _ _ =>
    obtain ⟨e, -, -, log', -⟩ := advance_log ho m.toTask cause
    exact absurd (log'.symm.trans log) (List.cons_ne_self e c.log)
  | @atOnce turn hi =>
    obtain ⟨job, -, hu⟩ := exec_instant hi c.session
    have after : c.session.Alike (turn.exec c.session).2 := by
      rw [hu]
      split <;> exact ⟨rfl, rfl⟩
    exact ⟨after.health, after.identity⟩
  | host _ => exact ⟨rfl, rfl⟩
  | @ran j _ _ _ =>
    rcases begin_turned ho j.id none with same | turned
    · rw [same]
      exact ⟨rfl, rfl⟩
    · exact absurd log turned.log_ne
  | @began _ run id clock _ _ =>
    rcases begin_turned (ho.with_jobs c.jobs clock) id (some run) with same | turned
    · rw [same]
      exact ⟨rfl, rfl⟩
    · exact absurd log turned.log_ne
  | stopped _ _ _ => exact ⟨rfl, rfl⟩
  | ticked _ => exact ⟨rfl, rfl⟩
  | woke _ _ => exact ⟨rfl, rfl⟩

/-- The host application has heard of every change, and it hears of values only while it takes the
device for online. -/
structure Informed (c : Crowd) : Prop where
  status : c.session.disposed = false → believed c.heard = c.session.health.status
  gated : ∀ said channel content rest, c.heard = said ++ .published channel content :: rest →
    believed said = .online

theorem informed_start (config : Config) (ownsRunner : Bool) : (start config ownsRunner).Informed where
  status := fun _ => rfl
  gated := fun said channel content rest h => by simp [heard, start] at h

theorem moved_informed (ho : c.Orderly) (h : c.Informed) (moved : Moved c d) : d.Informed := by
  rcases moved_log ho moved with ⟨log, disposed, -⟩ | ⟨e, sound, before, log, session⟩
  · constructor
    · rw [disposed, heard_same log, (moved_alike ho moved log).health]
      exact h.status
    · rw [heard_same log]
      exact h.gated
  · constructor
    · rw [heard_cons log, session]
      intro (live : e.after.disposed = false)
      have open_before := sound.open_before live
      have told := h.status (before ▸ open_before)
      by_cases connect : e.cause = .started .connect
      · obtain ⟨heard, health⟩ := Entry.heard_connect sound connect open_before
        rw [heard, believed_greeting, told, ← before, health]
      · exact believed_append (told ▸ before ▸ Entry.heard_tracks sound connect live)
    · intro said channel content rest split
      rw [heard_cons log] at split
      rcases append_eq_append_cons split with ⟨more, earlier⟩ | ⟨late, rfl, now⟩
      · exact h.gated said channel content more earlier
      · obtain ⟨v, course, hv, hears, -⟩ := Entry.heard_published sound now
        obtain ⟨live, online, -⟩ := Session.hears_iff.mp hears
        obtain ⟨ns, outbox, quiet, tracks⟩ := course.said
        have open_before : e.before.disposed = false := by
          rw [← Bool.not_eq_true]
          exact fun closed => Bool.false_ne_true (live.symm.trans (quiet closed).1)
        have said := tracks live
        rw [sound.swept, List.nil_append] at outbox
        rw [← hv, outbox, ← online]
        refine believed_append ?_
        rw [h.status (before ▸ open_before), ← before]
        exact ⟨by rw [statusesIn_filter]; exact said.last, by rw [statusesIn_filter]; exact said.known⟩

theorem Reachable.informed (h : c.Reachable) : c.Informed :=
  h.induction informed_start fun c mv hr hc => moved_informed hr.orderly hc (step_moved c mv)

/-- Once the session is disposed of, the host application hears nothing any more. -/
theorem Reachable.silence (hc : c.Reachable) {late early : List Entry} {d : Entry}
    (log : c.log = late ++ d :: early) (disposal : d.cause = .started .dispose) :
    ∀ e ∈ d :: late, e.heard = [] := by
  have sound := hc.orderly.sound
  refine List.forall_mem_cons.mpr ⟨Entry.heard_disposal (sound d (by simp [log])) disposal, ?_⟩
  intro e he
  obtain ⟨l₁, l₂, rfl⟩ := List.append_of_mem he
  have suffix : e :: (l₂ ++ d :: early) <:+ c.log := ⟨l₁, by simp [log]⟩
  have closed := (hc.chronicle.before e _ suffix).mpr ⟨d, by simp, disposal⟩
  exact Entry.heard_disposed (sound e (suffix.subset List.mem_cons_self)) closed

/-- An exchange that is under way comes to its end, and so does its task. -/
theorem Reachable.finishes (hc : c.Reachable) {m : Member} (hm : m ∈ c.members) {x : Exchange}
    {k : Routine.Asked} (hw : m.waits = .ask x k) :
    Inevitable (fun d => ∃ y ∈ d.endings, y.task = m.id) c := by
  obtain ⟨-, e, es, turns, life, -⟩ := hc.orderly.alive m hm
  obtain ⟨mem, task⟩ := mem_turns.mp (turns ▸ List.mem_cons_self)
  have serves := hc.orderly.serves hm
  rw [hw] at serves
  have other : e.operation ≠ .dispose := by
    rw [(life.task e List.mem_cons_self).2.1]
    intro dispose
    rw [dispose] at serves
    cases k with
    | firstProbe | probe => cases serves
    | poll stage purpose => cases serves
    | order stage => cases serves.1
  exact task ▸ hc.ends mem other

/-- What comes of an exchange is taken down, also after a disposal. -/
theorem answer_health (ho : c.Orderly) (quiet : c.session.Quiet) {m : Member} (hm : m ∈ c.members)
    {x : Exchange} {k : Routine.Asked} (hw : m.waits = .ask x k) (now : Moment) (a : Answered) :
    (c.step (.answer m.id now a)).session.health = c.session.health.after (k.outcomes a) := by
  have found : c.member? m.id = some ⟨m.toTask, .ask x k⟩ := hw ▸ member?_of_mem ho hm
  have moved : c.step (.answer m.id now a) = c.advance m.toTask (.answered now k a) := by
    unfold step
    dsimp only
    rw [found]
  obtain ⟨e, sound, before, task, cause, -, session⟩ := advance_turn ho m.toTask (.answered now k a)
  have exec := sound.exec
  rw [cause, before, task] at exec
  rw [moved, session, ← Routine.health_answered now k a quiet]
  change e.after.health = ((Cause.turn m.id (.answered now k a)).exec c.session).2.health
  rw [exec]

/-- What the host application hears in a run, whatever tasks there are and however their turns mix:
each value is heard at a point of a turn at which the session is not disposed of and the device is
known to be online, and none between the news that it is offline and the news that it is online;
nothing is heard from a disposal on. The exchanges that are under way then come to their ends, and
what comes of them is taken down as it is in a session whose host application takes all updates. -/
theorem values_gated (hc : c.Reachable) :
    (∀ e ∈ c.log, ∀ said channel content rest,
      e.heard = said ++ .published channel content :: rest →
      ∃ v, Course e.before v ∧ v.outbox.filter Notice.isNews = said ∧ v.disposed = false ∧
        v.health.status = .online ∧ Course (v.emit (.published channel content)) e.after) ∧
    (∀ before detail between channel content rest,
      c.heard = before ++ .reported .offline detail :: between ++ .published channel content :: rest →
      ∃ detail', .reported .online detail' ∈ between) ∧
    (∀ late d early, c.log = late ++ d :: early → d.cause = .started .dispose →
      ∀ e ∈ d :: late, e.heard = []) ∧
    (∀ turn, Instant turn → (turn.exec c.session).2.outbox.filter Notice.isNews = []) ∧
    ∀ m ∈ c.members, ∀ x k, m.waits = .ask x k →
      Inevitable (fun d => ∃ y ∈ d.endings, y.task = m.id) c ∧
      ∀ now a, c.session.disposed = true ∨ c.session.host = {} →
        (c.step (.answer m.id now a)).session.health = c.session.health.after (k.outcomes a) := by
  refine ⟨?_, ?_, fun late d early log disposal => hc.silence log disposal,
    fun turn hi => silent_instant hi hc.orderly.swept, ?_⟩
  · intro e he said channel content rest split
    obtain ⟨v, before, hv, hears, on⟩ := Entry.heard_published (hc.orderly.sound e he) split
    obtain ⟨live, online, -⟩ := Session.hears_iff.mp hears
    exact ⟨v, before, hv, live, online, on⟩
  · intro before detail between channel content rest split
    have online := hc.informed.gated _ channel content rest split
    exact reported_of_believed (by decide) (by decide) online
  · intro m hm x k hw
    exact ⟨hc.finishes hm hw, fun now a quiet => answer_health hc.orderly quiet hm hw now a⟩

/-- A device that answers, then does not, and answers again; an activation that writes no slot; and
a probe that is under way when the session is disposed of. -/
def outage : Crowd :=
  let reply := "\x7b\"id\":0,\"result\":\x7b\x7d\x7d".toUTF8.toList
  (start { host := "10.0.0.2", failureThreshold := 1 } true).run
    [.start .probe, .answer 0 ⟨0⟩ (.ok (some reply)), .start .probe, .answer 1 ⟨0⟩ (.ok none),
      .start .probe, .answer 2 ⟨0⟩ (.ok (some reply)),
      .start (.command Order.manualToggle (.bool true)), .start .probe, .start .dispose]

theorem values_gated_outage :
    (∃ before detail between channel content,
      outage.heard = before ++ .reported .offline detail :: between ++ [.published channel content] ∧
      ∃ detail', .reported .online detail' ∈ between) ∧
    ∃ m ∈ outage.members, outage.session.disposed = true ∧
      ∀ now, (outage.step (.answer m.id now (.ok none))).session.health.status = .offline := by
  have reachable : outage.Reachable := ⟨_, _, _, rfl⟩
  obtain ⟨-, online_between, -, -, under_way⟩ := values_gated reachable
  constructor
  · have kinds : (outage.heard.map fun n => (n.isNews, n.status?)) =
        [(true, some .online), (true, some .offline), (true, some .online), (true, none)] := by
      decide +kernel
    obtain ⟨first, r, hl, -, kinds⟩ := List.map_eq_cons_iff.mp kinds
    obtain ⟨lost, r, rfl, off, kinds⟩ := List.map_eq_cons_iff.mp kinds
    obtain ⟨found, r, rfl, -, kinds⟩ := List.map_eq_cons_iff.mp kinds
    obtain ⟨last, r, rfl, value, kinds⟩ := List.map_eq_cons_iff.mp kinds
    obtain rfl := List.map_eq_nil_iff.mp kinds
    obtain ⟨detail, rfl⟩ := Notice.status?_eq_some.mp (Prod.ext_iff.mp off).2
    obtain ⟨channel, content, rfl⟩ :=
      Notice.eq_published (Prod.ext_iff.mp value).1 (Prod.ext_iff.mp value).2
    exact ⟨[first], detail, [found], channel, content, hl,
      online_between [first] detail [found] channel content [] hl⟩
  · have waits : outage.members.any (·.waits.probes) = true := by decide +kernel
    obtain ⟨m, hm, probes⟩ := List.any_eq_true.mp waits
    have state : outage.session.disposed = true ∧ outage.session.health = ⟨1, .online, 0⟩ := by
      decide +kernel
    obtain ⟨x, hw⟩ := Routine.Next.probes_iff.mp probes
    obtain ⟨-, answer⟩ := under_way m hm x .probe hw
    refine ⟨m, hm, state.1, fun now => ?_⟩
    rw [answer now (.ok none) (.inl state.1), state.2]
    rfl

end Crowd
end BatteryLink
