import BatteryLink.Proofs.Gate
/-!
The status that the host application was told last. It is the one that is known, unless a connection
was begun while something was known of the device: then the host application is greeted as if nothing
were, and hears no more of it until the status changes.
-/
namespace BatteryLink

/-- Whether a turn is a greeting that hides what is known of the device. -/
def Entry.Overrides (e : Entry) : Prop :=
  e.cause = .started .connect ∧ e.before.health.status ≠ .unknown

namespace Crowd

variable {c d : Crowd}

/-- The last status that the host application was told, if it was told any. -/
def lastTold (c : Crowd) : Option DeviceStatus := (statusesIn c.heard).getLast?

/-- Whether the last turn that told a status was a greeting that hid it. -/
def Stale (c : Crowd) : Prop :=
  ∃ late e early, c.log = late ++ e :: early ∧ e.Overrides ∧ ∀ f ∈ late, statusesIn f.heard = []

theorem stale_cons {e : Entry} (log : d.log = e :: c.log) :
    d.Stale ↔ e.Overrides ∨ statusesIn e.heard = [] ∧ c.Stale := by
  constructor
  · rintro ⟨late, f, early, split, overrides, silent⟩
    rw [log] at split
    cases late with
    | nil =>
      obtain ⟨rfl, -⟩ := List.cons.inj split
      exact .inl overrides
    | cons g late =>
      obtain ⟨rfl, earlier⟩ := List.cons.inj split
      obtain ⟨now, before⟩ := List.forall_mem_cons.mp silent
      exact .inr ⟨now, late, f, early, earlier, overrides, before⟩
  · rintro (overrides | ⟨none, late, f, early, split, overrides, silent⟩)
    · exact ⟨[], e, c.log, log, overrides, List.forall_mem_nil _⟩
    · exact ⟨e :: late, f, early, by rw [log, split]; rfl, overrides, List.forall_mem_cons.mpr ⟨none, silent⟩⟩

theorem stale_same (log : d.log = c.log) : d.Stale ↔ c.Stale := by
  unfold Stale
  rw [log]

theorem lastTold_cons {e : Entry} (log : d.log = e :: c.log) :
    d.lastTold = (statusesIn e.heard).getLast?.or c.lastTold := by
  unfold lastTold
  rw [heard_cons log, statusesIn_append, List.getLast?_append]

/-- What the host application was told last is what is known, or it is a greeting that hid it. -/
inductive Agrees (c : Crowd) : Prop
  | untold : c.lastTold = none → ¬ c.Stale → Agrees c
  | current : c.lastTold = some c.session.health.status → ¬ c.Stale → Agrees c
  | hidden : c.lastTold = some .unknown → c.session.health.status ≠ .unknown → c.Stale → Agrees c

theorem agrees_start (config : Config) (ownsRunner : Bool) : (start config ownsRunner).Agrees := by
  refine .untold rfl ?_
  rintro ⟨late, e, early, split, -⟩
  simp [start] at split

theorem Agrees.same (h : c.Agrees) (told : d.lastTold = c.lastTold) (stale : d.Stale ↔ c.Stale)
    (status : d.session.health.status = c.session.health.status) : d.Agrees := by
  cases h with
  | untold last fresh => exact .untold (told.trans last) (mt stale.mp fresh)
  | current last fresh => exact .current (by rw [told, last, status]) (mt stale.mp fresh)
  | hidden last known hides => exact .hidden (told.trans last) (status ▸ known) (stale.mpr hides)

theorem moved_agrees (ho : c.Orderly) (h : c.session.disposed = false → c.Agrees) (moved : Moved c d) :
    d.session.disposed = false → d.Agrees := by
  intro live
  rcases moved_log ho moved with ⟨log, disposed, -⟩ | ⟨e, sound, before, log, session⟩
  · refine (h (disposed ▸ live)).same ?_ (stale_same log) (by rw [(moved_alike ho moved log).health])
    unfold lastTold
    rw [heard_same log]
  · have health : d.session.health = e.after.health := by rw [session]
    have live_after : e.after.disposed = false := by rwa [session] at live
    have open_before := sound.open_before live_after
    have told := lastTold_cons log
    have stale := stale_cons log
    by_cases connect : e.cause = .started .connect
    · obtain ⟨heard, same⟩ := Entry.heard_connect sound connect open_before
      have greeted : statusesIn e.heard = [.unknown] := by rw [heard]; rfl
      rw [greeted] at told stale
      by_cases known : e.before.health.status = .unknown
      · refine .current (by rw [told, health, same, known]; rfl) (mt stale.mp ?_)
        rintro (⟨-, hides⟩ | ⟨none, -⟩)
        · exact hides known
        · cases none
      · exact .hidden told (by rwa [health, same]) (stale.mpr (.inl ⟨connect, known⟩))
    · have tracks := Entry.heard_tracks sound connect live_after
      rw [before, ← health] at tracks
      have greets : ¬ e.Overrides := fun overrides => connect overrides.1
      cases hs : (statusesIn e.heard).getLast? with
      | none =>
        have same := tracks.last
        rw [hs] at told same
        refine (h (before ▸ open_before)).same told ?_ same.symm
        rw [stale, List.getLast?_eq_none_iff.mp hs]
        simp [greets]
      | some status =>
        have last := tracks.last
        rw [hs] at told last
        refine .current (told.trans (congrArg some last)) (mt stale.mp ?_)
        rintro (overrides | ⟨none, -⟩)
        · exact greets overrides
        · rw [none] at hs
          cases hs

theorem Reachable.agrees (h : c.Reachable) : c.session.disposed = false → c.Agrees :=
  h.induction (P := fun c => c.session.disposed = false → c.Agrees) (fun _ _ _ => agrees_start _ _)
    fun c mv hr hc => moved_agrees hr.orderly hc (step_moved c mv)

/-- While the session is not disposed of, the status that the host application was told last is the
one that is known, unless a greeting hid that one and it has not changed since. What the host
application was told last is then that nothing is known. -/
theorem told_last (hc : c.Reachable) (live : c.session.disposed = false) {status : DeviceStatus}
    (told : c.lastTold = some status) :
    (status = c.session.health.status ↔ ¬ c.Stale) ∧
      (c.Stale → status = .unknown ∧ c.session.health.status ≠ .unknown) := by
  cases hc.agrees live with
  | untold last _ => cases last.symm.trans told
  | current last fresh =>
    cases last.symm.trans told
    exact ⟨iff_of_true rfl fresh, fun stale => absurd stale fresh⟩
  | hidden last known stale =>
    cases last.symm.trans told
    exact ⟨iff_of_false known.symm (not_not_intro stale), fun _ => ⟨rfl, known⟩⟩

/-- A device that answers is connected to a second time, and answers again. -/
def reconnected : Crowd :=
  let reply := "\x7b\"id\":0,\"result\":\x7b\x7d\x7d".toUTF8.toList
  (start { host := "10.0.0.2" } false).run
    [.start .connect, .answer 0 ⟨0⟩ (.ok (some reply)),
      .start .connect, .answer 1 ⟨0⟩ (.ok (some reply))]

theorem told_last_reconnected :
    reconnected.session.disposed = false ∧ reconnected.lastTold = some .unknown ∧ reconnected.Stale := by
  have state : reconnected.session.disposed = false ∧ reconnected.lastTold = some .unknown ∧
      reconnected.session.health.status = .online := by
    decide +kernel
  obtain ⟨live, told, online⟩ := state
  obtain ⟨current, -⟩ := told_last ⟨_, _, _, rfl⟩ live told
  refine ⟨live, told, of_not_not fun fresh => ?_⟩
  cases (current.mpr fresh).trans online

/-- So what the host application was told last can be wrong when all that was begun is over. -/
theorem not_always_told_last : ¬ ∀ c : Crowd, c.Reachable → c.session.disposed = false →
    c.members = [] → ∀ status, c.lastTold = some status → status = c.session.health.status := by
  intro always
  have state : reconnected.session.disposed = false ∧ reconnected.members.isEmpty = true ∧
      reconnected.lastTold = some .unknown ∧ reconnected.session.health.status = .online := by
    decide +kernel
  obtain ⟨live, idle, told, online⟩ := state
  cases (always _ ⟨_, _, _, rfl⟩ live (List.isEmpty_iff.mp idle) _ told).trans online

end Crowd
end BatteryLink
