import BatteryLink.Proofs.Life
/-!
The course of a life: what a task waits for belongs to its operation, and with every turn it comes
nearer to its end.
-/
namespace BatteryLink

open Routine (Cause Next Asked Purpose)

/-- The polls that an operation makes, by what they are for. -/
inductive Operation.Polls : Operation → Purpose → Prop
  | poll : Polls .poll .answer
  | refresh {channel : String} {v : Value} : Routine.isRefresh v = true →
      Polls (.command channel v) .refresh
  | followUp (id : JobId) (toggle : Option String) :
      Polls (.followUp id toggle) (.followUp id toggle)

namespace Routine

def Asked.Serves (o : Operation) : Asked → Prop
  | .firstProbe => o = .connect
  | .probe => o = .probe
  | .poll _ purpose => o.Polls purpose
  | .order stage => o.isOrder = true ∧ stage.toggle = o.toggle

def Next.Serves (o : Operation) : Next → Prop
  | .ask _ k => k.Serves o
  | .pause _ => o.isOrder = true ∧ some Order.manualToggle = o.toggle
  | .queue k => o.isOrder = true ∧ k.toggle = o.toggle
  | .stopRunner => o = .dispose
  | .done _ => True

/-- What an order waits for that has been given to the device in part. -/
def Next.Writes : Next → Prop
  | .ask _ (.order _) | .pause _ => True
  | _ => False

def Cause.Serves (o : Operation) : Cause → Prop
  | .started p => p = o
  | .answered _ k _ => k.Serves o
  | .rested _ => o.isOrder = true ∧ some Order.manualToggle = o.toggle
  | .granted k => o.isOrder = true ∧ k.toggle = o.toggle

def Asked.left : Asked → Nat
  | .firstProbe | .probe => 1
  | .poll stage _ => stage.left
  | .order stage => stage.left

def Next.left : Next → Nat
  | .ask _ k => k.left
  | .pause w => w.left
  | .queue k => k.left
  | .stopRunner | .done _ => 0

/-- The turn itself counts. -/
def Cause.left : Cause → Nat
  | .started o => o.left + 1
  | .answered _ k _ => k.left
  | .rested w => w.left
  | .granted k => k.left

theorem Next.Resumes.serves {next : Next} {c : Cause} {o : Operation} (h : next.Resumes c)
    (hs : next.Serves o) : c.Serves o := by
  cases next <;> cases c <;> first | (cases h; exact hs) | exact h.elim

theorem Next.Resumes.left {next : Next} {c : Cause} (h : next.Resumes c) : next.left = c.left := by
  cases next <;> cases c <;> first | (cases h; rfl) | exact h.elim

theorem Cause.left_pos (c : Cause) : 0 < c.left := by
  cases c with
  | started o => exact Nat.succ_pos _
  | answered now k a =>
    cases k with
    | firstProbe => exact Nat.one_pos
    | probe => exact Nat.one_pos
    | poll stage purpose => cases stage <;> exact Nat.succ_pos _
    | order stage => cases stage <;> exact Nat.succ_pos _
  | rested w => exact Nat.succ_pos _
  | granted k =>
    cases k with
    | single payload toggle => exact Nat.two_pos
    | manual source => exact Nat.lt_of_lt_of_le Nat.one_pos (Nat.le_max_left _ _)

/-- A result that belongs to the operation and leaves less than `n` turns. -/
def Goes (o : Operation) (n : Nat) (r : Except Trouble Next) : Prop :=
  ∀ next, r = .ok next → next.Serves o ∧ next.left < n

variable {self : TaskId} {s : Session} {o : Operation} {p : Except Trouble Next × Session}

theorem Goes.error (e : Trouble) (n : Nat) : Goes o n (.error e) := by
  intro next h
  cases h

theorem Goes.ok {next : Next} {n : Nat} (hs : next.Serves o) (hn : next.left < n) :
    Goes o n (.ok next) := by
  intro next' h
  cases h
  exact ⟨hs, hn⟩

theorem Goes.done (out : Outcome) {n : Nat} (h : 0 < n) : Goes o n (.ok (.done out)) :=
  .ok trivial h

theorem Held.course {toggle : Option String} {n : Nat} {asks runs : Prop} {cut : Trouble → Prop}
    (h : Held toggle n asks runs cut s p) (ho : o.isOrder = true) (ht : toggle = o.toggle) (hn : 0 < n) :
    Goes o n p.1 := by
  cases h with
  | goes _ h =>
    cases h with
    | asked _ hs hl => exact .ok ⟨ho, hs.trans ht⟩ hl
    | paused hs hl => exact .ok ⟨ho, hs.symm.trans ht⟩ hl
    | ended t => exact .done _ hn
    | unheard t _ _ => exact .error _ _
  | dropped _ => exact .done _ hn
  | interrupted _ => exact .error _ _

theorem Begun.course (h : Begun self o s p) (ho : o.isOrder = true) : Goes o (o.left + 1) p.1 := by
  cases h with
  | idle h =>
    rcases h with rfl | ⟨f, rfl⟩
    · exact .done _ (Nat.succ_pos _)
    · exact .error _ _
  | wrote _ => exact .done _ (Nat.succ_pos _)
  | @ordered k _ ht hl h =>
    cases h with
    | queued _ => exact .ok ⟨ho, ht⟩ (Nat.lt_succ_of_le hl)
    | held _ h =>
      intro next hr
      obtain ⟨hs, hn⟩ := h.course ho ht (Cause.granted k).left_pos next hr
      exact ⟨hs, by omega⟩
  | turnedDown => exact .done _ (Nat.succ_pos _)
  | unheard _ => exact .error _ _

theorem Started.course (h : Started self s o p) : Goes o (o.left + 1) p.1 := by
  cases h with
  | order ho h => exact h.course ho
  | probed => exact .ok rfl (Nat.one_lt_succ_succ 7)
  | greeted => exact .ok rfl (Nat.one_lt_succ_succ 7)
  | ungreeted => exact .error _ _
  | closed =>
    cases s.ownsRunner with
    | true => exact .ok rfl (Nat.succ_pos 8)
    | false => exact .done _ (Nat.succ_pos 8)

theorem Cause.Polls.serves {c : Cause} {purpose : Purpose} {n : Nat} (h : c.Polls purpose n)
    (hs : c.Serves o) : o.Polls purpose := by
  cases h with
  | poll =>
    cases hs
    exact .poll
  | refresh hv =>
    cases hs
    exact .refresh hv
  | followUp id toggle =>
    cases hs
    exact .followUp id toggle
  | answered now stage purpose a => exact hs

theorem Cause.Holds.serves {c : Cause} {toggle : Option String} {n : Nat} {asks runs : Prop}
    (h : c.Holds s toggle n asks runs) (hs : c.Serves o) : o.isOrder = true ∧ toggle = o.toggle := by
  cases h with
  | answered now stage a => exact hs
  | rested w => exact hs
  | granted k => exact hs

theorem Cause.Probes.serves {c : Cause} (h : c.Probes) (hs : c.Serves o) :
    o = .connect ∨ o = .probe := by
  cases h with
  | first now a => exact .inl hs
  | later now a => exact .inr hs

/-- What a task waits for after a turn belongs to its operation, and the turn was one of those that
it had left. -/
theorem Effect.course {c : Cause} (h : Effect self s c p) (hs : c.Serves o) : Goes o c.left p.1 := by
  cases h with
  | started h =>
    cases hs
    exact h.course
  | @polled _ purpose n _ hp h =>
    have serves := hp.serves hs
    have fewer : n < c.left := by
      cases hp with
      | poll | refresh _ | followUp _ _ => exact (by decide : 7 < 9)
      | answered now stage purpose a =>
        exact Nat.sub_one_lt_of_lt (Cause.answered now (.poll stage purpose) a).left_pos
    cases h with
    | asked _ hl _ => exact .ok serves (by rw [← hl] at fewer; exact fewer)
    | ended complete _ => exact .done _ (Nat.zero_lt_of_lt fewer)
    | failed _ _ => exact .error _ _
  | @held _ toggle n asks runs _ hc h =>
    obtain ⟨order, same⟩ := hc.serves hs
    have pos := c.left_pos
    have bound : n = c.left := by cases hc <;> rfl
    rw [← bound] at pos ⊢
    exact h.course order same pos
  | @probed _ r _ _ _ =>
    cases r with
    | error e => exact .error _ _
    | ok out => exact .done _ c.left_pos
  | polling _ => exact .done _ Nat.one_pos

end Routine

/-- A life keeps to its operation and is no longer than the operation allows. -/
theorem Life.course {t : TaskId} {o : Operation} {e : Entry} {es : List Entry}
    (h : Life t o (e :: es)) : e.cause.Serves o ∧ es.length + e.cause.left ≤ o.left + 1 := by
  generalize hl : e :: es = l at h
  induction h generalizing e es with
  | started _ _ _ hc =>
    cases hl
    rw [hc]
    exact ⟨rfl, Nat.le_of_eq (Nat.zero_add _)⟩
  | @resumed _ f fs next _ _ _ hr hn life ih =>
    cases hl
    obtain ⟨serves, left⟩ := ih rfl
    have sound := (life.task f List.mem_cons_self).2.2
    obtain ⟨hs, hlt⟩ := sound.effect.course serves next hr
    refine ⟨hn.serves hs, ?_⟩
    rw [← hn.left, List.length_cons]
    omega

theorem Life.serves {t : TaskId} {o : Operation} {es : List Entry} (h : Life t o es) :
    ∀ e ∈ es, e.cause.Serves o := by
  induction h with
  | started ht ho hs hc => exact List.forall_mem_singleton.mpr (Life.started ht ho hs hc).course.1
  | resumed ht ho hs hr hn life ih =>
    exact List.forall_mem_cons.mpr ⟨(Life.resumed ht ho hs hr hn life).course.1, ih⟩

theorem Life.suffix {t : TaskId} {o : Operation} {es : List Entry} (h : Life t o es) {e : Entry}
    {fs : List Entry} (hs : e :: fs <:+ es) : Life t o (e :: fs) := by
  induction h with
  | started ht ho hsound hc =>
    rcases List.suffix_cons_iff.mp hs with hs | hs
    · cases hs
      exact .started ht ho hsound hc
    · cases List.suffix_nil.mp hs
  | resumed ht ho hsound hr hn life ih =>
    rcases List.suffix_cons_iff.mp hs with hs | hs
    · cases hs
      exact .resumed ht ho hsound hr hn life
    · exact ih hs

/-- A life has one first turn. -/
theorem Life.first {t : TaskId} {o p q : Operation} {e f : Entry} {es : List Entry} (h : Life t o es)
    (he : e ∈ es) (hf : f ∈ es) (started : e.cause = .started p) (too : f.cause = .started q) : e = f := by
  induction h with
  | started _ _ _ _ => exact (List.mem_singleton.mp he).trans (List.mem_singleton.mp hf).symm
  | @resumed g h es _ _ _ _ _ resumes _ ih =>
    have later : ∀ k ∈ g :: h :: es, ∀ r, k.cause = .started r → k ∈ h :: es := by
      intro k mem r hk
      rcases List.mem_cons.mp mem with rfl | mem
      · rw [hk] at resumes
        exact absurd resumes Routine.Next.Resumes.not_started
      · exact mem
    exact ih (later e he p started) (later f hf q too)

/-- A turn after which its task does not wait is the last one. -/
theorem Life.last {t : TaskId} {o : Operation} {e f : Entry} {es : List Entry}
    (h : Life t o (f :: es)) (he : e ∈ f :: es)
    (ends : ∀ next cause, e.result = .ok next → ¬ next.Resumes cause) : e = f := by
  generalize hl : f :: es = l at h he
  induction h generalizing f es with
  | started _ _ _ _ =>
    cases hl
    exact List.mem_singleton.mp he
  | resumed _ _ _ hr resumes _ ih =>
    cases hl
    rcases List.mem_cons.mp he with rfl | he
    · rfl
    · cases ih rfl he
      exact absurd resumes (ends _ _ hr)

namespace Crowd

theorem Orderly.serves {c : Crowd} (h : c.Orderly) {m : Member} (hm : m ∈ c.members) :
    m.waits.Serves m.operation := by
  obtain ⟨e, es, -, life, hr⟩ := (h.alive m hm).2
  have sound := (life.task e List.mem_cons_self).2.2
  exact (sound.effect.course life.course.1 _ hr).1

theorem mem_turns {c : Crowd} {e : Entry} {t : TaskId} : e ∈ c.turns t ↔ e ∈ c.log ∧ e.task = t := by
  simp [turns]

theorem turns_suffix {c : Crowd} {e : Entry} {early : List Entry} (h : e :: early <:+ c.log) :
    e :: early.filter (·.task = e.task) <:+ c.turns e.task := by
  have := h.filter fun f : Entry => decide (f.task = e.task)
  rwa [List.filter_cons, if_pos (by simp)] at this

/-- The life of a task up to any turn in the log. -/
theorem Orderly.life {c : Crowd} (h : c.Orderly) {e : Entry} {early : List Entry}
    (he : e :: early <:+ c.log) :
    Life e.task e.operation (e :: early.filter (·.task = e.task)) := by
  rcases h.lives e.task with none | ⟨o, life⟩
  · have := turns_suffix he
    rw [none] at this
    cases List.suffix_nil.mp this
  · have life := life.suffix (turns_suffix he)
    rw [← (life.task e List.mem_cons_self).2.1] at life
    exact life

/-- Every turn belongs to the operation of its task. -/
theorem Orderly.served {c : Crowd} (h : c.Orderly) {e : Entry} (he : e ∈ c.log) :
    e.cause.Serves e.operation := by
  obtain ⟨early, late, hlog⟩ := List.append_of_mem he
  exact (h.life (hlog ▸ List.suffix_append early (e :: late))).course.1

/-- The first turn tells what the operation is. -/
theorem Orderly.started {c : Crowd} (h : c.Orderly) {e : Entry} (he : e ∈ c.log) {o : Operation}
    (hc : e.cause = .started o) : e.operation = o := by
  have serves := h.served he
  rw [hc] at serves
  exact serves.symm

/-- A task has ended that has had its last turn. -/
theorem Orderly.ending {c : Crowd} (h : c.Orderly) {e : Entry} (he : e ∈ c.log)
    {out : Except Trouble Outcome} (ends : Ends e.result out) (alone : e.result ≠ .ok .stopRunner) :
    ∃ x ∈ c.endings, x.task = e.task ∧ x.operation = e.operation ∧ x.result = out := by
  have stops : ∀ next cause, e.result = .ok next → ¬ next.Resumes cause := by
    intro next cause hr
    rw [hr] at ends
    cases ends <;> exact id
  rcases h.known e he with ⟨m, hm, id, -⟩ | ⟨x, hx, id, op⟩
  · obtain ⟨alive, f, fs, hf, life, hr⟩ := h.alive m hm
    have mem : e ∈ f :: fs := hf ▸ mem_turns.mpr ⟨he, id.symm⟩
    cases life.last mem stops
    rw [hr] at ends alone
    generalize m.waits = next at ends alone alive
    cases ends with
    | done o => exact absurd rfl (alive o)
    | stopped => exact absurd rfl alone
  · obtain ⟨f, fs, hf, life, hr⟩ := h.ended x hx
    have mem : e ∈ f :: fs := hf ▸ mem_turns.mpr ⟨he, id.symm⟩
    cases life.last mem stops
    refine ⟨x, hx, id, op, ?_⟩
    generalize e.result = r at ends hr alone
    generalize x.result = res at hr
    cases ends with
    | failed _ =>
      cases hr
      rfl
    | done _ =>
      cases hr
      rfl
    | stopped => exact absurd rfl alone

end Crowd
end BatteryLink
