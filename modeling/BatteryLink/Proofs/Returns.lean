import BatteryLink.Proofs.Channel
import BatteryLink.Proofs.Progress
/-!
The results of commands. Every command comes to its end, and one whose value is not right for its
channel does nothing; but some identifiers and some numbers make a command fail.
-/
namespace BatteryLink

open Routine (Cause Next Effect Held Polled Ordered)

namespace Routine

/-- Commands that nobody has a word for: the number in the identifier cannot be read, the value is a
whole number that no double can hold, or it is nested too deep for the name of a mode. -/
def Upset (channel : String) (v : Value) : Prop :=
  Channel.Unreadable channel ∨
    (∃ k, Channel.parse channel = .ok (some k) ∧ k.isNumeric = true ∧ Setting.Vast v) ∨
    Channel.parse channel = .ok (some (.control .modeSelect)) ∧ Setting.Bottomless v

/-- Commands for no channel, and with a value that is not right for their channel. -/
def Wrong (channel : String) (v : Value) : Prop :=
  Channel.parse channel = .ok none ∨
    ∃ k e, Channel.parse channel = .ok (some k) ∧ k.check v = .error (.refused e)

/-- Commands that are looked at: the session has not been disposed of, and they are not the word for
a poll. -/
def Heeds (s : Session) (v : Value) : Prop := s.disposed = false ∧ isRefresh v = false

variable {self : TaskId} {s : Session} {channel : String} {v : Value}

theorem exec_heeded (h : Heeds s v) :
    (command self channel v).exec s = match Channel.parse channel with
      | .error f => (.error (.fault f), s)
      | .ok none => (.ok (.done .nothing), s)
      | .ok (some c) => (write self c v).exec s := by
  rw [exec_command, h.1, h.2]
  rfl

theorem exec_wrong (self : TaskId) (h : Heeds s v) (hw : Wrong channel v) :
    (command self channel v).exec s = (.ok (.done .nothing), s) := by
  rw [exec_heeded h]
  rcases hw with none | ⟨k, e, hk, he⟩
  · rw [none]
  · rw [hk]
    exact exec_write_error self s he

theorem exec_upset (self : TaskId) (h : Heeds s v) (hu : Upset channel v) :
    ∃ f, (command self channel v).exec s = (.error (.fault f), s) := by
  rw [exec_heeded h]
  rcases hu with unreadable | ⟨k, hk, numeric, vast⟩ | ⟨hk, doing, deep⟩
  · obtain ⟨f, hf⟩ := Channel.parse_error_iff.mpr unreadable
    rw [hf]
    exact ⟨f, rfl⟩
  · rw [hk]
    exact ⟨_, exec_write_error self s (Channel.check_fault_iff.mpr (.inl ⟨numeric, vast, rfl⟩))⟩
  · rw [hk]
    exact ⟨_, exec_write_error self s (Channel.check_fault_iff.mpr (.inr ⟨rfl, deep, doing, rfl⟩))⟩

variable {p : Except Trouble Next × Session} {t : Trouble}

theorem Held.trouble {toggle : Option String} {n : Nat} {asks runs : Prop} {cut : Trouble → Prop}
    (h : Held toggle n asks runs cut s p) (ht : p.1 = .error t) : t.OfHost s.host ∨ cut t := by
  cases h with
  | goes _ h =>
    cases h with
    | asked _ _ _ => cases ht
    | paused _ _ => cases ht
    | ended _ => cases ht
    | unheard _ _ he =>
      cases ht
      exact .inl he
  | dropped _ => cases ht
  | interrupted he =>
    cases ht
    exact .inr he

theorem Ordered.trouble {k : Order.Kind} (h : Ordered self k s p) (ht : p.1 = .error t) :
    t.OfHost s.host := by
  cases h with
  | queued _ => cases ht
  | held _ h => exact (h.trouble ht).resolve_right id

theorem Polled.trouble {purpose : Purpose} {n : Nat} {cut : Trouble → Prop}
    (h : Polled purpose n cut s p) (ht : p.1 = .error t) : t.OfHost s.host ∨ cut t := by
  cases h with
  | asked _ _ _ => cases ht
  | ended _ _ => cases ht
  | failed he _ =>
    cases ht
    exact he

/-- A mode that the channel has taken makes a good request. -/
theorem selectMode_trouble {name : String} (hn : name ∈ Request.selectableModes)
    (ht : ((selectMode self (.text name)).exec s).1 = .error t) : t.OfHost s.host := by
  obtain ⟨payload, hp⟩ := Request.select_of_name (v := .text name) rfl hn
  unfold selectMode at ht
  rw [hp] at ht
  exact (order_ordered self _ s).trouble ht

theorem activatePassive_trouble (hs : s.settings.passive.InRange)
    (ht : ((activatePassive self (.int s.settings.passive.power)
      (.int s.settings.passive.countdown)).exec s).1 = .error t) : t.OfHost s.host := by
  obtain ⟨payload, hp⟩ := Request.passive_of_inRange hs
  unfold activatePassive at ht
  rw [hp] at ht
  exact (order_ordered self _ s).trouble ht

/-- The troubles that a command can begin with. -/
theorem command_trouble (hs : s.settings.passive.InRange)
    (ht : ((command self channel v).exec s).1 = .error t) :
    t.OfHost s.host ∨ Heeds s v ∧ Upset channel v := by
  rw [exec_command] at ht
  split at ht
  · cases ht
  · next live =>
    split at ht
    · exact .inl (((begin_polled .refresh (fun _ => False) s).trouble ht).resolve_right id)
    · next heard =>
      have heeds : Heeds s v := ⟨Bool.eq_false_iff.mpr live, Bool.eq_false_iff.mpr heard⟩
      split at ht
      · next f hf => exact .inr ⟨heeds, .inl (Channel.parse_error_iff.mp ⟨f, hf⟩)⟩
      · cases ht
      · next c hc =>
        have reaction := write_reaction self s c v
        generalize (write self c v).exec s = p at reaction ht
        cases reaction with
        | refused _ => cases ht
        | beyond he =>
          rcases Channel.check_fault_iff.mp he with ⟨numeric, vast, -⟩ | ⟨rfl, deep, doing, hf⟩
          · exact .inr ⟨heeds, .inr (.inl ⟨c, hc, numeric, vast⟩)⟩
          · exact .inr ⟨heeds, .inr (.inr ⟨hc, doing, hf ▸ deep⟩)⟩
        | wrote _ _ => cases ht
        | off _ => cases ht
        | mode _ _ hn => exact .inl (selectMode_trouble hn ht)
        | passive _ _ _ => exact .inl (activatePassive_trouble hs ht)
        | manual _ _ _ => exact .inl ((order_ordered self _ s).trouble ht)

/-- The troubles that a command can run into later. -/
theorem Effect.trouble {c : Cause} (h : Effect self s c p) (later : ∀ o, c ≠ .started o)
    (serves : c.Serves (.command channel v)) (ht : p.1 = .error t) : t.OfHost s.host ∨ c.Cut t := by
  cases h with
  | started _ => exact absurd rfl (later _)
  | polled _ h => exact h.trouble ht
  | held _ h => exact h.trouble ht
  | probed hp _ => cases hp <;> cases serves
  | polling _ => cases ht

end Routine

namespace Crowd

/-- A command comes to its end, whatever else goes on. It fails by itself exactly if it is heeded and
nobody has a word for it; every other failure is an interrupt, or the host application refused what
it was told. A command that is heeded and wrong does nothing at all. -/
theorem command_result {c : Crowd} (hc : c.Reachable) {e : Entry} (he : e ∈ c.log)
    {channel : String} {v : Value} (first : e.cause = .started (.command channel v)) :
    c.Inevitable (fun d => ∃ x ∈ d.endings, x.task = e.task) ∧
    (∀ x ∈ c.endings, x.task = e.task → ∀ t, x.result = .error t →
      (Routine.Heeds e.before v ∧ Routine.Upset channel v) ∨
        ∃ f ∈ c.log, f.task = e.task ∧ (t.OfHost f.before.host ∨ f.cause.Cut t)) ∧
    (Routine.Heeds e.before v → Routine.Upset channel v →
      ∃ x ∈ c.endings, x.task = e.task ∧ ∃ f, x.result = .error (.fault f)) ∧
    (Routine.Heeds e.before v → Routine.Wrong channel v →
      e.after = e.before ∧ ∃ x ∈ c.endings, x.task = e.task ∧ x.result = .ok .nothing) := by
  have orderly := hc.orderly
  have sound := orderly.sound e he
  have exec := sound.exec
  rw [first] at exec
  change (Routine.command e.task channel v).exec e.before = _ at exec
  have operation := orderly.started he first
  refine ⟨hc.ends he (by rw [operation]; nofun), ?_, ?_, ?_⟩
  · intro x hx task t ht
    obtain ⟨f, fs, hf, life, ends⟩ := orderly.ended x hx
    have failed : f.result = .error t := by
      rw [ht] at ends
      generalize f.result = r at ends
      cases ends
      rfl
    obtain ⟨hlog, ftask⟩ := mem_turns.mp (hf ▸ List.mem_cons_self : f ∈ c.turns x.task)
    have mem : e ∈ f :: fs := hf ▸ mem_turns.mpr ⟨he, task.symm⟩
    have serves := life.course.1
    rw [← (life.task e mem).2.1, operation] at serves
    have effect := (orderly.sound f hlog).effect
    generalize hcause : f.cause = cause at serves effect
    cases cause with
    | started o =>
      cases life.first List.mem_cons_self mem hcause first
      rcases Routine.command_trouble (hc.chronicle.ranges e he) (by rw [exec]; exact failed) with host | upset
      · exact .inr ⟨e, he, rfl, .inl host⟩
      · exact .inl upset
    | _ =>
      refine .inr ⟨f, hlog, ftask.trans task, ?_⟩
      rw [hcause]
      exact effect.trouble (by nofun) serves failed
  · intro heeds upset
    obtain ⟨f, hf⟩ := Routine.exec_upset e.task heeds upset
    have result : e.result = .error (.fault f) := congrArg Prod.fst (exec.symm.trans hf)
    obtain ⟨x, hx, task, -, hr⟩ := orderly.ending he (result ▸ Ends.failed _) (by rw [result]; nofun)
    exact ⟨x, hx, task, f, hr⟩
  · intro heeds wrong
    have heq := exec.symm.trans (Routine.exec_wrong e.task heeds wrong)
    have result : e.result = .ok (.done .nothing) := congrArg Prod.fst heq
    obtain ⟨x, hx, task, -, hr⟩ := orderly.ending he (result ▸ Ends.done _) (by rw [result]; nofun)
    exact ⟨congrArg Prod.snd heq, x, hx, task, hr⟩

/-- A channel that cannot be written to: nothing comes of the command. -/
theorem command_result_unknown_channel :
    let c := (start { host := "10.0.0.2" } true).step (.start (.command "soc" (.int 5)))
    ∃ e ∈ c.log, e.cause = .started (.command "soc" (.int 5)) ∧ e.after = e.before ∧
      ∃ x ∈ c.endings, x.task = e.task ∧ x.result = .ok .nothing := by
  intro c
  have reachable : c.Reachable := (Reachable.start _ _).step _
  obtain ⟨e, he, first, live⟩ : ∃ e ∈ c.log, e.cause = .started (.command "soc" (.int 5)) ∧
      e.before.disposed = false := ⟨_, List.mem_cons_self, rfl, rfl⟩
  have wrong : Routine.Wrong "soc" (.int 5) := .inl rfl
  exact ⟨e, he, first, (command_result reachable he first).2.2.2 ⟨live, rfl⟩ wrong⟩

/-- The number of a slot in superscript: the command fails, though the host application refuses
nothing and the device is not even asked. -/
theorem superscript_slot_fails :
    let c := (start { host := "10.0.0.2" } true).step
      (.start (.command "timePeriod²#start" (.text "08:00")))
    c.Reachable ∧ (∀ f ∈ c.log, f.before.host = {} ∧ ∀ t, ¬ f.cause.Cut t) ∧
      c.endings =
        [⟨0, .command "timePeriod²#start" (.text "08:00"), .error (.fault (.notInt "²"))⟩] := by
  refine ⟨(Reachable.start _ _).step _, ?_, rfl⟩
  exact List.forall_mem_cons.mpr ⟨⟨rfl, fun _ => id⟩, List.forall_mem_nil _⟩

end Crowd
end BatteryLink
