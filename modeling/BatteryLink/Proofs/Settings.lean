import BatteryLink.Proofs.Frame
import BatteryLink.Proofs.TimeOfDay
import BatteryLink.Proofs.Weekdays
/-!
What the settings of a session come to. Whatever is written to whatever channel, each slot and the
passive setting always make a good request.
-/
namespace BatteryLink

open Routine (Cause Next Effect)

/-- A slot that the device can be asked to keep. -/
structure Slot.Sound (p : Slot) : Prop where
  start : TimeOfDay.accepts p.start.toList = true
  stop : TimeOfDay.accepts p.stop.toList = true
  weekSet : (p.weekSet : Int) ≤ Check.maxWeekSet
  power : -Check.maxPower ≤ p.power ∧ p.power ≤ Check.maxPower

def Settings.slot (t : Settings) (i : Fin 4) : Slot := t.slots.get i

theorem Settings.slot_set (t : Settings) (i j : Fin 4) (p : Slot) :
    { t with slots := t.slots.set i.val p i.isLt }.slot j = if i = j then p else t.slot j := by
  change (t.slots.set i.val p i.isLt)[j] = if i = j then p else t.slots[j]
  rw [Fin.getElem_fin, Vector.getElem_set]
  simp [Fin.ext_iff]

structure Settings.Sound (t : Settings) : Prop where
  passive : t.passive.InRange
  slots : ∀ i : Fin 4, (t.slot i).Sound

theorem Settings.sound_default : ({} : Settings).Sound where
  passive := PassiveSetting.inRange_default
  slots := by
    intro i
    have same : ({} : Settings).slot i = {} := by
      change (Vector.replicate 4 ({} : Slot))[i] = {}
      simp
    rw [same]
    exact ⟨by decide, by decide, by decide, by decide⟩

/-- The request that writes a slot. -/
def Slot.request (p : Slot) (i : Fin 4) : Check.Checked String :=
  Request.manualSlot (.int i.val) (.text p.start) (.text p.stop) (.int p.weekSet) (.int p.power)

def PassiveSetting.request (p : PassiveSetting) : Check.Checked String :=
  Request.passive (.int p.power) (.int p.countdown)

namespace Request

theorem command_manualSlot (slot : Int) (p : Slot) :
    Check.command (envelope (text Method.setMode.name) (object [("id", .int 0), ("config",
        manualMode (.int slot) (.text p.start) (.text p.stop) (.int p.weekSet) (.int p.power))])) =
      (do
        Check.slot (.int slot)
        TimeOfDay.check (.text p.start) "start_time"
        TimeOfDay.check (.text p.stop) "end_time"
        Check.weekSet (.int p.weekSet) "week_set"
        Check.power (.int p.power) "power"
        Check.enable (.int 1)) := rfl

/-- Each of the four slots always makes a good request. -/
theorem manualSlot_of_sound {p : Slot} (h : p.Sound) (i : Fin 4) :
    ∃ payload, p.request i = .ok payload := by
  obtain ⟨start, stop, weekSet, power⟩ := h
  have checked := command_manualSlot i.val p
  have slot : Check.slot (.int i.val) = .ok () := by
    have : ∀ i : Fin 4, (0 ≤ (i.val : Int) && (i.val : Int) < Check.slotCount) = true := by decide
    exact if_pos (this i)
  have begins : TimeOfDay.check (.text p.start) "start_time" = .ok () := if_pos start
  have ends : TimeOfDay.check (.text p.stop) "end_time" = .ok () := if_pos stop
  have days : Check.weekSet (.int p.weekSet) "week_set" = .ok () :=
    if_pos ⟨Int.natCast_nonneg _, weekSet⟩
  have watts : Check.power (.int p.power) "power" = .ok () := if_pos power
  have active : Check.enable (.int 1) = .ok () := rfl
  rw [slot, begins, ends, days, watts, active] at checked
  unfold Check.maxPower at power
  unfold Check.maxWeekSet at weekSet
  obtain ⟨zero, hzero⟩ := intText_of_small (i := 0) (by decide)
  obtain ⟨one, hone⟩ := intText_of_small (i := 1) (by decide)
  obtain ⟨number, hnumber⟩ := intText_of_small (i := i.val) (by omega)
  obtain ⟨mask, hmask⟩ := intText_of_small (i := p.weekSet) (by omega)
  obtain ⟨load, hload⟩ := intText_of_small (i := p.power) (by omega)
  have written : ∃ s, Json.write (envelope (text Method.setMode.name) (object [("id", .int 0),
      ("config", manualMode (.int i.val) (.text p.start) (.text p.stop) (.int p.weekSet)
        (.int p.power))])) = .ok s := by
    simp [envelope, object, manualMode, text, Request.number, Value.truthy, Json.write,
      Value.maxDepth, Json.writeWithin, Json.writeMembers, Json.memberName_text, hzero, hone, hnumber,
      hmask, hload, bind, Except.bind]
  obtain ⟨payload, hpayload⟩ := written
  refine ⟨payload, ?_⟩
  unfold Slot.request manualSlot setMode build
  simp only [checked, hpayload]
  rfl

end Request

namespace Settings

/-- The slots that are enabled, in their order. -/
def enabled (t : Settings) : List (Fin 4) := (List.finRange 4).filter fun i => (t.slot i).enabled

theorem enabledSlots_eq (t : Settings) :
    Order.enabledSlots (t.slots.toList.map Slot.draft) = t.enabled.map (·.val) := by
  have read : ∀ i, t.slot i = t.slots[i] := fun _ => rfl
  have zipped : (t.slots.toList.map Slot.draft).zipIdx =
      (List.finRange 4).map fun i => ((t.slot i).draft, i.val) := by
    apply List.ext_getElem
    · simp
    · intro i h k
      simp [read]
  unfold Order.enabledSlots enabled
  rw [zipped, List.filter_map, List.map_map]
  rfl

theorem slotRequest_eq (t : Settings) (i : Fin 4) :
    Order.slotRequest (t.slots.toList.map Slot.draft) i.val = (t.slot i).request i := by
  have read : t.slot i = t.slots[i] := rfl
  have draft : (t.slots.toList.map Slot.draft).getD i.val {} = (t.slot i).draft := by simp [read]
  unfold Order.slotRequest
  rw [draft]
  rfl

end Settings

/-- What a value that a channel has taken makes of a slot. -/
inductive Slot.Changed (p : Slot) : Slot → Prop
  | enabled {v : Value} {b : Bool} : Setting.switch v = .ok b → Changed p { p with enabled := b }
  | start {v : Value} {t : String} : Setting.time v = .ok t → Changed p { p with start := t }
  | stop {v : Value} {t : String} : Setting.time v = .ok t → Changed p { p with stop := t }
  | weekdays {v : Value} {m : Nat} : Setting.weekdays v = .ok m → Changed p { p with weekSet := m }
  | power {v : Value} {w : Int} : Setting.power v = .ok w → Changed p { p with power := w }

/-- What a turn makes of settings: it keeps them, or it writes one field. -/
inductive Settings.Step (t : Settings) : Settings → Prop
  | kept : Step t t
  | power {v : Value} {w : Int} : Setting.power v = .ok w →
      Step t { t with passive := { t.passive with power := w } }
  | countdown {v : Value} {n : Int} : Setting.countdown v = .ok n →
      Step t { t with passive := { t.passive with countdown := n } }
  | slot (i : Fin 4) {p : Slot} : (t.slot i).Changed p →
      Step t { t with slots := t.slots.set i.val p i.isLt }

theorem Setting.time_accepts {v : Value} {t : String} (h : time v = .ok t) :
    TimeOfDay.accepts t.toList = true := by
  unfold time orComplaint at h
  split at h
  · next hn =>
    cases h
    exact TimeOfDay.accepts_of_normalize hn
  · cases h
  · cases h

theorem Setting.weekdays_le {v : Value} {m : Nat} (h : weekdays v = .ok m) :
    (m : Int) ≤ Check.maxWeekSet := by
  unfold weekdays orComplaint at h
  split at h
  · next hw =>
    cases h
    have mask : m < 2 ^ 7 := Weekdays.mask_ofValue hw
    unfold Check.maxWeekSet
    omega
  · cases h
  · cases h

theorem Slot.Changed.sound {p q : Slot} (h : p.Changed q) (hp : p.Sound) : q.Sound := by
  cases h with
  | enabled _ => exact ⟨hp.start, hp.stop, hp.weekSet, hp.power⟩
  | start ht => exact ⟨Setting.time_accepts ht, hp.stop, hp.weekSet, hp.power⟩
  | stop ht => exact ⟨hp.start, Setting.time_accepts ht, hp.weekSet, hp.power⟩
  | weekdays hm => exact ⟨hp.start, hp.stop, Setting.weekdays_le hm, hp.power⟩
  | power hw => exact ⟨hp.start, hp.stop, hp.weekSet, Setting.boundedInt_between hw⟩

theorem Settings.Step.sound {t u : Settings} (h : t.Step u) (ht : t.Sound) : u.Sound := by
  cases h with
  | kept => exact ht
  | power hw => exact ⟨⟨Setting.boundedInt_between hw, ht.passive.countdown⟩, ht.slots⟩
  | countdown hn => exact ⟨⟨ht.passive.power, Setting.boundedInt_between hn⟩, ht.slots⟩
  | slot i changed =>
    refine ⟨ht.passive, fun j => ?_⟩
    rw [Settings.slot_set]
    split
    · exact changed.sound (ht.slots i)
    · exact ht.slots j

namespace Routine

variable {self : TaskId} {s : Session} {p : Except Trouble Next × Session}

theorem Calm.step {u : Session} (h : Calm s u) : s.settings.Step u.settings := by
  rw [h.settings]
  exact .kept

theorem selectMode_calm (self : TaskId) (mode : Value) (s : Session) :
    Calm s ((selectMode self mode).exec s).2 := by
  unfold selectMode
  split
  · exact ⟨rfl, rfl, rfl, rfl, rfl⟩
  · exact ⟨rfl, rfl, rfl, rfl, rfl⟩
  · exact (order_ordered self _ s).calm

theorem activatePassive_calm (self : TaskId) (power countdown : Value) (s : Session) :
    Calm s ((activatePassive self power countdown).exec s).2 := by
  unfold activatePassive
  split
  · exact ⟨rfl, rfl, rfl, rfl, rfl⟩
  · obtain ⟨r, hr, -⟩ := Order.exec_resetToggle (some Order.passiveToggle) s
    have offered := calm_offered s (some Order.passiveToggle)
    rw [Turn.exec_bind, hr]
    cases r with
    | ok => exact ⟨offered.config, offered.ownsRunner, offered.settings, offered.disposed, offered.host⟩
    | error e => exact offered
  · exact (order_ordered self _ s).calm

/-- A converted value may make a step of the settings; any other leaves them as they are. -/
theorem withValue_step {α : Type} {x : Setting.Converted α} {f : α → Turn Next}
    (h : ∀ a, x = .ok a → s.settings.Step ((f a).exec s).2.settings) :
    s.settings.Step ((withValue x f).exec s).2.settings := by
  rw [exec_withValue]
  split
  · exact h _ rfl
  · exact .kept
  · exact .kept

theorem whenOn_step (v : Value) {t : Turn Next} (h : s.settings.Step (t.exec s).2.settings) :
    s.settings.Step ((whenOn v t).exec s).2.settings := by
  refine withValue_step fun on _ => ?_
  cases on with
  | true => exact h
  | false => exact .kept

theorem write_step (self : TaskId) (c : Channel) (v : Value) (s : Session) :
    s.settings.Step ((write self c v).exec s).2.settings := by
  cases c with
  | slot i field =>
    cases field with
    | enabled => exact withValue_step fun _ h => .slot i (.enabled h)
    | start => exact withValue_step fun _ h => .slot i (.start h)
    | stop => exact withValue_step fun _ h => .slot i (.stop h)
    | weekdays => exact withValue_step fun _ h => .slot i (.weekdays h)
    | power => exact withValue_step fun _ h => .slot i (.power h)
  | control c =>
    cases c with
    | modeSelect => exact withValue_step fun _ _ => (selectMode_calm self _ s).step
    | passivePower => exact withValue_step fun _ h => .power h
    | passiveCountdown => exact withValue_step fun _ h => .countdown h
    | passiveActivate =>
      apply whenOn_step
      rw [Turn.exec_bind, Turn.exec_get]
      exact (activatePassive_calm self _ _ s).step
    | manualActivate => exact whenOn_step v (order_ordered self (.manual .settings) s).calm.step

theorem Effect.settings {c : Cause} (h : Effect self s c p)
    (hc : ∀ o, c = .started o → o.isOrder = false) : p.2.settings = s.settings := by
  cases h with
  | started h =>
    cases h with
    | order ho _ =>
      rw [hc _ rfl] at ho
      cases ho
    | probed => rfl
    | greeted => exact (calm_told s _ _).settings
    | ungreeted => exact (calm_told s _ _).settings
    | closed => rfl
  | polled _ h => exact h.calm.settings
  | held _ h => exact h.calm.settings
  | probed _ path => exact (calm_path path).settings
  | polling path => exact ((calm_path path).trans (calm_polling _)).settings

theorem command_step (self : TaskId) (channel : String) (v : Value) (s : Session) :
    s.settings.Step ((command self channel v).exec s).2.settings := by
  rw [exec_command]
  split
  · exact .kept
  · split
    · exact (begin_polled .refresh (fun _ => False) s).calm.step
    · split
      · exact .kept
      · exact .kept
      · exact write_step self _ v s

theorem turn_step (self : TaskId) (c : Cause) (s : Session) :
    s.settings.Step ((c.turn self).exec s).2.settings := by
  -- whatever is no order keeps the settings
  have other : (∀ o, c = .started o → o.isOrder = false) →
      s.settings.Step ((c.turn self).exec s).2.settings := by
    intro hc
    rw [(turn_effect self c s).settings hc]
    exact .kept
  cases c with
  | started o =>
    cases o with
    | command channel v => exact command_step self channel v s
    | selectMode mode => exact (selectMode_calm self mode s).step
    | activatePassive power countdown => exact (activatePassive_calm self power countdown s).step
    | activateManual slots => exact (order_ordered self _ s).calm.step
    | connect | poll | probe | followUp _ _ | dispose => exact other (by rintro _ ⟨⟩; rfl)
  | answered _ _ _ | rested _ | granted _ => exact other (by rintro _ ⟨⟩)

end Routine

namespace Crowd

/-- Settings are sound at any time: now, and before each turn in the log. -/
structure Provided (c : Crowd) : Prop where
  now : c.session.settings.Sound
  before : ∀ e ∈ c.log, e.before.settings.Sound

theorem moved_provided {c d : Crowd} (ho : c.Orderly) (h : c.Provided) (moved : Moved c d) :
    d.Provided := by
  rcases moved_log ho moved with ⟨log, -, settings⟩ | ⟨e, sound, before, log, session⟩
  · constructor
    · rw [settings]
      exact h.now
    · rw [log]
      exact h.before
  · have step := Routine.turn_step e.task e.cause e.before
    rw [sound.exec, before] at step
    constructor
    · rw [session]
      exact step.sound h.now
    · rw [log]
      exact List.forall_mem_cons.mpr ⟨before ▸ h.now, h.before⟩

theorem Reachable.provided {c : Crowd} (h : c.Reachable) : c.Provided :=
  h.induction (fun _ _ => ⟨Settings.sound_default, List.forall_mem_nil _⟩)
    fun c mv hr hc => moved_provided hr.orderly hc (step_moved c mv)

end Crowd
end BatteryLink
