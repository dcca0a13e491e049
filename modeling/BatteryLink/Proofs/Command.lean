import BatteryLink.Proofs.Order
import BatteryLink.Proofs.Setting
import BatteryLink.Session.Routine
/-!
The first turn of a command: what its channel makes of its value decides what comes of it.
-/
namespace BatteryLink

/-- A value for a channel, converted and checked. -/
def Channel.check (c : Channel) (v : Value) : Setting.Converted Unit :=
  match c with
  | .slot _ .enabled => (Setting.switch v).map fun _ => ()
  | .slot _ .start | .slot _ .stop => (Setting.time v).map fun _ => ()
  | .slot _ .weekdays => (Setting.weekdays v).map fun _ => ()
  | .slot _ .power => (Setting.power v).map fun _ => ()
  | .control .modeSelect => (Setting.mode v).map fun _ => ()
  | .control .passivePower => (Setting.power v).map fun _ => ()
  | .control .passiveCountdown => (Setting.countdown v).map fun _ => ()
  | .control .passiveActivate | .control .manualActivate => (Setting.switch v).map fun _ => ()

/-- Channels whose values are numbers. -/
def Channel.isNumeric : Channel → Bool
  | .slot _ .power | .control .passivePower | .control .passiveCountdown => true
  | _ => false

namespace Setting

variable {α : Type} {v : Value} {f : Fault}

theorem switch_ne_fault : switch v ≠ .error (.fault f) := by
  unfold switch
  split
  · dsimp only
    split
    · simp
    · split <;> simp [complain]
  · simp

theorem time_ne_fault : time v ≠ .error (.fault f) := by
  unfold time TimeOfDay.normalize
  split
  · simp [orComplaint, complain]
  · split <;> simp [orComplaint, complain]

theorem weekdays_ne_fault : weekdays v ≠ .error (.fault f) := by
  unfold weekdays Weekdays.ofValue
  split
  · simp [orComplaint, complain]
  · split <;> simp [orComplaint, complain]

/-- Values of which not even a text can be made, since they are nested too deep. -/
def Bottomless (v : Value) : Prop := ∃ doing, v.display = .error (.tooDeep doing)

theorem mode_fault_iff :
    mode v = .error (.fault f) ↔ v.display = .error f ∧ ∃ doing, f = .tooDeep doing := by
  unfold mode
  split
  · next doing hv =>
    rw [hv]
    constructor
    · rintro ⟨⟩
      exact ⟨rfl, doing, rfl⟩
    · rintro ⟨⟨⟩, -⟩
      rfl
  · next other hv =>
    refine iff_of_false nofun fun ⟨h, doing, hf⟩ => other doing ?_
    exact (Except.error.inj (hv.symm.trans h)).trans hf
  · next hv =>
    rw [hv]
    refine iff_of_false (fun h => ?_) nofun
    dsimp only at h
    split at h <;> cases h

theorem mode_selectable {m : String} (h : mode v = .ok m) : m ∈ Request.selectableModes := by
  unfold mode at h
  split at h
  · cases h
  · cases h
  · dsimp only at h
    split at h
    · next name =>
      cases h
      exact List.contains_iff_mem.mp name
    · cases h

theorem map_eq_fault {x : Converted α} :
    (x.map fun _ => ()) = .error (.fault f) ↔ x = .error (.fault f) := by
  cases x <;> simp [Except.map]

end Setting

/-- Only a number that is too large for a double is beyond a channel, and a mode that is nested too
deep. -/
theorem Channel.check_fault_iff {c : Channel} {v : Value} {f : Fault} :
    c.check v = .error (.fault f) ↔ (c.isNumeric = true ∧ Setting.Vast v ∧ f = .tooLargeForDouble) ∨
      c = .control .modeSelect ∧ v.display = .error f ∧ ∃ doing, f = .tooDeep doing := by
  unfold check isNumeric
  split <;> rw [Setting.map_eq_fault] <;>
    simp [Setting.switch_ne_fault, Setting.time_ne_fault, Setting.weekdays_ne_fault,
      Setting.mode_fault_iff, Setting.power, Setting.countdown, Setting.boundedInt_fault_iff]

theorem Request.select_of_name {v : Value} {m : String} (h : v.asText? = some m)
    (hm : m ∈ selectableModes) : ∃ payload, select v = .ok payload := by
  have built : ∀ m ∈ selectableModes, (select (.text m)).toOption.isSome := by decide +kernel
  have same : select v = select (.text m) := by
    unfold select selectedMode
    rw [h]
    simp only [selectableModes, List.mem_cons, List.not_mem_nil, or_false] at hm
    rcases hm with rfl | rfl | rfl <;> rfl
  obtain ⟨payload, hp⟩ := Option.isSome_iff_exists.mp (built m hm)
  exact ⟨payload, same.trans (toOption_eq_some.mp hp)⟩

namespace Routine

variable {α : Type} (self : TaskId) (s : Session)

theorem exec_withValue (x : Setting.Converted α) (f : α → Turn Next) :
    (withValue x f).exec s = match x with
      | .ok a => (f a).exec s
      | .error (.refused _) => (.ok (.done .nothing), s)
      | .error (.fault e) => (.error (.fault e), s) := by
  unfold withValue
  split <;> rfl

/-- Writes a value to a channel. -/
def write (c : Channel) (v : Value) : Turn Next :=
  match c with
  | .slot i field => writeSlotField i field v
  | .control c => writeControl self c v

theorem exec_command (channel : String) (v : Value) :
    (command self channel v).exec s =
      if s.disposed then (.ok (.done .nothing), s)
      else if isRefresh v then (conclude .refresh Poll.begin).exec s
      else match Channel.parse channel with
        | .error f => (.error (.fault f), s)
        | .ok none => (.ok (.done .nothing), s)
        | .ok (some c) => (write self c v).exec s := by
  unfold command
  rw [Turn.exec_bind, Turn.exec_get]
  dsimp only
  split
  · rfl
  · split
    · rfl
    · cases Channel.parse channel with
      | error f => rfl
      | ok c =>
        cases c with
        | none => rfl
        | some c => cases c <;> rfl

/-- What comes of a value that is written to a channel. -/
inductive Reaction (c : Channel) (v : Value) : Except Trouble Next × Session → Prop
  | refused {e : Complaint} :
      c.check v = .error (.refused e) → Reaction c v (.ok (.done .nothing), s)
  | beyond {f : Fault} : c.check v = .error (.fault f) → Reaction c v (.error (.fault f), s)
  | wrote {t : Settings} : c.check v = .ok () → (s.settings.passive.InRange → t.passive.InRange) →
      Reaction c v (.ok (.done .nothing), { s with settings := t })
  | off : c.check v = .ok () → Reaction c v (.ok (.done .nothing), s)
  | mode {name : String} : c = .control .modeSelect → c.check v = .ok () →
      name ∈ Request.selectableModes → Reaction c v ((selectMode self (.text name)).exec s)
  | passive : c = .control .passiveActivate → Setting.switch v = .ok true → c.check v = .ok () →
      Reaction c v ((activatePassive self (.int s.settings.passive.power)
        (.int s.settings.passive.countdown)).exec s)
  | manual : c = .control .manualActivate → Setting.switch v = .ok true → c.check v = .ok () →
      Reaction c v ((order self (.manual .settings)).exec s)

variable {c : Channel} {v : Value}

/-- A converted value is used only if the channel takes it. -/
theorem withValue_reaction {x : Setting.Converted α} {f : α → Turn Next}
    (hc : c.check v = x.map fun _ => ())
    (h : ∀ a, x = .ok a → c.check v = .ok () → Reaction self s c v ((f a).exec s)) :
    Reaction self s c v ((withValue x f).exec s) := by
  rw [exec_withValue]
  cases x with
  | ok a => exact h a rfl hc
  | error e =>
    cases e with
    | refused e => exact .refused hc
    | fault f => exact .beyond hc

theorem whenOn_reaction {t : Turn Next} (hc : c.check v = (Setting.switch v).map fun _ => ())
    (h : Setting.switch v = .ok true → c.check v = .ok () → Reaction self s c v (t.exec s)) :
    Reaction self s c v ((whenOn v t).exec s) := by
  apply withValue_reaction self s hc
  intro on hon checked
  cases on with
  | true => exact h hon checked
  | false => exact .off checked

theorem write_reaction (c : Channel) (v : Value) : Reaction self s c v ((write self c v).exec s) := by
  cases c with
  | slot i field =>
    cases field <;> exact withValue_reaction self s rfl fun _ _ checked => .wrote checked id
  | control c =>
    cases c with
    | modeSelect =>
      exact withValue_reaction self s rfl fun name hn checked =>
        .mode rfl checked (Setting.mode_selectable hn)
    | passivePower =>
      refine withValue_reaction self s rfl fun power hp checked => .wrote checked fun h => ?_
      exact ⟨Setting.boundedInt_between hp, h.countdown⟩
    | passiveCountdown =>
      refine withValue_reaction self s rfl fun countdown hn checked => .wrote checked fun h => ?_
      exact ⟨h.power, Setting.boundedInt_between hn⟩
    | passiveActivate => exact whenOn_reaction self s rfl (.passive rfl)
    | manualActivate => exact whenOn_reaction self s rfl (.manual rfl)

/-- A channel acts only on a value that it takes. -/
theorem exec_write_error {e : Stopped Complaint} (h : c.check v = .error e) :
    (write self c v).exec s = match e with
      | .refused _ => (.ok (.done .nothing), s)
      | .fault f => (.error (.fault f), s) := by
  have reaction := write_reaction self s c v
  generalize (write self c v).exec s = p at reaction
  cases reaction with
  | refused hc =>
    cases h.symm.trans hc
    rfl
  | beyond hc =>
    cases h.symm.trans hc
    rfl
  | wrote hc _ => cases h.symm.trans hc
  | off hc => cases h.symm.trans hc
  | mode _ hc _ => cases h.symm.trans hc
  | passive _ _ hc => cases h.symm.trans hc
  | manual _ _ hc => cases h.symm.trans hc

theorem not_isRefresh (on : Setting.switch v = .ok true) : isRefresh v = false := by
  rw [Bool.eq_false_iff]
  intro refresh
  have text : v.asText? = some refreshWord := beq_iff_eq.mp refresh
  have plain : (Setting.plain v).asText? = some (Text.trim refreshWord) := by
    unfold Setting.plain
    split
    · cases text
    · rw [text]
      rfl
  unfold Setting.switch at on
  rw [plain] at on
  have refused : (Setting.yesWords.contains (Text.lower (Text.trim refreshWord)) ||
      Setting.noWords.contains (Text.lower (Text.trim refreshWord))) = false := by
    decide +kernel
  obtain ⟨yes, no⟩ := Bool.or_eq_false_iff.mp refused
  dsimp only at on
  rw [yes, no] at on
  cases on

theorem exec_whenOn (on : Setting.switch v = .ok true) (t : Turn Next) :
    (whenOn v t).exec s = t.exec s := by
  unfold whenOn
  rw [exec_withValue, on]
  rfl

/-- A passive activation orders what the settings say at the moment. -/
theorem exec_passiveActivate (on : Setting.switch v = .ok true) (live : s.disposed = false)
    {payload : String} (h : Request.passive (.int s.settings.passive.power)
      (.int s.settings.passive.countdown) = .ok payload) :
    (command self Order.passiveToggle v).exec s =
      (order self (.single payload (some Order.passiveToggle))).exec s := by
  have parse : Channel.parse Order.passiveToggle = .ok (some (.control .passiveActivate)) := by
    decide +kernel
  rw [exec_command, live, if_neg Bool.false_ne_true, not_isRefresh on, if_neg Bool.false_ne_true,
    parse]
  change (whenOn v _).exec s = _
  rw [exec_whenOn s on, Turn.exec_bind, Turn.exec_get]
  dsimp only
  unfold activatePassive
  rw [h]

theorem exec_manualActivate (on : Setting.switch v = .ok true) (live : s.disposed = false) :
    (command self Order.manualToggle v).exec s = (order self (.manual .settings)).exec s := by
  have parse : Channel.parse Order.manualToggle = .ok (some (.control .manualActivate)) := by
    decide +kernel
  rw [exec_command, live, if_neg Bool.false_ne_true, not_isRefresh on, if_neg Bool.false_ne_true,
    parse]
  exact exec_whenOn s on _

end Routine
end BatteryLink
