import BatteryLink.Proofs.Activation
import BatteryLink.Proofs.Envelope
import BatteryLink.Simulation.World
/-!
What a command comes back with. Its result counts the requests that the device took, out of all that
the command had to make, and it plans a poll exactly if the device took them all.
-/
namespace BatteryLink

open Routine (Cause Next)
open BatteryLink.Order (Item Try Step)

namespace Order

/-- An answer with a result in which the device says that it took the request. -/
def Took (a : Answered) : Prop :=
  ∃ octets r, a = .ok (some octets) ∧ Reply.decode octets = .ok r ∧
    (Value.get "set_result" r = .bool true ∨ Value.get "set_result" r = .int 1)

theorem saysAccepted_iff (r : Reply.Entries) : Reply.saysAccepted r = true ↔
    Value.get "set_result" r = .bool true ∨ Value.get "set_result" r = .int 1 := by
  unfold Reply.saysAccepted
  split <;> simp_all

theorem took_iff {a : Answered} : took a = true ↔ Took a := by
  constructor
  · intro h
    unfold took at h
    split at h
    · next octets =>
      split at h
      · next b hb =>
        cases h
        obtain ⟨r, hr, told⟩ := bind_eq_ok.mp hb
        exact ⟨octets, r, rfl, hr, (saysAccepted_iff r).mp (Except.ok.inj told)⟩
      · cases h
    · cases h
    · cases h
  · rintro ⟨octets, r, rfl, hr, told⟩
    have accepted : Reply.accepted octets = .ok true := by
      rw [← (saysAccepted_iff r).mpr told]
      exact bind_eq_ok.mpr ⟨r, hr, rfl⟩
    unfold took
    simp [accepted]

/-- A request that was made and that the device took. -/
def Try.Took (y : Try) : Prop := ∃ e a, y.made = some (e, a) ∧ Order.Took a

theorem Try.took_iff {y : Try} : y.took = true ↔ y.Took := by
  unfold took Took
  cases y.made with
  | none => simp
  | some p =>
    rw [Option.any_some, Order.took_iff]
    constructor
    · exact fun h => ⟨p.1, p.2, rfl, h⟩
    · rintro ⟨e, a, same, h⟩
      cases same
      exact h

instance (y : Try) : Decidable y.Took := decidable_of_iff _ Try.took_iff

end Order

/-- Commands to the device that are given in full: the selection of a mode that can be selected, a
passive activation and a manual one, each through its channel or directly. -/
inductive Operation.Commands : Operation → Prop
  | mode {v : Value} {m : String} : Setting.mode v = .ok m → Commands (.command Control.modeSelect.id v)
  | passive {v : Value} : Setting.switch v = .ok true → Commands (.command Order.passiveToggle v)
  | manual {v : Value} : Setting.switch v = .ok true → Commands (.command Order.manualToggle v)
  | selectMode {v : Value} {m : String} : v.asText? = some m → m ∈ Request.selectableModes →
      Commands (.selectMode v)
  | activatePassive {p : PassiveSetting} : p.InRange →
      Commands (.activatePassive (.int p.power) (.int p.countdown))
  | activateManual (slots : List SlotDraft) : Commands (.activateManual slots)

/-- What a command orders that is given to a session. -/
inductive Operation.Orders (s : Session) : Operation → Order.Kind → Prop
  | mode {v : Value} {m payload : String} : Setting.mode v = .ok m →
      Request.select (.text m) = .ok payload →
      Orders s (.command Control.modeSelect.id v) (.single payload none)
  | passive {v : Value} {payload : String} : Setting.switch v = .ok true →
      s.settings.passive.request = .ok payload →
      Orders s (.command Order.passiveToggle v) (.single payload (some Order.passiveToggle))
  | manual {v : Value} : Setting.switch v = .ok true →
      Orders s (.command Order.manualToggle v) (.manual .settings)
  | selectMode {v : Value} {payload : String} : Request.select v = .ok payload →
      Orders s (.selectMode v) (.single payload none)
  | activatePassive {power countdown : Value} {payload : String} :
      Request.passive power countdown = .ok payload →
      Orders s (.activatePassive power countdown) (.single payload (some Order.passiveToggle))
  | activateManual (slots : List SlotDraft) : Orders s (.activateManual slots) (.manual (.given slots))

theorem Setting.mode_not_refresh {v : Value} {m : String} (h : mode v = .ok m) :
    Routine.isRefresh v = false := by
  rw [Bool.eq_false_iff]
  intro refresh
  have text : v.asText? = some Routine.refreshWord := beq_iff_eq.mp refresh
  have shown : v.display = .ok Routine.refreshWord := by
    unfold Value.display
    rw [text]
  unfold mode at h
  rw [shown] at h
  have other : Request.selectableModes.contains (Text.trim Routine.refreshWord) = false := by
    decide +kernel
  dsimp only at h
  rw [other] at h
  cases h

namespace Operation

variable {s : Session} {o : Operation} {k : Order.Kind}

/-- Every command orders something, since the passive settings are in range at any time. -/
theorem Commands.orders (h : o.Commands) (range : s.settings.passive.InRange) : ∃ k, o.Orders s k := by
  cases h with
  | @mode v m hv =>
    obtain ⟨payload, hp⟩ := Request.select_of_name (v := .text m) rfl (Setting.mode_selectable hv)
    exact ⟨_, .mode hv hp⟩
  | passive hv =>
    obtain ⟨payload, hp⟩ := Request.passive_of_inRange range
    exact ⟨_, .passive hv hp⟩
  | manual hv => exact ⟨_, .manual hv⟩
  | selectMode hv hm =>
    obtain ⟨payload, hp⟩ := Request.select_of_name hv hm
    exact ⟨_, .selectMode hp⟩
  | activatePassive hp =>
    obtain ⟨payload, hp⟩ := Request.passive_of_inRange hp
    exact ⟨_, .activatePassive hp⟩
  | activateManual slots => exact ⟨_, .activateManual slots⟩

theorem Commands.isOrder (h : o.Commands) : o.isOrder = true := by
  cases h <;> rfl

theorem Orders.exec (h : o.Orders s k) (live : s.disposed = false) (self : TaskId) :
    (Routine.perform self o).exec s = (Routine.order self k).exec s := by
  cases h with
  | @mode v m payload hv hp =>
    have parse : Channel.parse Control.modeSelect.id = .ok (some (.control .modeSelect)) := by
      decide +kernel
    change (Routine.command self Control.modeSelect.id v).exec s = _
    rw [Routine.exec_command, live, if_neg Bool.false_ne_true, Setting.mode_not_refresh hv,
      if_neg Bool.false_ne_true, parse]
    change (Routine.withValue (Setting.mode v) _).exec s = _
    rw [Routine.exec_withValue, hv]
    dsimp only
    rw [Routine.selectMode, hp]
  | passive hv hp => exact Routine.exec_passiveActivate self s hv live hp
  | manual hv => exact Routine.exec_manualActivate self s hv live
  | selectMode hp =>
    change (Routine.selectMode self _).exec s = _
    rw [Routine.selectMode, hp]
  | activatePassive hp =>
    change (Routine.activatePassive self _ _).exec s = _
    rw [Routine.activatePassive, hp]
  | activateManual slots => rfl

end Operation

namespace Order

theorem mem_enabledSlots {slots : List SlotDraft} {i : Nat} :
    i ∈ enabledSlots slots ↔ ∃ d, slots[i]? = some d ∧ d.enabled.truthy = true := by
  simp only [enabledSlots, List.mem_map, List.mem_filter, Prod.exists, List.mem_zipIdx_iff_getElem?]
  constructor
  · rintro ⟨d, j, ⟨hd, on⟩, rfl⟩
    exact ⟨d, hd, on⟩
  · rintro ⟨d, hd, on⟩
    exact ⟨d, i, ⟨hd, on⟩, rfl⟩

theorem enabledSlots_pairwise (slots : List SlotDraft) : (enabledSlots slots).Pairwise (· < ·) := by
  have numbered : (slots.zipIdx.map (·.2)).Pairwise (· < ·) := by
    rw [List.zipIdx_map_snd]
    exact List.pairwise_lt_range'
  exact numbered.sublist (List.filter_sublist.map _)

end Order

def Value.within? (name : String) : Value → Option Value
  | dict members => get? name members
  | _ => .none

/-- The number of the slot that a request writes, as the device reads it. -/
def Request.slotNumber? (payload : String) : Option Value :=
  match Json.read payload.toUTF8.toList with
  | .error _ => none
  | .ok request =>
    ["params", "config", "manual_cfg", "time_num"].foldlM (fun v name => v.within? name) request

/-- The request for a slot bears its number. -/
theorem Slot.request_numbered {p : Slot} {i : Fin 4} {payload : String} (h : p.request i = .ok payload) :
    Request.slotNumber? payload = some (.int i.val) := by
  change Request.build _ _ true = _ at h
  have written := Request.write_of_build h
  have slot : (Request.manualMode (.int i.val) (.text p.start) (.text p.stop) (.int p.weekSet)
      (.int p.power)).Plain := by
    refine .dict (by simp) (List.forall_mem_cons.mpr ⟨.text _, List.forall_mem_singleton.mpr ?_⟩)
    refine .dict (by simp) ?_
    simp only [List.forall_mem_cons]
    exact ⟨.int _, .text _, .text _, .int _, .int _, .int _, List.forall_mem_nil _⟩
  have params : (Request.object [("id", .int 0), ("config", Request.manualMode (.int i.val)
      (.text p.start) (.text p.stop) (.int p.weekSet) (.int p.power))]).Plain :=
    .dict (by simp) (List.forall_mem_cons.mpr ⟨.int 0, List.forall_mem_singleton.mpr slot⟩)
  have read := Json.read_write (Request.plain_envelope (m := .setMode) params) written
  unfold Request.slotNumber?
  rw [read]
  rfl

/-- The number of the slot that a turn asks the device to write. -/
def Entry.slotNumber? (e : Entry) : Option Value := e.payload?.bind Request.slotNumber?

theorem Entry.Asks.numbered {e : Entry} {i : Fin 4} (h : e.Asks (.slot .settings i.val)) :
    e.slotNumber? = some (.int i.val) := by
  obtain ⟨x, stage, hr, request⟩ := Entry.asks_slot h
  unfold slotNumber? payload?
  rw [hr]
  exact Slot.request_numbered request

/-- What the turns of an order that got the lock in turn `b` come to, if its result is `t`. -/
structure Reckoning (k : Order.Kind) (b : Entry) (turns : List Entry) (ys : List Try) (t : Tally) :
    Prop where
  /-- What there was to do when the order got the lock was tried, once each and in its order. -/
  tried : ys.map (·.item) = k.items b.before
  /-- The slots of an activation are those that were enabled, by their numbers. -/
  slots : ∀ source, k = .manual source →
    (Order.enabledSlots (source.read b.before)).Pairwise (· < ·) ∧
    ∀ i, i ∈ Order.enabledSlots (source.read b.before) ↔
      ∃ d, (source.read b.before)[i]? = some d ∧ d.enabled.truthy = true
  sincere : ∀ y ∈ ys, y.Sincere turns
  /-- Nothing else was done to the device, and there was a pause between every two tries. -/
  paced : stepsIn turns = [Step.paused].intercalate (ys.map Try.steps)
  attempted : t.attempted = (k.items b.before).length
  succeeded : t.succeeded = ys.countP (·.Took)
  accepted : 0 < t.attempted → t.succeeded = t.attempted → ∃ id toggle,
    turns.flatMap (·.after.chores) =
      [.scheduled id (.after (.ofMilliseconds 1000)) (.followUp id toggle)]
  refused : ¬ (0 < t.attempted ∧ t.succeeded = t.attempted) → turns.flatMap (·.after.chores) = []

theorem Tally.ok_iff {t : Tally} : t.ok = true ↔ 0 < t.attempted ∧ t.succeeded = t.attempted := by
  simp [ok]

theorem Order.tally_succeeded (ys : List Try) : (tally ys).succeeded = ys.countP (·.Took) := by
  unfold tally
  simp only [Int.natCast_inj]
  refine List.countP_congr fun y _ => ?_
  rw [Try.took_iff, decide_eq_true_iff]

theorem Account.reckoning {k : Order.Kind} {b e : Entry} {es : List Entry} {ys : List Try}
    {left : List Item} {t : TaskId} {o : Operation} (h : Account k b e (e :: es) ys left)
    (life : Life t o (e :: es)) (order : o.isOrder = true) (ended : Routine.Ended e.result)
    (whole : ∀ t, e.result = .error t → ¬ t.OfUser) (live : b.before.disposed = false) :
    Reckoning k b (e :: es) ys (Order.tally ys) := by
  obtain ⟨rfl, steps, -, closes⟩ := h.closed ended whole live
  have tried : ys.map (·.item) = k.items b.before := by rw [h.items, List.append_nil]
  refine ⟨tried, ?_, h.sincere, steps, ?_, Order.tally_succeeded ys, ?_, ?_⟩
  · rintro source rfl
    exact ⟨Order.enabledSlots_pairwise _, fun i => Order.mem_enabledSlots⟩
  · rw [← tried, List.length_map]
    rfl
  · intro some all
    have ok := Tally.ok_iff.mpr ⟨some, all⟩
    rcases closes with done | ⟨no, -⟩
    · rcases life.chores order with ⟨-, planned⟩ | ⟨no, -⟩
      · exact planned
      · exact absurd ⟨order, _, done, ok⟩ no
    · cases ok.symm.trans no
  · intro no
    have no : (Order.tally ys).ok = false := Bool.eq_false_iff.mpr fun ok => no (Tally.ok_iff.mp ok)
    rcases life.chores order with ⟨⟨-, t, done, ok⟩, -⟩ | ⟨-, none⟩
    · rcases closes with same | ⟨-, _, failed, -⟩
      · cases done.symm.trans same
        cases ok.symm.trans no
      · cases done.symm.trans failed
    · exact none

/-- A writing that pauses goes on 300 milliseconds later. -/
theorem Simulation.World.goOn_pause (w : World) (t : TaskId) (p : Order.Writing) :
    (w.goOn t (.ok (.pause p))).agenda =
      w.agenda.later (.ofRatio false 300 1000) 1 (.rested t p) := by
  have long : (Binary64.ofRatio false 300 1000).leInt 0 = false := by decide +kernel
  change w.agenda.pause (.ofRatio false 300 1000) _ = _
  unfold Agenda.pause
  rw [long, if_neg Bool.false_ne_true]

namespace Crowd

variable {c : Crowd}

/-- Commands from the settings make good requests, and that for a slot bears its number. -/
theorem Provided.made (h : c.Provided) {o : Operation} {k : Order.Kind} {s : Session}
    (orders : o.Orders s k) (settings : ∀ slots, o ≠ .activateManual slots) {t : TaskId} {b : Entry}
    (hb : b ∈ c.turns t) {y : Try} (hy : y.Sincere (c.turns t)) (item : y.item ∈ k.items b.before) :
    ∃ f a, y.made = some (f, a) ∧ ∀ i, y.item = .slot .settings i → f.slotNumber? = some (.int i) := by
  have single : ∀ payload, y.item ∈ [Item.single payload] →
      ∃ f a, y.made = some (f, a) ∧ ∀ i, y.item = .slot .settings i → f.slotNumber? = some (.int i) := by
    intro payload hi
    have same := List.mem_singleton.mp hi
    obtain ⟨f, a, made, -⟩ := hy.made fun f _ => ⟨payload, by rw [same]; rfl⟩
    refine ⟨f, a, made, fun i slot => ?_⟩
    cases same.symm.trans slot
  cases orders with
  | mode _ _ => exact single _ item
  | passive _ _ => exact single _ item
  | manual _ =>
    obtain ⟨f, a, made, asks⟩ := hy.made fun f hf => h.good f hf b hb _ item
    refine ⟨f, a, made, fun i slot => ?_⟩
    rw [Order.items_settings] at item
    obtain ⟨j, -, same⟩ := List.mem_map.mp item
    rw [← same] at asks
    cases same.trans slot
    exact asks.numbered
  | selectMode _ => exact single _ item
  | activatePassive _ => exact single _ item
  | activateManual slots => exact absurd rfl (settings slots)

/-- Every command that is given to a session that has not been disposed of comes to its end. Unless
the user interrupts it, or the session is disposed of before it gets the lock, it has then tried all
that there was to do when it got the lock, whatever the device answered; its result counts what was
tried and what the device took, it is the last result of the session, and exactly one poll has been
planned, a second later, if the device took all of it. Each try is a transaction, that of a slot with
the number of the slot, but for slots that are handed over directly and make no good request. A pause
takes 300 milliseconds. Only a host application that refuses to hear of the toggle keeps the result
from coming back. -/
theorem commands_accounted (hc : c.Reachable) {e : Entry} (he : e ∈ c.log) {o : Operation}
    (started : e.cause = .started o) (commands : o.Commands) (live : e.before.disposed = false) :
    ∃ k, o.Orders e.before k ∧ Inevitable (fun d => ∃ x ∈ d.endings, x.task = e.task) c ∧
      (∀ x ∈ c.endings, x.task = e.task → (∀ t, x.result = .error t → ¬ t.OfUser) →
        (∀ b ∈ c.turns e.task, b.Takes → b.before.disposed = false) →
        ∃ b ∈ c.turns e.task, b.Takes ∧ ∃ ys t, Reckoning k b (c.turns e.task) ys t ∧
          ((∀ slots, o ≠ .activateManual slots) → ∀ y ∈ ys, ∃ f a, y.made = some (f, a) ∧
            ∀ i, y.item = .slot .settings i → f.slotNumber? = some (.int i)) ∧
          ∃ l es, c.turns e.task = l :: es ∧ l.after.lastResult = some t ∧
            (x.result = .ok (.tally t) ∨
              t.ok = false ∧ ∃ f, x.result = .error f ∧ f.OfHost l.before.host)) ∧
      ∀ (w : Simulation.World) (t : TaskId) (p : Order.Writing),
        (w.goOn t (.ok (.pause p))).agenda =
          w.agenda.later (.ofRatio false 300 1000) 1 (.rested t p) := by
  obtain ⟨k, orders⟩ := commands.orders (hc.provided.before e he).passive
  have order := commands.isOrder
  have alone : o ≠ .dispose := by
    rintro rfl
    cases order
  have exec := (hc.orderly.sound e he).exec
  rw [started] at exec
  change (Routine.perform e.task o).exec e.before = _ at exec
  rw [orders.exec live] at exec
  refine ⟨k, orders, hc.ends he (by rwa [hc.orderly.started he started]), ?_,
    Simulation.World.goOn_pause⟩
  intro x hx task whole alive
  obtain ⟨f, es, turns, life, last, waits | ⟨b, hb, takes, ys, left, account⟩⟩ :=
    hc.orderly.accounted he started alone exec
  · exact absurd (last x hx task).2 (Routine.Waits.queue waits.1).not_ended
  · rw [← turns] at hb
    obtain ⟨ends, ended⟩ := last x hx task
    have calm : ∀ t, f.result = .error t → ¬ t.OfUser :=
      fun t failed => whole t (failed ▸ ends).of_error
    have reckoning := account.reckoning life order ended calm (alive b hb takes)
    obtain ⟨-, -, noted, closes⟩ := account.closed ended calm (alive b hb takes)
    rw [← turns] at reckoning
    refine ⟨b, hb, takes, ys, _, reckoning, fun settings y hy => ?_, f, es, turns, noted, ?_⟩
    · have item : y.item ∈ k.items b.before := reckoning.tried ▸ List.mem_map_of_mem hy
      exact hc.provided.made orders settings hb (reckoning.sincere y hy) item
    · rcases closes with done | ⟨no, g, failed, refuses⟩
      · have done : f.result = .ok (.done (.tally (Order.tally ys))) := done
        exact .inl (done ▸ ends).of_done
      · have failed : f.result = .error g := failed
        exact .inr ⟨no, g, (failed ▸ ends).of_error, refuses⟩

/-- Two slots are enabled and activated; the device takes the first one and does not answer to the
second one. -/
def halfWritten : List Move :=
  [.start (.command "timePeriod0#enabled" (.bool true)),
    .start (.command "timePeriod2#enabled" (.bool true)),
    .start (.command Order.manualToggle (.bool true)),
    .answer 2 ⟨0⟩ (.ok (some "\x7b\"id\":0,\"result\":\x7b\"set_result\":1\x7d\x7d".toUTF8.toList)),
    .rest 2, .answer 2 ⟨0⟩ (.ok none)]

theorem commands_accounted_halfWritten :
    let c := (start { host := "10.0.0.2" } false).run halfWritten
    ∃ e ∈ c.log, ∃ o, e.cause = .started o ∧ o.Commands ∧ e.before.disposed = false ∧
      ∃ k, o.Orders e.before k ∧ ∃ b ∈ c.turns 2, b.Takes ∧ ∃ ys, Reckoning k b (c.turns 2) ys ⟨1, 2⟩ := by
  intro c
  have reachable : c.Reachable := ⟨_, _, _, rfl⟩
  have activated : c.log.any (fun e => e.task == 2 && e.activates Order.manualToggle) = true := by
    decide +kernel
  have ended : c.endings.any (fun x => x.task == 2 && x.result.isOk) = true := by decide +kernel
  have counted : c.endings.all (fun x => x.task != 2 ||
      x.result.toOption == some (.tally ⟨1, 2⟩)) = true := by decide +kernel
  have live : c.log.all (fun b => !b.before.disposed) = true := by decide +kernel
  obtain ⟨e, he, task, activates, x, hx, same, returns⟩ := exists_activation_returned activated ended
  obtain ⟨v, on, started, alive⟩ := Entry.activates_iff.mp activates
  have result : x.result = .ok (.tally ⟨1, 2⟩) := by
    have := List.all_eq_true.mp counted x hx
    rw [same.trans task] at this
    exact toOption_eq_some.mp (by simpa using this)
  obtain ⟨k, orders, -, ends, -⟩ := commands_accounted reachable he started (.manual on) alive
  obtain ⟨b, hb, takes, ys, t, reckoning, -, l, es, -, -, returned⟩ := ends x hx same
    (fun t failed => by cases result.symm.trans failed) fun b hb _ => by
      simpa using List.all_eq_true.mp live b (mem_turns.mp hb).1
  have count : t = ⟨1, 2⟩ := by
    rcases returned with done | ⟨-, f, failed, -⟩
    · cases result.symm.trans done
      rfl
    · cases result.symm.trans failed
  rw [task] at hb reckoning
  exact ⟨e, he, _, started, .manual on, alive, k, orders, b, hb, takes, ys, count ▸ reckoning⟩

end Crowd
end BatteryLink
