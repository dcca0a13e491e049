import BatteryLink.Proofs.Delivery
/-!
Activations. Whatever has been written to the settings before, an activation gets to its
transactions. A manual one settles which slots it writes when it gets the lock, and with which
fields when it writes them.
-/
namespace BatteryLink

open Routine (Cause Next)
open BatteryLink.Order (Item)

/-- A turn that begins to write a slot, with the fields that the slot has in these settings. -/
def Entry.WritesSlot (e : Entry) (t : Settings) (i : Fin 4) : Prop :=
  ∃ x stage, e.result = .ok (.ask x (.order stage)) ∧ (t.slot i).request i = .ok x.payload

/-- Whether a turn begins an activation in a session that has not been disposed of. -/
def Entry.activates (e : Entry) (toggle : String) : Bool :=
  match e.cause with
  | .started (.command channel v) =>
    channel == toggle && (Setting.switch v).toOption == some true && !e.before.disposed
  | _ => false

theorem Entry.activates_iff {e : Entry} {toggle : String} : e.activates toggle = true ↔
    ∃ v, Setting.switch v = .ok true ∧ e.cause = .started (.command toggle v) ∧
      e.before.disposed = false := by
  unfold activates
  split
  · next channel v hc =>
    simp only [Bool.and_eq_true, beq_iff_eq, Bool.not_eq_true', toOption_eq_some]
    constructor
    · rintro ⟨⟨rfl, on⟩, live⟩
      exact ⟨v, on, hc, live⟩
    · rintro ⟨w, on, cause, live⟩
      cases hc.symm.trans cause
      exact ⟨⟨rfl, on⟩, live⟩
  · next other =>
    refine ⟨nofun, ?_⟩
    rintro ⟨v, -, cause, -⟩
    exact absurd cause (other toggle v)

theorem Entry.asks_slot {e : Entry} {i : Fin 4} (h : e.Asks (.slot .settings i.val)) :
    e.WritesSlot e.before.settings i := by
  obtain ⟨x, stage, hr, request⟩ := h
  exact ⟨x, stage, hr, (e.before.settings.slotRequest_eq i).symm.trans request⟩

/-- The text of the request that a turn makes. -/
def Entry.payload? (e : Entry) : Option String :=
  match e.result with
  | .ok (.ask x _) => some x.payload
  | _ => none

theorem payloads_of_forall₂ {t : Settings} {es : List Entry} {slots : List (Fin 4)}
    (h : List.Forall₂ (fun f i => f.WritesSlot t i) es slots) :
    es.map Entry.payload? = slots.map fun i => ((t.slot i).request i).toOption := by
  induction h with
  | nil => rfl
  | @cons f i es slots writes _ ih =>
    obtain ⟨x, stage, hr, request⟩ := writes
    rw [List.map_cons, List.map_cons, ih, request, Entry.payload?, hr]
    rfl

theorem Order.items_settings (s : Session) : (Order.Kind.manual .settings).items s =
    s.settings.enabled.map fun i => .slot .settings i.val := by
  rw [Order.Kind.items_manual]
  change (Order.enabledSlots (s.settings.slots.toList.map Slot.draft)).map _ = _
  rw [Settings.enabledSlots_eq, List.map_map]
  rfl

namespace Crowd

variable {c : Crowd}

/-- Every slot makes a good request at any time. -/
theorem Provided.good (h : c.Provided) {t : TaskId} : ∀ f ∈ c.turns t, ∀ g ∈ c.turns t,
    ∀ i ∈ (Order.Kind.manual .settings).items g.before, ∃ payload, i.request f.before = .ok payload := by
  intro f hf g _ i hi
  rw [Order.items_settings] at hi
  obtain ⟨j, -, rfl⟩ := List.mem_map.mp hi
  have sound := h.before f (mem_turns.mp hf).1
  obtain ⟨payload, hp⟩ := Request.manualSlot_of_sound (sound.slots j) j
  exact ⟨payload, (f.before.settings.slotRequest_eq j).trans hp⟩

/-- A manual activation waits for the lock, or it has written the first of the slots that were
enabled when it got the lock. -/
theorem Reachable.writes (hc : c.Reachable) {e : Entry} (he : e ∈ c.log)
    (h : e.activates Order.manualToggle = true) :
    (transactions (c.turns e.task) = [] ∧ ∀ x ∈ c.endings, x.task ≠ e.task) ∨
      ∃ b ∈ c.turns e.task, b.Takes ∧ ∃ written left, b.before.settings.enabled = written ++ left ∧
        List.Forall₂ (fun f i => f.WritesSlot f.before.settings i)
          (transactions (c.turns e.task)) written ∧
        ∀ x ∈ c.endings, x.task = e.task → (∀ t, x.result = .error t → ¬ t.OfUser) →
          b.before.disposed = false → left = [] := by
  obtain ⟨v, on, asked, live⟩ := Entry.activates_iff.mp h
  have exec := (hc.orderly.sound e he).exec
  rw [asked] at exec
  change (Routine.command e.task Order.manualToggle v).exec e.before = _ at exec
  rw [Routine.exec_manualActivate e.task e.before on live] at exec
  rcases hc.orderly.delivers he asked nofun exec hc.provided.good with
    waits | ⟨b, hb, takes, made, left, all, asks, whole⟩
  · exact .inl waits
  · rw [Order.items_settings] at all
    obtain ⟨written, rest, enabled, rfl, rfl⟩ := List.map_eq_append_iff.mp all
    refine .inr ⟨b, hb, takes, written, rest, enabled, ?_, fun x hx task user alive => ?_⟩
    · rw [List.forall₂_map_right_iff] at asks
      exact asks.imp fun _ _ => Entry.asks_slot
    · exact List.map_eq_nil_iff.mp (whole x hx task user alive)

/-- A passive activation waits for the lock, or it asks for what the settings held when it was
begun, and for nothing else. -/
theorem Reachable.asks_passive (hc : c.Reachable) {e : Entry} (he : e ∈ c.log)
    (h : e.activates Order.passiveToggle = true) {x : Ending} (hx : x ∈ c.endings)
    (task : x.task = e.task)
    (whole : ∀ t, x.result = .error t → ¬ t.OfUser)
    (alive : ∀ b ∈ c.turns e.task, b.Takes → b.before.disposed = false) :
    ∃ f y stage, transactions (c.turns e.task) = [f] ∧ f.result = .ok (.ask y (.order stage)) ∧
      e.before.settings.passive.request = .ok y.payload := by
  obtain ⟨v, on, asked, live⟩ := Entry.activates_iff.mp h
  obtain ⟨payload, request⟩ := Request.passive_of_inRange (hc.provided.before e he).passive
  have exec := (hc.orderly.sound e he).exec
  rw [asked] at exec
  change (Routine.command e.task Order.passiveToggle v).exec e.before = _ at exec
  rw [Routine.exec_passiveActivate e.task e.before on live request] at exec
  have good : ∀ f ∈ c.turns e.task, ∀ g ∈ c.turns e.task, ∀ i ∈
      (Order.Kind.single payload (some Order.passiveToggle)).items g.before,
      ∃ text, i.request f.before = .ok text := by
    intro f _ g _ i hi
    cases List.mem_singleton.mp hi
    exact ⟨payload, rfl⟩
  rcases hc.orderly.delivers he asked nofun exec good with
    ⟨-, none⟩ | ⟨b, hb, takes, made, left, all, asks, ended⟩
  · exact absurd task (none x hx)
  · rw [ended x hx task whole (alive b hb takes), List.append_nil] at all
    rw [← all] at asks
    obtain ⟨f, rest, ⟨y, stage, hr, hy⟩, none, log⟩ := List.forall₂_cons_right_iff.mp asks
    rw [List.forall₂_nil_right_iff.mp none] at log
    exact ⟨f, y, stage, log, hr, request.trans hy⟩

/-- A run in which a task begins an activation and returns has a turn and an ending that say so. -/
theorem exists_activation_returned {t : TaskId} {toggle : String}
    (activated : c.log.any (fun e => e.task == t && e.activates toggle) = true)
    (ended : c.endings.any (fun x => x.task == t && x.result.isOk) = true) :
    ∃ e ∈ c.log, e.task = t ∧ e.activates toggle = true ∧
      ∃ x ∈ c.endings, x.task = e.task ∧ x.result.isOk = true := by
  obtain ⟨e, he, holds⟩ := List.any_eq_true.mp activated
  obtain ⟨task, activates⟩ := Bool.and_eq_true_iff.mp holds
  have task : e.task = t := beq_iff_eq.mp task
  obtain ⟨x, hx, holds⟩ := List.any_eq_true.mp ended
  obtain ⟨same, returns⟩ := Bool.and_eq_true_iff.mp holds
  exact ⟨e, he, task, activates, x, hx, (beq_iff_eq.mp same).trans task.symm, returns⟩

/-- Settings are sound at any time, whatever has been written to whatever channel, so that every slot
and the passive setting make a good request. Every activation of a live session comes to an end, and
unless the user interrupts it, or the session is disposed of before it gets the lock, it has then
made its transaction, or one for each of the slots that were enabled when it got the lock. -/
theorem settings_always_sound (hc : c.Reachable) : c.session.settings.Sound ∧
    (∀ i : Fin 4, ∃ payload, (c.session.settings.slot i).request i = .ok payload) ∧
    (∃ payload, c.session.settings.passive.request = .ok payload) ∧
    ∀ e ∈ c.log, ∀ toggle, e.activates toggle = true →
      Inevitable (fun d => ∃ x ∈ d.endings, x.task = e.task) c ∧
      ∀ x ∈ c.endings, x.task = e.task → (∀ t, x.result = .error t → ¬ t.OfUser) →
        (∀ b ∈ c.turns e.task, b.Takes → b.before.disposed = false) →
        (toggle = Order.passiveToggle → ∃ f y stage, transactions (c.turns e.task) = [f] ∧
          f.result = .ok (.ask y (.order stage)) ∧
          e.before.settings.passive.request = .ok y.payload) ∧
        (toggle = Order.manualToggle → ∃ b ∈ c.turns e.task, b.Takes ∧
          List.Forall₂ (fun f i => f.WritesSlot f.before.settings i)
            (transactions (c.turns e.task)) b.before.settings.enabled) := by
  have sound := hc.provided.now
  refine ⟨sound, fun i => Request.manualSlot_of_sound (sound.slots i) i,
    Request.passive_of_inRange sound.passive, ?_⟩
  intro e he toggle h
  obtain ⟨v, -, asked, -⟩ := Entry.activates_iff.mp h
  have operation := hc.orderly.started he asked
  refine ⟨hc.ends he (by rw [operation]; nofun), fun x hx task whole alive => ⟨?_, ?_⟩⟩
  · rintro rfl
    exact hc.asks_passive he h hx task whole alive
  · rintro rfl
    rcases hc.writes he h with ⟨-, none⟩ | ⟨b, hb, takes, written, left, all, writes, ended⟩
    · exact absurd task (none x hx)
    · rw [ended x hx task whole (alive b hb takes), List.append_nil] at all
      exact ⟨b, hb, takes, all ▸ writes⟩

/-- A start that needs padding is written to a slot, then a power that is refused; the slot is enabled
and activated, and the device does not answer. -/
def paddedStart : List Move :=
  [.start (.command "timePeriod1#start" (.text " 8:05 ")),
    .start (.command "timePeriod1#power" (.int 9000)),
    .start (.command "timePeriod1#enabled" (.bool true)),
    .start (.command Order.manualToggle (.bool true)), .answer 3 ⟨0⟩ (.ok none)]

theorem settings_always_sound_paddedStart :
    let c := (start { host := "10.0.0.2" } false).run paddedStart
    c.Reachable ∧ c.session.settings.Sound ∧ (c.session.settings.slot 1).start = "08:05" ∧
      ∃ f, transactions (c.turns 3) = [f] ∧ f.WritesSlot f.before.settings 1 := by
  intro c
  have reachable : c.Reachable := ⟨_, _, _, rfl⟩
  obtain ⟨sound, -, -, activations⟩ := settings_always_sound reachable
  have padded : (c.session.settings.slot 1).start = "08:05" := by decide +kernel
  have activated : c.log.any (fun e => e.task == 3 && e.activates Order.manualToggle) = true := by
    decide +kernel
  have ended : c.endings.any (fun x => x.task == 3 && x.result.isOk) = true := by decide +kernel
  have calm : c.log.all (fun b => !b.before.disposed &&
      (b.task != 3 || b.before.settings.enabled == [1])) = true := by decide +kernel
  obtain ⟨e, he, task, activates, x, hx, same, returns⟩ := exists_activation_returned activated ended
  have quiet : ∀ b ∈ c.turns e.task, b.before.disposed = false ∧ b.before.settings.enabled = [1] := by
    intro b hb
    obtain ⟨mem, own⟩ := mem_turns.mp hb
    have := List.all_eq_true.mp calm b mem
    simp_all
  obtain ⟨-, manual⟩ := (activations e he _ activates).2 x hx same
    (fun t ht => by rw [ht] at returns; cases returns) fun b hb _ => (quiet b hb).1
  obtain ⟨b, hb, -, writes⟩ := manual rfl
  rw [(quiet b hb).2, task] at writes
  obtain ⟨f, rest, writes, none, log⟩ := List.forall₂_cons_right_iff.mp writes
  rw [List.forall₂_nil_right_iff.mp none] at log
  exact ⟨reachable, sound, padded, f, log, writes⟩

/-- A manual activation that has the lock has written the first of the slots that were enabled when
it got the lock, each once and in their order, and at its end all of them, unless the user interrupts
it or the session was disposed of before it got the lock. A slot is written with the fields that it
has when its transaction begins; they are the fields of one state of the settings if the settings do
not change in between. -/
theorem writes_enabled (hc : c.Reachable) {e : Entry} (he : e ∈ c.log)
    (h : e.activates Order.manualToggle = true) :
    (transactions (c.turns e.task) = [] ∧ ∀ x ∈ c.endings, x.task ≠ e.task) ∨
      ∃ b ∈ c.turns e.task, b.Takes ∧ ∃ written left, b.before.settings.enabled = written ++ left ∧
        List.Forall₂ (fun f i => f.WritesSlot f.before.settings i)
          (transactions (c.turns e.task)) written ∧
        (∀ x ∈ c.endings, x.task = e.task → (∀ t, x.result = .error t → ¬ t.OfUser) →
          b.before.disposed = false → left = []) ∧
        ((∀ f ∈ transactions (c.turns e.task), f.before.settings = b.before.settings) →
          List.Forall₂ (fun f i => f.WritesSlot b.before.settings i)
            (transactions (c.turns e.task)) written) := by
  rcases hc.writes he h with waits | ⟨b, hb, takes, written, left, all, writes, ended⟩
  · exact .inl waits
  · refine .inr ⟨b, hb, takes, written, left, all, writes, ended, fun same => ?_⟩
    rw [List.forall₂_iff_get] at writes ⊢
    obtain ⟨length, each⟩ := writes
    refine ⟨length, fun i hi hj => ?_⟩
    have writes := each i hi hj
    rwa [same _ (List.get_mem _ _)] at writes

/-- Two slots are enabled and activated; while the first one is written, the power of both is set. -/
def poweredMeanwhile : List Move :=
  [.start (.command "timePeriod0#enabled" (.bool true)),
    .start (.command "timePeriod1#enabled" (.bool true)),
    .start (.command Order.manualToggle (.bool true)),
    .start (.command "timePeriod0#power" (.int 100)),
    .start (.command "timePeriod1#power" (.int 200)),
    .answer 2 ⟨0⟩ (.ok none), .rest 2, .answer 2 ⟨0⟩ (.ok none)]

theorem writes_enabled_meanwhile :
    let c := (start { host := "10.0.0.2" } false).run poweredMeanwhile
    c.Reachable ∧ ∃ b ∈ c.turns 2, b.Takes ∧ b.before.settings.enabled = [0, 1] ∧
      List.Forall₂ (fun f i => f.WritesSlot f.before.settings i) (transactions (c.turns 2)) [0, 1] := by
  intro c
  have reachable : c.Reachable := ⟨_, _, _, rfl⟩
  have activated : c.log.any (fun e => e.task == 2 && e.activates Order.manualToggle) = true := by
    decide +kernel
  have ended : c.endings.any (fun x => x.task == 2 && x.result.isOk) = true := by decide +kernel
  have quiet : c.log.all (fun b => !b.before.disposed &&
      (b.task != 2 || b.before.settings.enabled == [0, 1])) = true := by decide +kernel
  obtain ⟨e, he, task, activates, x, hx, same, returns⟩ := exists_activation_returned activated ended
  rcases writes_enabled reachable he activates with
    ⟨-, none⟩ | ⟨b, hb, takes, written, left, all, writes, whole, -⟩
  · exact absurd same (none x hx)
  · obtain ⟨mem, own⟩ := mem_turns.mp hb
    have calm := List.all_eq_true.mp quiet b mem
    rw [own, task] at calm
    obtain ⟨live, enabled⟩ := Bool.and_eq_true_iff.mp calm
    have enabled : b.before.settings.enabled = [0, 1] := by simpa using enabled
    have none : left = [] := whole x hx same (fun t ht => by rw [ht] at returns; cases returns)
      (by simpa using live)
    rw [none, List.append_nil] at all
    rw [← all, enabled, task] at writes
    exact ⟨reachable, b, task ▸ hb, takes, enabled, writes⟩

/-- The settings that a session had at some moment of a run. -/
def moments (c : Crowd) : List Settings :=
  c.log.flatMap fun e => [e.before.settings, e.after.settings]

/-- The two slots that are written come from no single state of the settings: the second one has its
new power, the first one still has its old one. -/
theorem not_one_state : ¬ ∀ c : Crowd, c.Reachable → ∀ e ∈ c.log,
    e.activates Order.manualToggle = true → (∃ x ∈ c.endings, x.task = e.task ∧ x.result.isOk = true) →
    ∃ t ∈ c.moments, List.Forall₂ (fun f i => f.WritesSlot t i) (transactions (c.turns e.task))
      t.enabled := by
  intro h
  let c := (start { host := "10.0.0.2" } false).run poweredMeanwhile
  have activated : c.log.any (fun e => e.task == 2 && e.activates Order.manualToggle) = true := by
    decide +kernel
  have ended : c.endings.any (fun x => x.task == 2 && x.result.isOk) = true := by decide +kernel
  -- no moment of the run has both the old power of the first slot and the new one of the second
  have differ : c.moments.all (fun t => (transactions (c.turns 2)).map Entry.payload? !=
      t.enabled.map fun i => ((t.slot i).request i).toOption) = true := by decide +kernel
  obtain ⟨e, he, task, activates, returned⟩ := exists_activation_returned activated ended
  obtain ⟨t, ht, writes⟩ := h c ⟨_, _, _, rfl⟩ e he activates returned
  rw [task] at writes
  have differs := List.all_eq_true.mp differ t ht
  exact bne_iff_ne.mp differs (payloads_of_forall₂ writes)

end Crowd
end BatteryLink
