import BatteryLink.Proofs.Command
import BatteryLink.Proofs.Poll
/-!
The turns of routines: all that a turn can come to, whatever the session is in and whatever the
device answers.
-/
namespace BatteryLink

namespace Session

def settled (s : Session) : Routine.Purpose → Session
  | .followUp id toggle => { s with pending := s.pending.erase id }.offered toggle
  | _ => s

/-- The session after the first probe: it polls from now on, unless it has been disposed of. -/
def polling (s : Session) : Session :=
  if s.disposed then s
  else { s.entrusted (.every (.whole s.config.refreshInterval)) fun _ => .poll with
    pollJob := some s.nextJob }

def locked (s : Session) (self : TaskId) : Session :=
  { s with lock := { s.lock with holder := some self } }

def queued (s : Session) (self : TaskId) : Session :=
  { s with lock := { s.lock with queue := s.lock.queue ++ [self] } }

/-- The jobs that the end of the session cancels, in the order of their numbers. -/
def upkeep (s : Session) : List JobId := (s.pollJob.toList ++ s.pending).mergeSort (· ≤ ·)

def closed (s : Session) : Session :=
  { s with
    disposed := true
    pollJob := none
    pending := []
    outbox := s.outbox ++ s.upkeep.map .cancelled }

end Session

namespace Routine

/-- Why a task takes a turn. -/
inductive Cause where
  | started (o : Operation)
  | answered (now : Moment) (k : Asked) (a : Answered)
  | rested (w : Order.Writing)
  | granted (k : Order.Kind)

def Cause.turn (self : TaskId) : Cause → Turn Next
  | started o => perform self o
  | answered now k a => Routine.answered now k a
  | rested w => Routine.rested w
  | granted k => Routine.granted k

/-- The troubles that the device hands to a turn and no routine keeps back. -/
def Cause.Cut : Cause → Trouble → Prop
  | answered _ _ a, e => a = .error e ∧ e.OfUser
  | _, _ => False

def Purpose.outcome (complete : Bool) : Purpose → Outcome
  | answer => .flag complete
  | _ => .nothing

/-- What a turn of a poll comes to: it asks with `n` exchanges left, or it ends. -/
inductive Polled (purpose : Purpose) (n : Nat) (cut : Trouble → Prop) (s : Session) :
    Except Trouble Next × Session → Prop
  | asked {x : Exchange} {stage : Poll.Stage} {u : Session} : s.disposed = false → stage.left = n →
      Poll.Path s u → Polled purpose n cut s (.ok (.ask x (.poll stage purpose)), u)
  | ended (complete : Bool) {u : Session} : Poll.Path s u →
      Polled purpose n cut s (.ok (.done (purpose.outcome complete)), u.settled purpose)
  | failed {e : Trouble} {u : Session} : e.OfHost s.host ∨ cut e → Poll.Path s u →
      Polled purpose n cut s (.error e, u.settled purpose)

theorem exec_settle (id : JobId) (toggle : Option String) (s : Session) :
    ∃ r, (settle id toggle).exec s = (r, s.settled (.followUp id toggle)) ∧
      (∀ e, r = .error e → e.OfHost s.host) :=
  Order.exec_resetToggle toggle { s with pending := s.pending.erase id }

theorem conclude_polled (purpose : Purpose) {t : Turn Poll.Next} {n : Nat} {cut : Trouble → Prop}
    {s : Session} (h : t.Walks s.disposed s.host fun
      | .ok next => Poll.GoesOn s.disposed n next
      | .error e => e.OfHost s.host ∨ cut e) :
    Polled purpose n cut s ((conclude purpose t).exec s) := by
  obtain ⟨path, goes⟩ := h s rfl rfl
  unfold conclude
  rcases ht : t.exec s with ⟨e | next, u⟩ <;> rw [ht] at path goes
  · cases purpose with
    | answer =>
      rw [Turn.exec_bind, ht]
      exact .failed goes path
    | refresh =>
      rw [Turn.exec_bind, ht]
      exact .failed goes path
    | followUp id toggle =>
      obtain ⟨r, hr, he⟩ := exec_settle id toggle u
      rw [Turn.exec_bind, Turn.exec_tryCatch, ht]
      dsimp only
      rw [Turn.exec_bind, hr]
      cases r with
      | ok => exact .failed goes path
      | error e => exact .failed (.inl (path.spares.host ▸ he e rfl)) path
  · cases next with
    | ask x stage =>
      obtain ⟨live, left⟩ := goes
      cases purpose with
      | answer =>
        rw [Turn.exec_bind, ht]
        exact .asked live left path
      | refresh =>
        rw [Turn.exec_bind, ht]
        exact .asked live left path
      | followUp id toggle =>
        rw [Turn.exec_bind, Turn.exec_tryCatch, ht]
        exact .asked live left path
    | ended complete =>
      cases purpose with
      | answer =>
        rw [Turn.exec_bind, ht]
        exact .ended complete path
      | refresh =>
        rw [Turn.exec_bind, ht]
        exact .ended complete path
      | followUp id toggle =>
        obtain ⟨r, hr, he⟩ := exec_settle id toggle u
        rw [Turn.exec_bind, Turn.exec_tryCatch, ht]
        dsimp only
        rw [Turn.exec_bind, hr]
        cases r with
        | ok => exact .ended complete path
        | error e => exact .failed (.inl (path.spares.host ▸ he e rfl)) path

/-- What a routine makes of what its order does next. -/
def ofOrderResult : Except Trouble Order.Next × Session → Except Trouble Next × Session
  | (.ok (.ask x stage), u) => (.ok (.ask x (.order stage)), u)
  | (.ok (.pause w), u) => (.ok (.pause w), u)
  | (.ok (.ended t), u) => (.ok (.done (.tally t)), u.released)
  | (.error e, u) => (.error e, u.released)

theorem exec_ofOrder (t : Turn Order.Next) (s : Session) :
    (ofOrder t).exec s = ofOrderResult (t.exec s) := by
  unfold ofOrder
  rw [Turn.exec_bind, Order.exec_holding]
  rcases t.exec s with ⟨e | next, u⟩
  · rfl
  · cases next <;> rfl

/-- What a turn of an order comes to that has the lock. It does something only if `runs` holds. -/
inductive Held (toggle : Option String) (n : Nat) (asks runs : Prop) (cut : Trouble → Prop)
    (s : Session) : Except Trouble Next × Session → Prop
  | goes {p : Except Trouble Order.Next × Session} : runs →
      Order.Effect toggle n asks s p → Held toggle n asks runs cut s (ofOrderResult p)
  | dropped : s.disposed = true →
      Held toggle n asks runs cut s (.ok (.done (.tally ⟨0, 0⟩)), s.released)
  | interrupted {e : Trouble} : cut e → Held toggle n asks runs cut s (.error e, s.released)

theorem begin_held (k : Order.Kind) (cut : Trouble → Prop) (s : Session) :
    Held k.toggle k.left True (s.disposed = false) cut s ((ofOrder (Order.begin k)).exec s) := by
  rw [exec_ofOrder]
  cases hs : s.disposed with
  | true =>
    rw [Order.begin_disposed k hs]
    exact .dropped hs
  | false => exact .goes rfl (Order.begin_effect k hs)

theorem proceed_held (stage : Order.Stage) (a : Answered) (s : Session) :
    Held stage.toggle stage.left False True (fun e => a = .error e ∧ e.OfUser) s
      ((ofOrder (Order.proceed stage a)).exec s) := by
  rw [exec_ofOrder]
  rcases Order.proceed_effect stage a s with ⟨e, ha, he, h⟩ | h
  · rw [h]
    exact .interrupted ⟨ha, he⟩
  · exact .goes trivial h

theorem rested_held (w : Order.Writing) (cut : Trouble → Prop) (s : Session) :
    Held (some Order.manualToggle) w.left (w.Sound s) True cut s ((rested w).exec s) := by
  unfold rested
  rw [exec_ofOrder]
  exact .goes trivial (Order.writeSlot_effect w s (Nat.le_refl _) id)

/-- What a turn comes to that wants the lock for an order. -/
inductive Ordered (self : TaskId) (k : Order.Kind) (s : Session) :
    Except Trouble Next × Session → Prop
  | queued {holder : TaskId} : s.lock.holder = some holder →
      Ordered self k s (.ok (.queue k), s.queued self)
  | held {p : Except Trouble Next × Session} : s.lock.holder = none →
      Held k.toggle k.left True (s.disposed = false) (fun _ => False) (s.locked self) p →
      Ordered self k s p

theorem exec_order (self : TaskId) (k : Order.Kind) (s : Session) :
    (order self k).exec s = match s.lock.holder with
      | none => (ofOrder (Order.begin k)).exec (s.locked self)
      | some _ => (.ok (.queue k), s.queued self) := by
  unfold order
  rw [Turn.exec_bind, Order.exec_acquire]
  cases s.lock.holder <;> rfl

theorem order_ordered (self : TaskId) (k : Order.Kind) (s : Session) :
    Ordered self k s ((order self k).exec s) := by
  rw [exec_order]
  cases h : s.lock.holder with
  | none => exact .held h (begin_held k _ (s.locked self))
  | some holder => exact .queued h

end Routine

/-- The toggle of the orders that a channel gives. -/
def Channel.toggle : Channel → Option String
  | .control .passiveActivate => some Order.passiveToggle
  | .control .manualActivate => some Order.manualToggle
  | _ => none

/-- The toggle of the orders that an operation gives. -/
def Operation.toggle : Operation → Option String
  | .command channel _ =>
    match Channel.parse channel with
    | .ok (some c) => c.toggle
    | _ => none
  | .activatePassive _ _ => some Order.passiveToggle
  | .activateManual _ => some Order.manualToggle
  | _ => none

/-- Operations that change something at the device or in the settings. -/
def Operation.isOrder : Operation → Bool
  | .command _ _ | .selectMode _ | .activatePassive _ _ | .activateManual _ => true
  | _ => false

/-- How many turns the orders that an operation gives have before them at most. -/
def Operation.left : Operation → Nat
  | .activateManual slots => max 1 (2 * slots.length)
  | _ => 8

theorem Operation.toggle_command {channel : String} {c : Channel} (v : Value)
    (h : Channel.parse channel = .ok (some c)) : (command channel v).toggle = c.toggle := by
  simp only [toggle, h]

namespace Routine

/-- What the first turn of an order comes to. -/
inductive Begun (self : TaskId) (o : Operation) (s : Session) : Except Trouble Next × Session → Prop
  /-- An order of which nothing comes, or that fails. -/
  | idle {r : Except Trouble Next} : r = .ok (.done .nothing) ∨ (∃ f, r = .error (.fault f)) →
      Begun self o s (r, s)
  | wrote {t : Settings} : (s.settings.passive.InRange → t.passive.InRange) →
      Begun self o s (.ok (.done .nothing), { s with settings := t })
  | ordered {k : Order.Kind} {p : Except Trouble Next × Session} :
      k.toggle = o.toggle → k.left ≤ o.left → Ordered self k s p → Begun self o s p
  /-- An order that makes no good request. -/
  | turnedDown {toggle : Option String} :
      Begun self o s (.ok (.done (.tally ⟨0, 0⟩)), { s.offered toggle with lastResult := some ⟨0, 0⟩ })
  | unheard {toggle : Option String} {e : Trouble} : e.OfHost s.host →
      Begun self o s (.error e, s.offered toggle)

/-- What the first turn of any operation but a poll comes to. -/
inductive Started (self : TaskId) (s : Session) :
    Operation → Except Trouble Next × Session → Prop
  | order {o : Operation} {p : Except Trouble Next × Session} : o.isOrder = true →
      Begun self o s p → Started self s o p
  | probed {x : Exchange} : Started self s .probe (.ok (.ask x .probe), s)
  | greeted {x : Exchange} : Started self s .connect (.ok (.ask x .firstProbe), s.told .unknown none)
  | ungreeted {e : Trouble} : Started self s .connect (.error e, s.told .unknown none)
  | closed :
      Started self s .dispose (.ok (if s.ownsRunner then .stopRunner else .done .nothing), s.closed)

/-- Turns of polls, with what the poll is for and the exchanges that it has left after the turn. -/
inductive Cause.Polls : Cause → Purpose → Nat → Prop
  | poll : Polls (.started .poll) .answer 7
  | refresh {channel : String} {v : Value} : isRefresh v = true →
      Polls (.started (.command channel v)) .refresh 7
  | followUp (id : JobId) (toggle : Option String) :
      Polls (.started (.followUp id toggle)) (.followUp id toggle) 7
  | answered (now : Moment) (stage : Poll.Stage) (purpose : Purpose) (a : Answered) :
      Polls (.answered now (.poll stage purpose) a) purpose (stage.left - 1)

/-- Turns of orders that have the lock, with their toggles, the turns that they have before them at
most, this one included, when they ask the device and when they do anything. -/
inductive Cause.Holds (s : Session) : Cause → Option String → Nat → Prop → Prop → Prop
  | answered (now : Moment) (stage : Order.Stage) (a : Answered) :
      Holds s (.answered now (.order stage) a) stage.toggle stage.left False True
  | rested (w : Order.Writing) :
      Holds s (.rested w) (some Order.manualToggle) w.left (w.Sound s) True
  | granted (k : Order.Kind) : Holds s (.granted k) k.toggle k.left True (s.disposed = false)

/-- Turns that take the answer to a probe. -/
inductive Cause.Probes : Cause → Prop
  | first (now : Moment) (a : Answered) : Probes (.answered now .firstProbe a)
  | later (now : Moment) (a : Answered) : Probes (.answered now .probe a)

/-- All that a turn can come to. -/
inductive Effect (self : TaskId) (s : Session) : Cause → Except Trouble Next × Session → Prop
  | started {o : Operation} {p : Except Trouble Next × Session} :
      Started self s o p → Effect self s (.started o) p
  | polled {c : Cause} {purpose : Purpose} {n : Nat} {p : Except Trouble Next × Session} :
      c.Polls purpose n → Polled purpose n c.Cut s p → Effect self s c p
  | held {c : Cause} {toggle : Option String} {n : Nat} {asks runs : Prop}
      {p : Except Trouble Next × Session} :
      c.Holds s toggle n asks runs → Held toggle n asks runs c.Cut s p → Effect self s c p
  | probed {c : Cause} {r : Except Trouble Outcome} {u : Session} : c.Probes → Poll.Path s u →
      Effect self s c (r.map .done, u)
  | polling {now : Moment} {a : Answered} {u : Session} : Poll.Path s u →
      Effect self s (.answered now .firstProbe a) (.ok (.done .nothing), u.polling)

theorem begin_polled (purpose : Purpose) (cut : Trouble → Prop) (s : Session) :
    Polled purpose 7 cut s ((conclude purpose Poll.begin).exec s) :=
  conclude_polled purpose (Poll.begin_walks.mono (fun _ h => h) fun _ h => h.elim)

theorem resume_polled (now : Moment) (stage : Poll.Stage) (purpose : Purpose) (a : Answered)
    (s : Session) : Polled purpose (stage.left - 1) (fun e => a = .error e ∧ e.OfUser) s
      ((conclude purpose (Poll.resume now stage a)).exec s) :=
  conclude_polled purpose (Poll.resume_walks now stage a)

theorem single_begun (self : TaskId) (payload : String) (toggle : Option String) {o : Operation}
    (s : Session) (ho : o.toggle = toggle) (hn : 8 ≤ o.left) :
    Begun self o s ((order self (.single payload toggle)).exec s) := by
  refine .ordered (k := .single payload toggle) ho.symm ?_ (order_ordered self _ s)
  simp only [Order.Kind.left]
  omega

theorem selectMode_begun (self : TaskId) (mode : Value) {o : Operation} (s : Session)
    (ho : o.toggle = none) (hn : 8 ≤ o.left) : Begun self o s ((selectMode self mode).exec s) := by
  unfold selectMode
  split
  · next doing _ => exact .idle (.inr ⟨.tooDeep doing, rfl⟩)
  · have refused : Begun self o s (.ok (.done (.tally ⟨0, 0⟩)),
        { s.offered none with lastResult := some ⟨0, 0⟩ }) := .turnedDown
    exact refused
  · exact single_begun self _ none s ho hn

theorem activatePassive_begun (self : TaskId) (power countdown : Value) {o : Operation}
    (s : Session) (ho : o.toggle = some Order.passiveToggle) (hn : 8 ≤ o.left) :
    Begun self o s ((activatePassive self power countdown).exec s) := by
  unfold activatePassive
  split
  · next f _ => exact .idle (.inr ⟨f, rfl⟩)
  · obtain ⟨r, hr, he⟩ := Order.exec_resetToggle (some Order.passiveToggle) s
    rw [Turn.exec_bind, hr]
    cases r with
    | ok => exact .turnedDown
    | error e => exact .unheard (he e rfl)
  · exact single_begun self _ _ s ho hn

theorem reaction_begun {self : TaskId} {channel : String} {c : Channel} {v w : Value} {s : Session}
    {p : Except Trouble Next × Session} (hc : Channel.parse channel = .ok (some c))
    (h : Reaction self s c v p) : Begun self (.command channel w) s p := by
  have toggle := Operation.toggle_command w hc
  cases h with
  | refused _ => exact .idle (.inl rfl)
  | beyond _ => exact .idle (.inr ⟨_, rfl⟩)
  | wrote _ ht => exact .wrote ht
  | off _ => exact .idle (.inl rfl)
  | mode h _ _ =>
    rw [h] at toggle
    exact selectMode_begun self _ s toggle (Nat.le_refl _)
  | passive h _ _ =>
    rw [h] at toggle
    exact activatePassive_begun self _ _ s toggle (Nat.le_refl _)
  | manual h _ _ =>
    rw [h] at toggle
    exact .ordered (k := .manual .settings) toggle.symm (Nat.le_refl 8) (order_ordered self _ s)

theorem connect_started (self : TaskId) (s : Session) :
    Started self s .connect ((perform self .connect).exec s) := by
  obtain ⟨r, hr, -⟩ := Turn.exec_report .unknown none s
  change Started self s .connect (firstProbe.exec s)
  unfold firstProbe
  rw [Turn.exec_bind, hr]
  cases r with
  | ok => exact .greeted
  | error e => exact .ungreeted

theorem exec_dispose (s : Session) :
    dispose.exec s = (.ok (if s.ownsRunner then .stopRunner else .done .nothing), s.closed) := by
  cases h : s.ownsRunner <;> simp [dispose, Turn.cancelJobs, Session.closed, Session.upkeep, h]

theorem perform_effect (self : TaskId) (o : Operation) (s : Session) :
    Effect self s (.started o) ((perform self o).exec s) := by
  cases o with
  | connect => exact .started (connect_started self s)
  | poll => exact .polled .poll (begin_polled .answer _ s)
  | probe => exact .started .probed
  | command channel v =>
    change Effect self s _ ((command self channel v).exec s)
    rw [exec_command]
    split
    · exact .started (.order rfl (.idle (.inl rfl)))
    · split
      · next h => exact .polled (.refresh h) (begin_polled .refresh _ s)
      · split
        · next f _ => exact .started (.order rfl (.idle (.inr ⟨f, rfl⟩)))
        · exact .started (.order rfl (.idle (.inl rfl)))
        · next c hc => exact .started (.order rfl (reaction_begun hc (write_reaction self s c v)))
  | selectMode mode =>
    exact .started (.order rfl (selectMode_begun self mode s rfl (Nat.le_refl _)))
  | activatePassive power countdown =>
    exact .started (.order rfl (activatePassive_begun self power countdown s rfl (Nat.le_refl _)))
  | activateManual slots =>
    exact .started (.order rfl
      (.ordered rfl (Nat.le_refl _) (order_ordered self (.manual (.given slots)) s)))
  | followUp id toggle => exact .polled (.followUp id toggle) (begin_polled (.followUp id toggle) _ s)
  | dispose =>
    change Effect self s _ (dispose.exec s)
    rw [exec_dispose]
    exact .started .closed

theorem exec_startPolling (s : Session) : startPolling.exec s = (.ok (.done .nothing), s.polling) := by
  unfold startPolling Session.polling
  rw [Turn.exec_bind, Turn.exec_get]
  dsimp only
  split <;> rfl

/-- Polling starts in the end, unless the first probe ran into trouble. -/
theorem startPolling_effect {α : Type} (self : TaskId) (now : Moment) (a : Answered) {t : Turn α}
    {s : Session} (ht : t.Walks s.disposed s.host fun _ => True) :
    Effect self s (.answered now .firstProbe a) ((t >>= fun _ => startPolling).exec s) := by
  have path := (ht s rfl rfl).1
  rw [Turn.exec_bind]
  rcases h : t.exec s with ⟨e | x, u⟩ <;> rw [h] at path
  · exact .probed (r := .error e) (.first now a) path
  · dsimp only
    rw [exec_startPolling]
    exact .polling path

theorem checked_walks (d : Bool) (host : Host) (a : Answered) :
    (Turn.ofExcept a >>= Poll.probed).Walks d host fun _ => True :=
  (Poll.ofExcept_walks a).bind
    (fun reply _ => (Poll.probed_walks reply).mono (fun _ _ => trivial) fun _ _ => trivial)
    fun _ _ => trivial

theorem firstAnswer_effect (self : TaskId) (now : Moment) (a : Answered) (s : Session) :
    Effect self s (.answered now .firstProbe a) ((firstAnswer a).exec s) := by
  unfold firstAnswer
  split
  · exact startPolling_effect self now _
      ((Poll.record_walks false).mono (fun _ _ => trivial) fun _ _ => trivial)
  · rw [← bind_assoc]
    exact startPolling_effect self now a (checked_walks s.disposed s.host a)

theorem probeAnswer_effect (self : TaskId) (now : Moment) (a : Answered) (s : Session) :
    Effect self s (.answered now .probe a) ((probeAnswer a).exec s) := by
  have path := (checked_walks s.disposed s.host a s rfl rfl).1
  unfold probeAnswer
  rw [← bind_assoc, Turn.exec_bind]
  rcases h : (Turn.ofExcept a >>= Poll.probed).exec s with ⟨e | b, u⟩ <;> rw [h] at path
  · exact .probed (r := .error e) (.later now a) path
  · exact .probed (r := .ok (.flag b)) (.later now a) path

theorem turn_effect (self : TaskId) (c : Cause) (s : Session) :
    Effect self s c ((c.turn self).exec s) := by
  cases c with
  | started o => exact perform_effect self o s
  | answered now k a =>
    cases k with
    | firstProbe => exact firstAnswer_effect self now a s
    | probe => exact probeAnswer_effect self now a s
    | poll stage purpose =>
      exact .polled (.answered now stage purpose a) (resume_polled now stage purpose a s)
    | order stage => exact .held (.answered now stage a) (proceed_held stage a s)
  | rested w => exact .held (.rested w) (rested_held w _ s)
  | granted k => exact .held (.granted k) (begin_held k _ s)

end Routine
end BatteryLink
