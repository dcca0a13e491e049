import BatteryLink.Exchange
import BatteryLink.Proofs.Binary64
/-!
One exchange in any surroundings. Whatever fails and however it fails, the socket is closed, nothing
but the payload was sent, and what is told in the end is what the first step that was not granted, or
what arrived in time, stands for.
-/
namespace BatteryLink

/-- The resolver finds the host, and this address comes first. -/
def Surroundings.Found (s : Surroundings) (address : String) : Prop :=
  ∃ more, s.addresses = .ok (address :: more)

/-- The resolver says nothing against the host, but knows no address. -/
def Surroundings.Homeless (s : Surroundings) : Prop :=
  s.addresses = .ok [] ∨ s.addresses = .error .granted

/-- Only one address comes first. -/
theorem Surroundings.Found.unique {s : Surroundings} {a b : String} (ha : s.Found a)
    (hb : s.Found b) : a = b := by
  obtain ⟨_, ha⟩ := ha
  obtain ⟨_, hb⟩ := hb
  rw [ha] at hb
  cases hb
  rfl

theorem Surroundings.Homeless.not_found {s : Surroundings} {address : String} (h : s.Homeless) :
    ¬ s.Found address := by
  rintro ⟨more, found⟩
  rcases h with h | h <;> (rw [h] at found; cases found)

/-- Every step up to the sending of the request is granted. -/
structure Surroundings.Sends (s : Surroundings) (address : String) : Prop where
  found : s.Found address
  socket : s.socket = .granted
  bind : s.bind = .granted
  send : s.send = .granted

namespace Exchange

/-- The least patience, in milliseconds, that is rounded up to more seconds than a double can tell. -/
def tooLong : Nat := (2 ^ 54 - 1) * (2 ^ 970 * 1000)

/-- The host is found, but so long a patience cannot be told in seconds. -/
def Lost (x : Exchange) (s : Surroundings) : Prop :=
  (tooLong : Int) ≤ x.timeout ∧ ∃ address, s.Found address

/-- A step that is not granted: a refusal is told in the words of the step, a breakage as it is. -/
inductive Fails (e : String → TransportError) : Permit → Trouble → Prop where
  | refused (reason : String) : Fails e (.refused reason) (.refused (e reason))
  | broken (f : Fault) : Fails e (.broken f) (.fault f)

/-- What the system says to the steps before the wait, and the words of each step. A step is taken
only if all before it were granted. -/
inductive Tries (x : Exchange) (s : Surroundings) : (String → TransportError) → Permit → Prop where
  | resolving {p : Permit} : s.addresses = .error p → Tries x s (.unresolved x.host) p
  | opening {address : String} : s.Found address → Tries x s .noSocket s.socket
  | binding {address : String} : s.Found address → s.socket = .granted →
      Tries x s (.notSent x.host x.port) s.bind
  | sending {address : String} : s.Found address → s.socket = .granted → s.bind = .granted →
      Tries x s (.notSent x.host x.port) s.send

/-- The request is sent, and this arrives in time. -/
def Hears (x : Exchange) (s : Surroundings) (a : Arrival) : Prop :=
  (∃ address, s.Sends address) ∧ ∃ delay : Nat, s.arrival = some (delay, a) ∧ delay < max 1 x.timeout

/-- The request is sent, and nothing arrives in time. -/
def HearsNothing (x : Exchange) (s : Surroundings) : Prop :=
  (∃ address, s.Sends address) ∧
    ∀ (delay : Nat) (a : Arrival), s.arrival = some (delay, a) → max 1 x.timeout ≤ delay

/-- What an exchange is to tell whose request cannot be sent. -/
inductive Halts (x : Exchange) (s : Surroundings) : Trouble → Prop where
  | noAddress : s.Homeless → Halts x s (.refused (.noAddress x.host))
  | failed {e : String → TransportError} {p : Permit} {t : Trouble} :
      x.Tries s e p → Fails e p t → Halts x s t

/-- What an exchange is to tell in the end. -/
inductive Tells (x : Exchange) (s : Surroundings) : Answered → Prop where
  | reply {octets : Octets} : x.Hears s (.reply octets) → Tells x s (.ok (some (octets.take 4096)))
  | silence : x.HearsNothing s → Tells x s (.ok none)
  | timedOut : x.Hears s .timedOut → Tells x s (.ok none)
  | halted {t : Trouble} : x.Halts s t → Tells x s (.error t)
  | notReceived {reason : String} : x.Hears s (.refused reason) →
      Tells x s (.error (.refused (.notReceived x.host x.port reason)))
  | broken {f : Fault} : x.Hears s (.broken f) → Tells x s (.error (.fault f))

theorem patience_eq (x : Exchange) : (x.patience : Int) = max 1 x.timeout := by
  unfold patience
  omega

theorem isEndless_iff (x : Exchange) : x.isEndless = true ↔ (tooLong : Int) ≤ x.timeout := by
  have rounds : Binary64.ofRatio false x.patience 1000 = .infinite false ↔ tooLong ≤ x.patience :=
    Binary64.ofRatio_infinite_iff false (by decide)
  have several : 1 < tooLong := by decide +kernel
  have long : tooLong ≤ x.patience ↔ (tooLong : Int) ≤ x.timeout := by
    have patience := x.patience_eq
    generalize tooLong = limit at several ⊢
    omega
  rw [← long, ← rounds]
  unfold isEndless
  obtain ⟨m, e, finite⟩ | infinite := Binary64.ofRatio_cases false x.patience 1000
  · rw [finite]
    exact iff_of_false nofun nofun
  · rw [infinite]
    exact iff_of_true rfl rfl

/-- A step stops the exchange exactly if it is not granted. -/
theorem trouble_eq_some {e : String → TransportError} {p : Permit} {t : Trouble} :
    trouble e p = some t ↔ Fails e p t := by
  constructor
  · intro h
    cases p with
    | granted => cases h
    | refused reason =>
      cases h
      exact .refused reason
    | broken f =>
      cases h
      exact .broken f
  · rintro (reason | f)
    · rfl
    · rfl

theorem trouble_eq_none {e : String → TransportError} {p : Permit} :
    trouble e p = none ↔ p = .granted := by
  cases p <;> simp [trouble]

/-- How the wait ends. -/
inductive Awaits (x : Exchange) (s : Surroundings) : Nat × Answered → Prop where
  | heard {delay : Nat} {a : Arrival} : s.arrival = some (delay, a) → (delay : Int) < max 1 x.timeout →
      Awaits x s (delay, x.reception a)
  | nothing : (∀ (delay : Nat) (a : Arrival), s.arrival = some (delay, a) → max 1 x.timeout ≤ delay) →
      Awaits x s (x.patience, .ok none)

theorem awaits (x : Exchange) (s : Surroundings) : x.Awaits s (x.await s) := by
  have patience := x.patience_eq
  unfold await inTime?
  rcases ha : s.arrival with - | ⟨delay, a⟩
  · exact .nothing (by simp [ha])
  · rw [Option.bind_some]
    dsimp only
    split_ifs with early
    · exact .heard ha (by omega)
    · refine .nothing fun delay' a' h => ?_
      rw [ha] at h
      cases h
      omega

/-- What is told if no socket is opened. -/
def Stops (x : Exchange) (s : Surroundings) (t : Trouble) : Prop :=
  x.Lost s ∧ t = .fault .tooLargeQuotient ∨ ¬ x.Lost s ∧ x.Halts s t

/-- What an exchange does up to the wait. -/
inductive Dispatches (x : Exchange) (s : Surroundings) :
    List NetworkAct × Except Trouble Unit → Prop where
  | unopened {t : Trouble} : x.Stops s t → Dispatches x s ([.resolve x.host x.port], .error t)
  | unsent {t : Trouble} : ¬ x.Lost s → x.Halts s t →
      Dispatches x s ([.resolve x.host x.port, .socket, .bind anyAddress x.localPort, .close], .error t)
  | sent {address : String} : ¬ x.Lost s → s.Sends address →
      Dispatches x s ([.resolve x.host x.port, .socket, .bind anyAddress x.localPort,
        .send address x.port x.localPort x.payload], .ok ())

theorem not_lost_of_unknown {x : Exchange} {s : Surroundings}
    (h : ∀ address more, s.addresses ≠ .ok (address :: more)) : ¬ x.Lost s :=
  fun ⟨_, address, more, found⟩ => h address more found

theorem dispatches (x : Exchange) (s : Surroundings) : x.Dispatches s (x.dispatch s) := by
  unfold dispatch
  dsimp only
  split
  · next p hp =>
    refine .unopened (.inr ⟨not_lost_of_unknown (by simp [hp]), ?_⟩)
    cases p with
    | granted => exact .noAddress (.inr hp)
    | refused reason => exact .failed (.resolving hp) (.refused reason)
    | broken f => exact .failed (.resolving hp) (.broken f)
  · next hs =>
    exact .unopened (.inr ⟨not_lost_of_unknown (by simp [hs]), .noAddress (.inl hs)⟩)
  · next address more hs =>
    have found : s.Found address := ⟨more, hs⟩
    split
    · next endless => exact .unopened (.inl ⟨⟨x.isEndless_iff.mp endless, address, found⟩, rfl⟩)
    · next brief =>
      have kept : ¬ x.Lost s := fun lost => brief (x.isEndless_iff.mpr lost.1)
      unfold dispatchTo
      split
      · next h =>
        exact .unopened (.inr ⟨kept, .failed (.opening found) (trouble_eq_some.mp h)⟩)
      · next opened =>
        have opened := trouble_eq_none.mp opened
        dsimp only
        split
        · next h => exact .unsent kept (.failed (.binding found opened) (trouble_eq_some.mp h))
        · next bound =>
          have bound := trouble_eq_none.mp bound
          split
          · next h => exact .unsent kept (.failed (.sending found opened bound) (trouble_eq_some.mp h))
          · next sent => exact .sent kept ⟨found, opened, bound, trouble_eq_none.mp sent⟩

/-- The courses that an exchange can take, each with all its acts. -/
inductive Course (x : Exchange) (s : Surroundings) : Trace → Prop where
  | unopened {t : Trouble} : x.Stops s t → Course x s ⟨[(0, .resolve x.host x.port)], 0, .error t⟩
  | unsent {t : Trouble} : ¬ x.Lost s → x.Halts s t →
      Course x s ⟨[(0, .resolve x.host x.port), (0, .socket), (0, .bind anyAddress x.localPort),
        (0, .close)], 0, .error t⟩
  | sent {address : String} {time : Nat} {a : Answered} : ¬ x.Lost s → s.Sends address →
      x.Awaits s (time, a) →
      Course x s ⟨[(0, .resolve x.host x.port), (0, .socket), (0, .bind anyAddress x.localPort),
        (0, .send address x.port x.localPort x.payload), (0, .receive bufferSize), (time, .close)],
        time, a⟩

theorem course (x : Exchange) (s : Surroundings) : x.Course s (x.run s) := by
  have start := x.dispatches s
  unfold run
  generalize x.dispatch s = d at start
  cases start with
  | unopened stops => exact .unopened stops
  | unsent kept halts => exact .unsent kept halts
  | sent kept sends => exact .sent kept sends (x.awaits s)

theorem Fails.not_granted {e : String → TransportError} {t : Trouble} : ¬ Fails e .granted t := nofun

theorem Halts.not_sends {x : Exchange} {s : Surroundings} {t : Trouble} {address : String}
    (h : x.Halts s t) : ¬ s.Sends address := by
  rintro ⟨found, opened, bound, sent⟩
  cases h with
  | noAddress homeless => exact homeless.not_found found
  | failed tries fails =>
    cases tries with
    | resolving hp =>
      obtain ⟨more, hs⟩ := found
      rw [hp] at hs
      cases hs
    | opening _ => exact Fails.not_granted (opened ▸ fails)
    | binding _ _ => exact Fails.not_granted (bound ▸ fails)
    | sending _ _ _ => exact Fails.not_granted (sent ▸ fails)

/-- What is heard is told. -/
theorem tells_of_awaits {x : Exchange} {s : Surroundings} {address : String} {time : Nat} {a : Answered}
    (sends : s.Sends address) (h : x.Awaits s (time, a)) : x.Tells s a := by
  cases h with
  | @heard _ arrival ha early =>
    have hears : x.Hears s arrival := ⟨⟨address, sends⟩, _, ha, early⟩
    cases arrival with
    | reply octets => exact .reply hears
    | timedOut => exact .timedOut hears
    | refused reason => exact .notReceived hears
    | broken f => exact .broken hears
  | nothing late => exact .silence ⟨⟨address, sends⟩, late⟩

/-- Where the host is found and the patience can be told, the socket comes next. -/
theorem dispatch_of_found {x : Exchange} {s : Surroundings} {address : String} (kept : ¬ x.Lost s)
    (found : s.Found address) : x.dispatch s =
      (.resolve x.host x.port :: (x.dispatchTo address s).1, (x.dispatchTo address s).2) := by
  have brief : x.isEndless = false :=
    Bool.eq_false_iff.mpr fun endless => kept ⟨x.isEndless_iff.mp endless, address, found⟩
  obtain ⟨more, hs⟩ := found
  simp [dispatch, hs, brief]

/-- The first step that is not granted decides what is told. -/
theorem answered_of_tries {x : Exchange} {s : Surroundings} {e : String → TransportError}
    {p : Permit} {t : Trouble} (kept : ¬ x.Lost s) (tries : x.Tries s e p) (fails : Fails e p t) :
    (x.run s).answered = .error t := by
  have stopped := trouble_eq_some.mpr fails
  cases tries with
  | resolving hp => simp [run, dispatch, hp, stopped]
  | opening found => simp [run, dispatch_of_found kept found, dispatchTo, stopped]
  | binding found opened =>
    simp [run, dispatch_of_found kept found, dispatchTo, trouble_eq_none.mpr opened, stopped]
  | sending found opened bound =>
    simp [run, dispatch_of_found kept found, dispatchTo, trouble_eq_none.mpr opened,
      trouble_eq_none.mpr bound, stopped]

theorem answered_of_sends {x : Exchange} {s : Surroundings} {address : String} (kept : ¬ x.Lost s)
    (sends : s.Sends address) : (x.run s).answered = (x.await s).2 := by
  simp [run, dispatch_of_found kept sends.found, dispatchTo, trouble_eq_none.mpr sends.socket,
    trouble_eq_none.mpr sends.bind, trouble_eq_none.mpr sends.send]

theorem answered_of_hears {x : Exchange} {s : Surroundings} {a : Arrival} (kept : ¬ x.Lost s)
    (hears : x.Hears s a) : (x.run s).answered = x.reception a := by
  obtain ⟨⟨address, sends⟩, delay, arrives, early⟩ := hears
  rw [answered_of_sends kept sends]
  have awaited := x.awaits s
  generalize x.await s = w at awaited ⊢
  cases awaited with
  | heard ha _ =>
    rw [arrives] at ha
    cases ha
    rfl
  | nothing late => exact absurd (late delay a arrives) (by omega)

theorem answered_of_silence {x : Exchange} {s : Surroundings} (kept : ¬ x.Lost s)
    (silence : x.HearsNothing s) : (x.run s).answered = .ok none := by
  obtain ⟨⟨address, sends⟩, late⟩ := silence
  rw [answered_of_sends kept sends]
  have awaited := x.awaits s
  generalize x.await s = w at awaited ⊢
  cases awaited with
  | heard ha early => exact absurd (late _ _ ha) (by omega)
  | nothing _ => rfl

theorem answered_of_homeless {x : Exchange} {s : Surroundings} (h : s.Homeless) :
    (x.run s).answered = .error (.refused (.noAddress x.host)) := by
  rcases h with h | h <;> simp [run, dispatch, h, trouble]

theorem answered_of_tells {x : Exchange} {s : Surroundings} {a : Answered} (kept : ¬ x.Lost s)
    (h : x.Tells s a) : (x.run s).answered = a := by
  cases h with
  | reply hears => exact answered_of_hears kept hears
  | silence nothing => exact answered_of_silence kept nothing
  | timedOut hears => exact answered_of_hears kept hears
  | halted halts =>
    cases halts with
    | noAddress homeless => exact answered_of_homeless homeless
    | failed tries fails => exact answered_of_tries kept tries fails
  | notReceived hears => exact answered_of_hears kept hears
  | broken hears => exact answered_of_hears kept hears

theorem run_of_lost {x : Exchange} {s : Surroundings} (h : x.Lost s) :
    x.run s = ⟨[(0, .resolve x.host x.port)], 0, .error (.fault .tooLargeQuotient)⟩ := by
  obtain ⟨long, address, more, hs⟩ := h
  simp [run, dispatch, hs, x.isEndless_iff.mpr long]

/-- An exchange tells exactly one thing: what there is to tell, or that its patience is too long. -/
theorem answered_iff (x : Exchange) (s : Surroundings) (a : Answered) : (x.run s).answered = a ↔
    x.Lost s ∧ a = .error (.fault .tooLargeQuotient) ∨ ¬ x.Lost s ∧ x.Tells s a := by
  constructor
  · rintro rfl
    have ran := x.course s
    generalize x.run s = t at ran ⊢
    cases ran with
    | unopened stops =>
      rcases stops with ⟨lost, rfl⟩ | ⟨kept, halts⟩
      · exact .inl ⟨lost, rfl⟩
      · exact .inr ⟨kept, .halted halts⟩
    | unsent kept halts => exact .inr ⟨kept, .halted halts⟩
    | sent kept sends awaits => exact .inr ⟨kept, tells_of_awaits sends awaits⟩
  · rintro (⟨lost, rfl⟩ | ⟨kept, tells⟩)
    · rw [run_of_lost lost]
    · exact answered_of_tells kept tells

def Trace.done (t : Trace) : List NetworkAct := t.acts.map (·.2)

def isSend : NetworkAct → Bool
  | .send .. => true
  | _ => false

/-- What is true of the acts of an exchange, however it ends. -/
structure Tidy (x : Exchange) (s : Surroundings) (t : Trace) : Prop where
  opened : t.done.count .socket ≤ 1
  closed : t.done.count .close = t.done.count .socket
  /-- Nothing is done with a socket that was closed. -/
  last : NetworkAct.close ∈ t.done → t.done.getLast? = some .close
  once : (t.done.filter isSend).length ≤ 1
  sent : ∀ act, act ∈ t.done ∧ isSend act = true ↔ ¬ x.Lost s ∧
    ∃ address, s.Sends address ∧ act = .send address x.port x.localPort x.payload
  /-- The acts are over when the exchange is. -/
  times : ∀ p ∈ t.acts, p.1 ≤ t.duration
  inTime : (t.duration : Int) ≤ max 1 x.timeout

theorem Awaits.inTime {x : Exchange} {s : Surroundings} {time : Nat} {a : Answered}
    (h : x.Awaits s (time, a)) : (time : Int) ≤ max 1 x.timeout := by
  cases h with
  | heard _ early => exact Int.le_of_lt early
  | nothing _ => exact Int.le_of_eq x.patience_eq

/-- What halts an exchange keeps it from sending anything. -/
theorem sent_of_stops {x : Exchange} {s : Surroundings} {t : Trouble} {acts : List NetworkAct}
    (stops : x.Stops s t) (unsent : ∀ act ∈ acts, isSend act = false) (act : NetworkAct) :
    act ∈ acts ∧ isSend act = true ↔ ¬ x.Lost s ∧
      ∃ address, s.Sends address ∧ act = .send address x.port x.localPort x.payload := by
  refine iff_of_false ?_ ?_
  · rintro ⟨done, sent⟩
    rw [unsent act done] at sent
    cases sent
  · rintro ⟨kept, address, sends, -⟩
    rcases stops with ⟨lost, -⟩ | ⟨-, halts⟩
    · exact kept lost
    · exact halts.not_sends sends

theorem tidy_run (x : Exchange) (s : Surroundings) : x.Tidy s (x.run s) := by
  have ran := x.course s
  generalize x.run s = t at ran
  cases ran with
  | unopened stops =>
    exact {
      opened := by simp [Trace.done]
      closed := by simp [Trace.done]
      last := by simp [Trace.done]
      once := by simp [Trace.done, isSend]
      sent := sent_of_stops stops (by simp [Trace.done, isSend])
      times := by simp
      inTime := by simp }
  | unsent kept halts =>
    exact {
      opened := by simp [Trace.done]
      closed := by simp [Trace.done]
      last := by simp [Trace.done]
      once := by simp [Trace.done, isSend]
      sent := sent_of_stops (.inr ⟨kept, halts⟩) (by simp [Trace.done, isSend])
      times := by simp
      inTime := by simp }
  | @sent address _ _ kept sends awaits =>
    exact {
      opened := by simp [Trace.done]
      closed := by simp [Trace.done]
      last := by simp [Trace.done]
      once := Nat.le_refl 1
      sent := by
        intro act
        constructor
        · rintro ⟨done, sent⟩
          refine ⟨kept, address, sends, ?_⟩
          simp only [Trace.done, List.map_cons, List.map_nil, List.mem_cons, List.not_mem_nil,
            or_false] at done
          rcases done with rfl | rfl | rfl | rfl | rfl | rfl <;> first | rfl | cases sent
        · rintro ⟨-, other, sends', rfl⟩
          obtain rfl := sends.found.unique sends'.found
          exact ⟨by simp [Trace.done], rfl⟩
      times := by simp
      inTime := awaits.inTime }

/-- An exchange opens one socket at most, closes what it opened as its last act, sends its payload once
at most and only to the address that comes first, and is over when its patience is. It tells the reply,
the silence, or the reason of the step that failed, unless it is too patient to be carried out at all. -/
theorem run_tidy_and_told (x : Exchange) (s : Surroundings) : x.Tidy s (x.run s) ∧
    ∀ a, (x.run s).answered = a ↔
      x.Lost s ∧ a = .error (.fault .tooLargeQuotient) ∨ ¬ x.Lost s ∧ x.Tells s a :=
  ⟨x.tidy_run s, x.answered_iff s⟩

/-- An exchange with all the patience in the world. -/
def stubborn : Exchange :=
  { host := "h", port := 30000, payload := "ping", localPort := 0, timeout := 10 ^ 312 }

def pong : Octets := [0x70, 0x6F, 0x6E, 0x67]

/-- Surroundings in which a device answers at once. -/
def prompt : Surroundings :=
  { addresses := .ok ["h"], arrival := some (0, .reply pong) }

/-- The device would answer at once, but it is never asked. -/
theorem stubborn_never_asks : stubborn.Tells prompt (.ok (some pong)) ∧
    stubborn.run prompt = ⟨[(0, .resolve "h" 30000)], 0, .error (.fault .tooLargeQuotient)⟩ := by
  have found : prompt.Found "h" := ⟨[], rfl⟩
  have early : ((0 : Nat) : Int) < max 1 stubborn.timeout := by decide +kernel
  have long : (tooLong : Int) ≤ stubborn.timeout := by decide +kernel
  have told : stubborn.Tells prompt (.ok (some (pong.take 4096))) :=
    .reply ⟨⟨"h", found, rfl, rfl, rfl⟩, 0, rfl, early⟩
  exact ⟨told, run_of_lost ⟨long, "h", found⟩⟩

end Exchange
end BatteryLink
