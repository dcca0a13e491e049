import BatteryLink.Proofs.Turn
import BatteryLink.Session.Order
/-!
The turns of orders. They leave the session alone until an order ends. Then the result is taken
down, and either a poll is planned or the toggle of the order is switched off.
-/
namespace BatteryLink

namespace Session

/-- The session after a toggle was switched off, as far as the host application hears of it. -/
def offered (s : Session) (toggle : Option String) : Session :=
  match toggle with
  | none => s
  | some channel =>
    if s.hears channel then s.emit (.published channel (.value (.switch false))) else s

def entrusted (s : Session) (plan : Plan) (job : JobId → Job) : Session :=
  { s with nextJob := s.nextJob + 1 }.emit (.scheduled s.nextJob plan (job s.nextJob))

/-- The session after the poll that follows an order was planned. -/
def followedUp (s : Session) (toggle : Option String) : Session :=
  { s.entrusted (.after (.ofMilliseconds Order.followUpDelay)) (.followUp · toggle) with
    pending := s.pending ++ [s.nextJob] }

def concluded (s : Session) (t : Tally) (toggle : Option String) : Session :=
  if t.ok then { s with lastResult := some t }.followedUp toggle
  else { s with lastResult := some t }.offered toggle

def released (s : Session) : Session :=
  match s.lock.queue with
  | [] => { s with lock := {} }
  | task :: queue => { s with lock := ⟨some task, queue⟩ }.emit (.granted task)

end Session

@[simp] theorem Turn.exec_schedule (plan : Plan) (job : JobId → Job) (s : Session) :
    (schedule plan job).exec s = (.ok s.nextJob, s.entrusted plan job) := rfl

namespace Order

theorem exec_resetToggle (toggle : Option String) (s : Session) :
    ∃ r, (resetToggle toggle).exec s = (r, s.offered toggle) ∧
      (∀ e, r = .error e → e.OfHost s.host) := by
  unfold resetToggle Session.offered
  cases toggle with
  | none => exact ⟨.ok (), rfl, by simp⟩
  | some channel =>
    obtain ⟨r, hr, he⟩ := Turn.exec_publish channel (.value (.switch false)) s
    cases r with
    | ok b => exact ⟨.ok (), by simp [hr], by simp⟩
    | error e => exact ⟨.error e, by simp [hr], by simpa using he⟩

@[simp] theorem exec_release (s : Session) : release.exec s = (.ok (), s.released) := by
  unfold release Session.released
  rw [Turn.exec_bind, Turn.exec_get]
  dsimp only
  cases s.lock.queue <;> rfl

/-- The lock is given back at the end, however it comes. -/
theorem exec_holding (t : Turn Next) (s : Session) :
    (holding t).exec s = match t.exec s with
      | (.ok (.ended r), u) => (.ok (.ended r), u.released)
      | (.ok next, u) => (.ok next, u)
      | (.error e, u) => (.error e, u.released) := by
  unfold holding
  rw [Turn.exec_bind, Turn.exec_tryCatch]
  rcases t.exec s with ⟨e | next, u⟩
  · simp
  · cases next <;> simp

theorem exec_acquire (self : TaskId) (s : Session) :
    (acquire self).exec s = match s.lock.holder with
      | none => (.ok true, { s with lock := { s.lock with holder := some self } })
      | some _ => (.ok false, { s with lock := { s.lock with queue := s.lock.queue ++ [self] } }) := by
  unfold acquire
  rw [Turn.exec_bind, Turn.exec_get]
  dsimp only
  cases s.lock.holder <;> rfl

def Kind.toggle : Kind → Option String
  | single _ toggle => toggle
  | manual _ => some manualToggle

def Stage.toggle : Stage → Option String
  | single toggle => toggle
  | slot _ => some manualToggle

/-- How many slots there are at most. -/
def SlotSource.size : SlotSource → Nat
  | settings => 4
  | given slots => slots.length

/-- How many turns an activation has before it at most when it pauses. -/
def Writing.left (w : Writing) : Nat := 2 * w.rest.length + 2

/-- How many turns an order has before it at most when it waits for an answer. -/
def Stage.left : Stage → Nat
  | single _ => 1
  | slot w => 2 * w.rest.length + 1

/-- How many turns an order has before it at most when it waits for the lock. -/
def Kind.left : Kind → Nat
  | single _ _ => 2
  | manual source => max 1 (2 * source.size)

/-- A slot is written only with a request that passes the checks. -/
def Writing.Sound (w : Writing) (s : Session) : Prop :=
  ∃ payload, slotRequest (w.source.read s) w.slot = .ok payload

/-- What a turn of an order comes to that has not been dropped: it goes on with less than `n` turns
before it, asking the device only if `asks` holds, or it ends. A host application that refuses to
hear of the end is the only trouble. -/
inductive Effect (toggle : Option String) (n : Nat) (asks : Prop) (s : Session) :
    Except Trouble Next × Session → Prop
  | asked {x : Exchange} {stage : Stage} :
      asks → stage.toggle = toggle → stage.left < n → Effect toggle n asks s (.ok (.ask x stage), s)
  | paused {w : Writing} :
      toggle = some manualToggle → w.left < n → Effect toggle n asks s (.ok (.pause w), s)
  | ended (t : Tally) : Effect toggle n asks s (.ok (.ended t), s.concluded t toggle)
  | unheard (t : Tally) {e : Trouble} :
      t.ok = false → e.OfHost s.host → Effect toggle n asks s (.error e, s.concluded t toggle)

variable {n : Nat} {asks : Prop}

/-- The result of an order is taken down; only a host application that refuses to hear of its toggle
keeps it from coming back. -/
theorem exec_finish (t : Tally) (toggle : Option String) (s : Session) :
    ∃ r, (finish t toggle).exec s = (r, s.concluded t toggle) ∧
      (r = .ok (.ended t) ∨ t.ok = false ∧ ∃ e, r = .error e ∧ e.OfHost s.host) := by
  unfold finish Session.concluded
  rw [Turn.exec_bind, Turn.exec_modify]
  cases ht : t.ok with
  | true => exact ⟨_, rfl, .inl rfl⟩
  | false =>
    obtain ⟨r, hr, he⟩ := exec_resetToggle toggle { s with lastResult := some t }
    dsimp only [Bool.false_eq_true, if_false]
    rw [if_neg Bool.false_ne_true, Turn.exec_bind, hr]
    cases r with
    | ok => exact ⟨_, rfl, .inl rfl⟩
    | error e => exact ⟨_, rfl, .inr ⟨rfl, e, rfl, he e rfl⟩⟩

theorem finish_effect (t : Tally) (toggle : Option String) (s : Session) :
    Effect toggle n asks s ((finish t toggle).exec s) := by
  obtain ⟨r, hr, rfl | ⟨ht, e, rfl, he⟩⟩ := exec_finish t toggle s
  · rw [hr]
    exact .ended t
  · rw [hr]
    exact .unheard t ht he

theorem slotDone_effect (w : Writing) (ok : Bool) (s : Session) (h : 2 * w.rest.length < n) :
    Effect (some manualToggle) n asks s ((slotDone w ok).exec s) := by
  unfold slotDone
  dsimp only
  split
  · exact finish_effect _ _ s
  · next slot rest hrest =>
    refine .paused rfl ?_
    rw [hrest, List.length_cons] at h
    simp only [Writing.left]
    omega

theorem writeSlot_effect (w : Writing) (s : Session) (h : w.left ≤ n) (ha : w.Sound s → asks) :
    Effect (some manualToggle) n asks s ((writeSlot w).exec s) := by
  unfold Writing.left at h
  unfold writeSlot
  rw [Turn.exec_bind, Turn.exec_get]
  dsimp only
  split
  · exact slotDone_effect w false s (by omega)
  · next payload hp =>
    refine .asked (ha ⟨payload, hp⟩) rfl ?_
    simp only [Stage.left]
    omega

theorem exec_writeSlot {w : Writing} {s : Session} {payload : String}
    (h : slotRequest (w.source.read s) w.slot = .ok payload) : (writeSlot w).exec s =
      (.ok (.ask ⟨s.config.host, s.config.port, payload, s.config.localPort, slotTimeout⟩
        (.slot w)), s) := by
  unfold writeSlot
  simp [h]

theorem writeSlot_asks {w : Writing} {s : Session} (h : w.Sound s) :
    ∃ x, (writeSlot w).exec s = (.ok (.ask x (.slot w)), s) := by
  obtain ⟨payload, hp⟩ := h
  exact ⟨_, exec_writeSlot hp⟩

theorem length_enabledSlots_le (slots : List SlotDraft) :
    (enabledSlots slots).length ≤ slots.length := by
  unfold enabledSlots
  rw [List.length_map]
  exact Nat.le_trans (List.length_filter_le _ _) (Nat.le_of_eq List.length_zipIdx)

theorem SlotSource.length_read_le (source : SlotSource) (s : Session) :
    (source.read s).length ≤ source.size := by
  cases source <;> simp [read, size]

theorem exec_begin_single (payload : String) (toggle : Option String) {s : Session}
    (hs : s.disposed = false) : (begin (.single payload toggle)).exec s =
      (.ok (.ask ⟨s.config.host, s.config.port, payload, s.config.localPort, singleTimeout⟩
        (.single toggle)), s) := by
  unfold begin
  simp [hs]

theorem exec_begin_manual (source : SlotSource) {s : Session} (hs : s.disposed = false) :
    (begin (.manual source)).exec s = match enabledSlots (source.read s) with
      | [] => (finish ⟨0, 0⟩ (some manualToggle)).exec s
      | slot :: rest => (writeSlot ⟨source, slot, rest, rest.length + 1, 0⟩).exec s := by
  unfold begin
  rw [Turn.exec_bind, Turn.exec_get]
  dsimp only
  rw [hs, if_neg Bool.false_ne_true]
  cases enabledSlots (source.read s) <;> rfl

theorem begin_effect (k : Kind) {s : Session} (hs : s.disposed = false) :
    Effect k.toggle k.left True s ((begin k).exec s) := by
  cases k with
  | single payload toggle =>
    rw [exec_begin_single payload toggle hs]
    exact .asked trivial rfl Nat.one_lt_two
  | manual source =>
    have bound := Nat.le_trans (length_enabledSlots_le (source.read s)) (source.length_read_le s)
    rw [exec_begin_manual source hs]
    cases h : enabledSlots (source.read s) with
    | nil => exact finish_effect _ _ s
    | cons slot rest =>
      rw [h, List.length_cons] at bound
      refine writeSlot_effect _ s ?_ fun _ => trivial
      simp only [Writing.left, Kind.left]
      omega

theorem begin_disposed (k : Kind) {s : Session} (hs : s.disposed = true) :
    (begin k).exec s = (.ok (.ended ⟨0, 0⟩), s) := by
  unfold begin
  simp [hs]

/-- Whether an answer says that the device took a request. -/
def took : Answered → Bool
  | .ok (some octets) =>
    match Reply.accepted octets with
    | .ok b => b
    | .error _ => false
  | .ok none | .error _ => false

/-- What counts of an answer: whether the device took the request, unless the user interrupts. -/
theorem exec_taken (a : Answered) (s : Session) :
    (∃ e, a = .error e ∧ e.OfUser ∧ (taken a).exec s = (.error e, s)) ∨
      (taken a).exec s = (.ok (took a), s) := by
  unfold taken took
  split
  · next message => exact .inl ⟨_, rfl, ⟨message, rfl⟩, rfl⟩
  · exact .inr rfl
  · exact .inr rfl
  · next octets =>
    right
    dsimp only
    cases Reply.accepted octets <;> rfl

/-- An interrupt is the only answer that ends an order without a result. -/
theorem proceed_effect (stage : Stage) (a : Answered) (s : Session) :
    (∃ e, a = .error e ∧ e.OfUser ∧ (proceed stage a).exec s = (.error e, s)) ∨
      Effect stage.toggle stage.left False s ((proceed stage a).exec s) := by
  unfold proceed
  rw [Turn.exec_bind]
  rcases exec_taken a s with ⟨e, ha, he, ht⟩ | ht
  · exact .inl ⟨e, ha, he, by rw [ht]⟩
  · rw [ht]
    right
    cases stage with
    | single toggle => exact finish_effect _ toggle s
    | slot w => exact slotDone_effect w _ s (Nat.lt_succ_self _)

end Order
end BatteryLink
