import BatteryLink.Session.Basic
/-!
What the small acts of a session come to: the result of each act and the session it leaves.
-/
namespace BatteryLink

namespace Turn

variable {α β : Type}

def exec (t : Turn α) (s : Session) : Except Trouble α × Session := t.run.run s

@[simp] theorem exec_pure (a : α) (s : Session) : (pure a : Turn α).exec s = (.ok a, s) := rfl

@[simp] theorem exec_throw (e : Trouble) (s : Session) :
    (throw e : Turn α).exec s = (.error e, s) := rfl

@[simp] theorem exec_fail (f : Fault) (s : Session) :
    (fail f : Turn α).exec s = (.error (.fault f), s) := rfl

@[simp] theorem exec_get (s : Session) : (get : Turn Session).exec s = (.ok s, s) := rfl

@[simp] theorem exec_set (u s : Session) : (set u : Turn PUnit).exec s = (.ok ⟨⟩, u) := rfl

@[simp] theorem exec_modify (f : Session → Session) (s : Session) :
    (modify f : Turn PUnit).exec s = (.ok ⟨⟩, f s) := rfl

@[simp] theorem exec_bind (t : Turn α) (f : α → Turn β) (s : Session) :
    (t >>= f).exec s = match t.exec s with
      | (.ok a, u) => (f a).exec u
      | (.error e, u) => (.error e, u) := by
  rw [exec, ExceptT.run_bind, StateT.run_bind]
  rcases h : StateT.run (ExceptT.run t) s with ⟨_ | _, u⟩ <;> simp only [exec, h] <;> rfl

@[simp] theorem exec_map (f : α → β) (t : Turn α) (s : Session) :
    (f <$> t).exec s = match t.exec s with
      | (.ok a, u) => (.ok (f a), u)
      | (.error e, u) => (.error e, u) := by
  rw [← bind_pure_comp, exec_bind]
  rfl

@[simp] theorem exec_tryCatch (t : Turn α) (f : Trouble → Turn α) (s : Session) :
    (tryCatch t f).exec s = match t.exec s with
      | (.ok a, u) => (.ok a, u)
      | (.error e, u) => (f e).exec u := by
  rw [exec, ExceptT.run_tryCatch, StateT.run_bind]
  rcases h : StateT.run (ExceptT.run t) s with ⟨_ | _, u⟩ <;> simp only [exec, h] <;> rfl

theorem exec_ofExcept (x : Except Trouble α) (s : Session) : (ofExcept x).exec s = (x, s) := by
  cases x <;> rfl

@[simp] theorem exec_notify (n : Notice) (s : Session) :
    (notify n).exec s = (.ok (), { s with outbox := s.outbox ++ [n] }) := rfl

@[simp] theorem exec_exchange (payload : String) (timeout : Int) (s : Session) :
    (exchange payload timeout).exec s =
      (.ok ⟨s.config.host, s.config.port, payload, s.config.localPort, timeout⟩, s) := rfl

end Turn

/-- Whether a host application refuses something with this text. -/
def Host.Refuses (h : Host) (message : String) : Prop :=
  h.status = some message ∨ ∃ channel, h.publish = some (channel, message)

theorem Host.refuses_of_refusal? {h : Host} {channel message : String}
    (hr : h.refusal? channel = some message) : h.Refuses message := by
  obtain ⟨⟨c, text⟩, hp, ht⟩ := Option.bind_eq_some_iff.mp hr
  dsimp only at ht
  split at ht
  · cases ht
    exact .inr ⟨c, hp⟩
  · cases ht

/-- A trouble that the host application makes by refusing an update. -/
def Trouble.OfHost (e : Trouble) (h : Host) : Prop :=
  ∃ message, e = .fault (.host message) ∧ h.Refuses message

/-- A trouble that the user makes by asking to stop. -/
def Trouble.OfUser (e : Trouble) : Prop := ∃ message, e = .fault (.interrupt message)

namespace Session

/-- Whether an update of a channel reaches the host application and is taken there. -/
def hears (s : Session) (channel : String) : Bool :=
  !s.disposed && s.health.isOnline && (s.host.refusal? channel).isNone

def emit (s : Session) (n : Notice) : Session := { s with outbox := s.outbox ++ [n] }

/-- The session after the status was reported, which is kept back once it is disposed of. -/
def told (s : Session) (status : DeviceStatus) (detail : Option String) : Session :=
  if s.disposed then s else s.emit (.reported status detail)

def recorded (s : Session) (reachable : Bool) : Session :=
  let health := s.health.record reachable
  match s.health.changed health with
  | none => { s with health }
  | some c =>
    { s with health }.told c.current
      (if c.current = DeviceStatus.offline then some (Turn.offlineDetail s.endpoint c.failures) else none)

end Session

namespace Turn

/-- An update goes out exactly if it is heard. -/
theorem exec_publish (channel : String) (content : Published) (s : Session) :
    ∃ r, (publish channel content).exec s =
        (r, if s.hears channel then s.emit (.published channel content) else s) ∧
      (∀ e, r = .error e → e.OfHost s.host) := by
  unfold publish Session.hears
  rw [exec_bind, exec_get]
  dsimp only
  cases hd : s.disposed with
  | true => exact ⟨.ok false, by simp, nofun⟩
  | false =>
    cases ho : s.health.isOnline with
    | false => exact ⟨.ok false, by simp, nofun⟩
    | true =>
      cases hr : s.host.refusal? channel with
      | none => exact ⟨.ok true, by simp [Session.emit], nofun⟩
      | some message =>
        refine ⟨.error (.fault (.host message)), by simp, ?_⟩
        rintro e ⟨⟩
        exact ⟨message, rfl, Host.refuses_of_refusal? hr⟩

theorem exec_report (status : DeviceStatus) (detail : Option String) (s : Session) :
    ∃ r, (report status detail).exec s = (r, s.told status detail) ∧
      (∀ e, r = .error e → e.OfHost s.host) := by
  unfold report Session.told
  rw [exec_bind, exec_get]
  dsimp only
  cases hd : s.disposed with
  | true => exact ⟨.ok (), by simp, nofun⟩
  | false =>
    cases hr : s.host.status with
    | none => exact ⟨.ok (), by simp [Session.emit], nofun⟩
    | some message =>
      refine ⟨.error (.fault (.host message)), by simp [Session.emit], ?_⟩
      rintro e ⟨⟩
      exact ⟨message, rfl, .inl hr⟩

theorem exec_record (reachable : Bool) (s : Session) :
    ∃ r, (record reachable).exec s = (r, s.recorded reachable) ∧
      (∀ e, r = .error e → e.OfHost s.host) := by
  unfold record Session.recorded
  cases hc : s.health.changed (s.health.record reachable) with
  | none => exact ⟨.ok (), by simp [hc], by simp⟩
  | some c =>
    obtain ⟨r, hr, he⟩ := exec_report c.current
      (if c.current = .offline then some (offlineDetail s.endpoint c.failures) else none)
      { s with health := s.health.record reachable }
    exact ⟨r, by simp [hc, hr], he⟩

end Turn
end BatteryLink
