import BatteryLink.Proofs.Frame
import BatteryLink.Proofs.Health
/-!
What the answer to a request adds to the history of outcomes that the health is made of. In a session
that has been disposed of this is what it is in any other one: nobody hears of it, but it is taken
down.
-/
namespace BatteryLink

open Routine (Next)

/-- Whether taking data from a reply runs into a fault. A reply without a result is passed over. -/
def Reply.faults {α : Type} (octets : Octets) (take : Reply.Entries → Except Fault α) : Bool :=
  match decode octets with
  | .error (.refused _) => false
  | .error (.fault _) => true
  | .ok r =>
    match take r with
    | .error _ => true
    | .ok _ => false

/-- Whether a reply shows that the device is there. -/
def Poll.responds : Option Octets → Bool
  | none | some [] => false
  | some _ => true

namespace Poll.Stage

/-- Whether a poll runs into a fault with what it does with a reply. -/
def faults (stage : Stage) : Option Octets → Bool
  | none => false
  | some octets =>
    match stage with
    | .probe => responds (some octets) && Reply.faults octets Identity.ofResult
    | .query m _ => Reply.faults octets (Status.updates m)

/-- A probe that was sent has an outcome, and so has a failure of the poll. -/
def outcomes (stage : Stage) : Answered → List Bool
  | .error (.fault (.interrupt _)) => []
  | .error _ => [false]
  | .ok reply =>
    (if stage = .probe then [responds reply] else []) ++
      if stage.faults reply then [false] else []

end Poll.Stage

/-- The outcomes that the answer to a request adds to the history. -/
def Routine.Asked.outcomes : Asked → Answered → List Bool
  | .firstProbe, .error (.refused _) => [false]
  | .firstProbe, .error (.fault _) | .probe, .error _ => []
  | .firstProbe, .ok reply | .probe, .ok reply => [Poll.responds reply]
  | .poll stage _, a => stage.outcomes a
  | .order _, _ => []

/-- Sessions in which the host application gets in nobody's way: it hears of nothing, or it takes
what it hears. -/
def Session.Quiet (s : Session) : Prop := s.disposed = true ∨ s.host = {}

/-- In a quiet session a turn adds these outcomes to the history, and `Q` holds of its result. -/
def Turn.Records {α : Type} (t : Turn α) (outcomes : List Bool) (Q : Except Trouble α → Prop) : Prop :=
  ∀ s : Session, s.Quiet → (t.exec s).2.Quiet ∧ (t.exec s).2.health = s.health.after outcomes ∧
    Q (t.exec s).1

/-- Results that are a failure exactly if `fails` says so, and none that the user makes. -/
def Fails {α : Type} (fails : Bool) : Except Trouble α → Prop
  | .ok _ => fails = false
  | .error e => fails = true ∧ ¬ e.OfUser

theorem Health.after_append (h : Health) (xs ys : List Bool) :
    h.after (xs ++ ys) = (h.after xs).after ys :=
  List.foldl_append

namespace Turn.Records

variable {α β : Type} {t : Turn α} {xs ys : List Bool} {P Q : Except Trouble α → Prop}
  {R : Except Trouble β → Prop}

theorem pure {a : α} (h : Q (.ok a)) : (Pure.pure a : Turn α).Records [] Q :=
  fun _ quiet => ⟨quiet, rfl, h⟩

theorem fail {f : Fault} (h : Q (.error (.fault f))) : (Turn.fail f : Turn α).Records [] Q :=
  fun _ quiet => ⟨quiet, rfl, h⟩

theorem ofExcept (x : Except Trouble α) : (Turn.ofExcept x).Records [] (· = x) := by
  intro s quiet
  rw [exec_ofExcept]
  exact ⟨quiet, rfl, rfl⟩

/-- Acts that leave alone what the host application is about. -/
theorem modify {f : Session → Session} (h : ∀ s, (f s).health = s.health ∧
    (f s).disposed = s.disposed ∧ (f s).host = s.host) :
    (MonadState.modifyGet fun s => ((⟨⟩ : PUnit), f s) : Turn PUnit).Records [] (Fails false) := by
  intro s quiet
  obtain ⟨health, disposed, host⟩ := h s
  refine ⟨?_, health, rfl⟩
  change (f s).disposed = true ∨ (f s).host = {}
  rwa [disposed, host]

theorem mono (ht : t.Records xs P) (h : ∀ r, P r → Q r) : t.Records xs Q :=
  fun s quiet => ⟨(ht s quiet).1, (ht s quiet).2.1, h _ (ht s quiet).2.2⟩

/-- A turn that goes on with what another one comes to. -/
theorem bind {f : α → Turn β} (ht : t.Records xs P) (hf : ∀ a, P (.ok a) → (f a).Records ys R)
    (he : ∀ e, P (.error e) → ys = [] ∧ R (.error e)) : (t >>= f).Records (xs ++ ys) R := by
  intro s quiet
  obtain ⟨quiet', health, hp⟩ := ht s quiet
  rw [exec_bind, Health.after_append]
  rcases hx : t.exec s with ⟨e | a, u⟩ <;> rw [hx] at quiet' health hp
  · obtain ⟨rfl, hr⟩ := he e hp
    exact ⟨quiet', health, hr⟩
  · obtain ⟨quiet'', health', hr⟩ := hf a hp u quiet'
    exact ⟨quiet'', by rw [health', health], hr⟩

theorem nil_bind {f : α → Turn β} (ht : t.Records [] P) (hf : ∀ a, P (.ok a) → (f a).Records ys R)
    (he : ∀ e, P (.error e) → ys = [] ∧ R (.error e)) : (t >>= f).Records ys R :=
  ht.bind hf he

theorem bind_nil {f : α → Turn β} (ht : t.Records xs P) (hf : ∀ a, P (.ok a) → (f a).Records [] R)
    (he : ∀ e, P (.error e) → R (.error e)) : (t >>= f).Records xs R := by
  simpa using ht.bind hf fun e h => ⟨rfl, he e h⟩

theorem tryCatch {f : Trouble → Turn α} (ht : t.Records xs P)
    (hok : ∀ a, P (.ok a) → ys = [] ∧ Q (.ok a)) (hf : ∀ e, P (.error e) → (f e).Records ys Q) :
    (MonadExcept.tryCatch t f).Records (xs ++ ys) Q := by
  intro s quiet
  obtain ⟨quiet', health, hp⟩ := ht s quiet
  rw [exec_tryCatch, Health.after_append]
  rcases hx : t.exec s with ⟨e | a, u⟩ <;> rw [hx] at quiet' health hp
  · obtain ⟨quiet'', health', hq⟩ := hf e hp u quiet'
    exact ⟨quiet'', by rw [health', health], hq⟩
  · obtain ⟨rfl, hq⟩ := hok a hp
    exact ⟨quiet', health, hq⟩

end Turn.Records

namespace Turn

variable {s : Session}

theorem publish_records (channel : String) (content : Published) :
    (publish channel content).Records [] (Fails false) := by
  intro s quiet
  unfold publish
  rw [exec_bind, exec_get]
  dsimp only
  split
  · exact ⟨quiet, rfl, rfl⟩
  · next live =>
    have host : s.host = {} := quiet.resolve_left fun disposed => live (by simp [disposed])
    have taken : s.host.refusal? channel = none := by rw [host]; rfl
    rw [taken]
    exact ⟨quiet, rfl, rfl⟩

theorem report_records (status : DeviceStatus) (detail : Option String) :
    (report status detail).Records [] (Fails false) := by
  intro s quiet
  unfold report
  rw [exec_bind, exec_get]
  dsimp only
  split
  · exact ⟨quiet, rfl, rfl⟩
  · next live =>
    have host : s.host = {} := quiet.resolve_left live
    have taken : s.host.status = none := by rw [host]
    rw [exec_bind, exec_notify, taken]
    exact ⟨quiet, rfl, rfl⟩

theorem record_records (reachable : Bool) : (record reachable).Records [reachable] (Fails false) := by
  intro s quiet
  unfold record
  rw [exec_bind, exec_get]
  dsimp only
  rw [exec_bind, exec_set]
  dsimp only
  split
  · exact ⟨quiet, rfl, rfl⟩
  · exact report_records _ _ { s with health := s.health.record reachable } quiet

end Turn

namespace Poll

open Turn (Records)

theorem not_ofUser {f : Fault} (h : f.isForeign = false) : ¬ Trouble.OfUser (.fault f) := by
  rintro ⟨message, ⟨⟩⟩
  cases h

theorem identify_records (octets : Octets) :
    (identify octets).Records [] (Fails (Reply.faults octets Identity.ofResult)) := by
  unfold identify
  split
  · next hd => exact .pure (by simp [Fails, Reply.faults, hd])
  · next f hd =>
    have native := Reply.homely_decode octets _ f hd rfl
    exact .fail ⟨by simp [Reply.faults, hd], not_ofUser native⟩
  · next r hd =>
    split
    · next f hf =>
      have native := Identity.homely_ofResult r f f hf rfl
      exact .fail ⟨by simp [Reply.faults, hd, hf], not_ofUser native⟩
    · next hr => exact .pure (by simp [Fails, Reply.faults, hd, hr])
    · next i hr =>
      have fine : Reply.faults octets Identity.ofResult = false := by simp [Reply.faults, hd, hr]
      exact fine ▸ .modify fun _ => ⟨rfl, rfl, rfl⟩

/-- A probe that was sent has an outcome, whatever its reply says. -/
theorem probed_records (reply : Option Octets) : (probed reply).Records [responds reply] fun
    | .ok b => b = responds reply ∧ Stage.probe.faults reply = false
    | .error e => Stage.probe.faults reply = true ∧ ¬ e.OfUser := by
  unfold probed
  split
  · exact (Turn.record_records false).bind (fun _ _ => .pure ⟨rfl, rfl⟩) fun _ h => by cases h.1
  · exact (Turn.record_records false).bind (fun _ _ => .pure ⟨rfl, rfl⟩) fun _ h => by cases h.1
  · next octets empty =>
    cases octets with
    | nil => exact absurd rfl empty
    | cons o octets =>
      refine (Turn.record_records true).bind (fun _ _ => ?_) fun _ h => by cases h.1
      exact (identify_records (o :: octets)).bind (fun _ h => .pure ⟨rfl, h⟩) fun _ h => ⟨rfl, h⟩

theorem publishAll_records (us : List (String × Value)) : (publishAll us).Records [] (Fails false) := by
  induction us with
  | nil => exact .pure rfl
  | cons u us ih =>
    exact (Turn.publish_records u.1 (.value u.2)).bind (fun _ _ => ih) fun _ h => by cases h.1

theorem absorb_records (m : Method) (rest : List Method) (reply : Option Octets) :
    (absorb m reply).Records [] (Fails ((Stage.query m rest).faults reply)) := by
  unfold absorb
  split
  · exact .pure rfl
  · next octets =>
    have faults : (Stage.query m rest).faults (some octets) =
        Reply.faults octets (Status.updates m) := rfl
    rw [faults]
    split
    · next hd => exact .pure (by simp [Fails, Reply.faults, hd])
    · next f hd =>
      have native := Reply.homely_decode octets _ f hd rfl
      exact .fail ⟨by simp [Reply.faults, hd], not_ofUser native⟩
    · next r hd =>
      split
      · next f hf =>
        have native := Status.homely_updates m r f f hf rfl
        exact .fail ⟨by simp [Reply.faults, hd, hf], not_ofUser native⟩
      · next us hr =>
        have fine : Reply.faults octets (Status.updates m) = false := by simp [Reply.faults, hd, hr]
        rw [fine]
        exact publishAll_records us

theorem goOn_records (now : Moment) (ms : List Method) : (goOn now ms).Records [] (Fails false) := by
  cases ms with
  | nil =>
    refine Records.nil_bind (P := Fails false) (.modify fun _ => ⟨rfl, rfl, rfl⟩) (fun _ _ => ?_)
      fun _ h => by cases h.1
    exact (Turn.publish_records _ _).bind (fun _ _ => .pure rfl) fun _ h => by cases h.1
  | cons m rest =>
    intro s quiet
    unfold goOn
    cases hd : s.disposed with
    | true => simp [hd, quiet, Fails, Health.after]
    | false => simp [hd, quiet, Fails, Health.after]

theorem giveUp_records {e : Trouble} (h : ¬ e.OfUser) : (giveUp e).Records [false] (Fails false) := by
  unfold giveUp
  split
  · next message => exact absurd ⟨message, rfl⟩ h
  · refine Records.nil_bind (P := Fails false) (.modify fun _ => ⟨rfl, rfl, rfl⟩) (fun _ _ => ?_)
      fun _ h => by cases h.1
    exact (Turn.record_records false).bind (fun _ _ => .pure rfl) fun _ h => by cases h.1

theorem proceed_records (now : Moment) (stage : Stage) (reply : Option Octets) :
    (proceed now stage (.ok reply)).Records (if stage = .probe then [responds reply] else [])
      (Fails (stage.faults reply)) := by
  cases stage with
  | probe =>
    refine Records.nil_bind (.ofExcept _) (fun r hr => ?_) fun _ h => by cases h
    cases hr
    refine (probed_records reply).bind_nil (fun there h => ?_) fun _ h => h
    rw [h.2]
    split
    · exact goOn_records now _
    · exact .pure rfl
  | query m rest =>
    refine Records.nil_bind (.ofExcept _) (fun r hr => ?_) fun _ h => by cases h
    cases hr
    refine (absorb_records m rest reply).bind_nil (fun _ h => ?_) fun _ h => h
    rw [h]
    exact goOn_records now rest

theorem resume_records (now : Moment) (stage : Stage) (a : Answered) :
    (resume now stage a).Records (stage.outcomes a) fun _ => True := by
  unfold resume
  cases a with
  | ok reply =>
    refine (proceed_records now stage reply).tryCatch (fun _ h => ?_) fun e h => ?_
    · exact ⟨if_neg (by simp [show stage.faults reply = false from h]), trivial⟩
    · rw [if_pos h.1]
      exact (giveUp_records h.2).mono fun _ _ => trivial
  | error e =>
    have stops : (proceed now stage (.error e)).Records [] (· = .error e) := by
      cases stage <;>
        exact Records.nil_bind (.ofExcept _) (fun _ h => by cases h)
          fun _ h => by cases h; exact ⟨rfl, rfl⟩
    refine Records.tryCatch stops (fun _ h => by cases h) fun d h => ?_
    cases h
    by_cases user : e.OfUser
    · obtain ⟨message, rfl⟩ := user
      exact .fail trivial
    · have failed : stage.outcomes (.error e) = [false] := by
        unfold Stage.outcomes
        split
        · next message h =>
          cases h
          exact absurd ⟨message, rfl⟩ user
        · rfl
        · next h => cases h
      change (giveUp e).Records (stage.outcomes (.error e)) _
      rw [failed]
      exact (giveUp_records user).mono fun _ _ => trivial

end Poll

namespace Routine

variable {s : Session}

theorem startPolling_records : startPolling.Records [] fun _ => True := by
  intro s quiet
  unfold startPolling
  rw [Turn.exec_bind, Turn.exec_get]
  dsimp only
  split <;> exact ⟨quiet, rfl, trivial⟩

theorem checked_records (a : Answered) :
    (Turn.ofExcept a >>= Poll.probed).Records (Asked.probe.outcomes a) fun _ => True := by
  cases a with
  | ok reply =>
    refine Turn.Records.nil_bind (.ofExcept _) (fun r hr => ?_) fun _ h => by cases h
    cases hr
    exact (Poll.probed_records reply).mono fun _ _ => trivial
  | error e =>
    exact Turn.Records.nil_bind (.ofExcept _) (fun _ h => by cases h) fun _ h => ⟨rfl, trivial⟩

theorem firstAnswer_records (a : Answered) :
    (firstAnswer a).Records (Asked.firstProbe.outcomes a) fun _ => True := by
  unfold firstAnswer
  split
  · exact (Turn.record_records false).bind (fun _ _ => startPolling_records) fun _ h => by cases h.1
  · next other =>
    have same : Asked.firstProbe.outcomes a = Asked.probe.outcomes a := by
      cases a with
      | ok reply => rfl
      | error e =>
        cases e with
        | refused e => exact absurd rfl (other e)
        | fault f => rfl
    rw [same, ← bind_assoc, ← List.append_nil (Asked.probe.outcomes a)]
    exact (checked_records a).bind (fun _ _ => startPolling_records) fun _ _ => ⟨rfl, trivial⟩

theorem probeAnswer_records (a : Answered) :
    (probeAnswer a).Records (Asked.probe.outcomes a) fun _ => True := by
  unfold probeAnswer
  rw [← bind_assoc, ← List.append_nil (Asked.probe.outcomes a)]
  exact (checked_records a).bind (fun _ _ => .pure trivial) fun _ _ => ⟨rfl, trivial⟩

/-- What a poll is for makes no difference to what it learns. -/
theorem conclude_alike (purpose : Purpose) (t : Turn Poll.Next) (s : Session) :
    (t.exec s).2.Alike ((conclude purpose t).exec s).2 := by
  unfold conclude
  cases purpose with
  | answer =>
    rw [Turn.exec_bind]
    rcases t.exec s with ⟨_ | ⟨_ | _⟩, u⟩ <;> exact ⟨rfl, rfl⟩
  | refresh =>
    rw [Turn.exec_bind]
    rcases t.exec s with ⟨_ | ⟨_ | _⟩, u⟩ <;> exact ⟨rfl, rfl⟩
  | followUp id toggle =>
    rw [Turn.exec_bind, Turn.exec_tryCatch]
    rcases t.exec s with ⟨e | ⟨x | complete⟩, u⟩
    · obtain ⟨r, hr, -⟩ := exec_settle id toggle u
      dsimp only
      rw [Turn.exec_bind, hr]
      cases r <;> exact u.alike_settled (.followUp id toggle)
    · exact ⟨rfl, rfl⟩
    · obtain ⟨r, hr, -⟩ := exec_settle id toggle u
      dsimp only
      rw [Turn.exec_bind, hr]
      cases r <;> exact u.alike_settled (.followUp id toggle)

/-- In a quiet session the turn that takes an answer takes its outcomes down. -/
theorem health_answered (now : Moment) (k : Asked) (a : Answered) (quiet : s.Quiet) :
    ((answered now k a).exec s).2.health = s.health.after (k.outcomes a) := by
  cases k with
  | firstProbe => exact (firstAnswer_records a s quiet).2.1
  | probe => exact (probeAnswer_records a s quiet).2.1
  | poll stage purpose =>
    change ((conclude purpose (Poll.resume now stage a)).exec s).2.health = _
    rw [(conclude_alike purpose _ s).health]
    exact (Poll.resume_records now stage a s quiet).2.1
  | order stage => exact (proceed_held stage a s).alike.health

end Routine
end BatteryLink
