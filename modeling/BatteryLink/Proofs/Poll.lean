import BatteryLink.Proofs.Foreign
import BatteryLink.Proofs.Turn
import BatteryLink.Session.Poll
import Mathlib.Logic.Relation
/-!
The turns of polls and probes. Whatever the device does, each of them is made of five acts, which
leave everything alone that orders, settings and jobs are about.
-/
namespace BatteryLink

namespace Status

theorem channel_of_update {f : Field} {result : Reply.Entries} {u : String × Value}
    (h : update f result = .ok (some u)) : u.1 = f.channel := by
  unfold update at h
  split at h
  · cases h
  · obtain ⟨w, -, hw⟩ := bind_eq_ok.mp h
    obtain ⟨v, -, rfl⟩ := Option.map_eq_some_iff.mp (Except.ok.inj hw)
    rfl

theorem channel_of_updatesOf {result : Reply.Entries} {fs : List Field}
    {us : List (String × Value)} (h : updatesOf result fs = .ok us) :
    ∀ u ∈ us, u.1 ∈ fs.map (·.channel) := by
  induction fs generalizing us with
  | nil =>
    cases h
    intro u hu
    cases hu
  | cons f fs ih =>
    obtain ⟨w, hw, h⟩ := bind_eq_ok.mp h
    obtain ⟨vs, hvs, h⟩ := bind_eq_ok.mp h
    cases h
    intro u hu
    rcases List.mem_append.mp hu with hu | hu
    · cases Option.mem_toList.mp hu
      exact List.mem_cons.mpr (.inl (channel_of_update hw))
    · exact List.mem_cons_of_mem _ (ih hvs u hu)

end Status

namespace Poll

/-- The channels that polls publish on. -/
def channels : List String :=
  lastUpdateChannel :: Method.all.flatMap fun m => (Status.fields m).map (·.channel)

theorem channel_of_updates {m : Method} {result : Reply.Entries} {us : List (String × Value)}
    (h : Status.updates m result = .ok us) : ∀ u ∈ us, u.1 ∈ channels := by
  intro u hu
  have hm : m ∈ Method.all := by cases m <;> decide
  have := Status.channel_of_updatesOf h u hu
  exact List.mem_cons_of_mem _ (List.mem_flatMap.mpr ⟨m, hm, this⟩)

/-- The acts that polls and probes are made of. -/
inductive Act : Session → Session → Prop
  | recorded (s : Session) (reachable : Bool) : Act s (s.recorded reachable)
  | published (s : Session) {channel : String} (content : Published) :
      s.hears channel = true → channel ∈ channels → Act s (s.emit (.published channel content))
  | identified (s : Session) (i : Identity) : Act s { s with identity := some i }
  | completed (s : Session) (now : Moment) :
      Act s { s with lastUpdate := some now, lastError := none }
  | failed (s : Session) (text : String) : Act s { s with lastError := some text }

/-- One act of polls after another. -/
abbrev Path : Session → Session → Prop := Relation.ReflTransGen Act

/-- Polls change what is known of the device and what is said of it, and nothing else. -/
def Spares (s u : Session) : Prop :=
  ∃ health identity lastUpdate lastError outbox,
    u = { s with health, identity, lastUpdate, lastError, outbox }

theorem Spares.refl (s : Session) : Spares s s := ⟨_, _, _, _, _, rfl⟩

theorem Spares.trans {s u v : Session} (h : Spares s u) (k : Spares u v) : Spares s v := by
  obtain ⟨_, _, _, _, _, rfl⟩ := h
  obtain ⟨_, _, _, _, _, rfl⟩ := k
  exact ⟨_, _, _, _, _, rfl⟩

theorem Spares.disposed {s u : Session} (h : Spares s u) : u.disposed = s.disposed := by
  obtain ⟨_, _, _, _, _, rfl⟩ := h
  rfl

theorem Spares.host {s u : Session} (h : Spares s u) : u.host = s.host := by
  obtain ⟨_, _, _, _, _, rfl⟩ := h
  rfl

theorem spares_told (s : Session) (status : DeviceStatus) (detail : Option String) :
    Spares s (s.told status detail) := by
  unfold Session.told
  split <;> exact ⟨_, _, _, _, _, rfl⟩

theorem Act.spares {s u : Session} (h : Act s u) : Spares s u := by
  cases h with
  | recorded reachable =>
    unfold Session.recorded
    dsimp only
    split
    · exact ⟨_, _, _, _, _, rfl⟩
    · exact Spares.trans (u := { s with health := _ }) ⟨_, _, _, _, _, rfl⟩ (spares_told _ _ _)
  | published content hears known => exact ⟨_, _, _, _, _, rfl⟩
  | identified i => exact ⟨_, _, _, _, _, rfl⟩
  | completed now => exact ⟨_, _, _, _, _, rfl⟩
  | failed text => exact ⟨_, _, _, _, _, rfl⟩

theorem Path.spares {s u : Session} (h : Path s u) : Spares s u := by
  induction h with
  | refl => exact .refl s
  | tail _ act ih => exact ih.trans act.spares

/-- What polls say: news of the status, and updates of their own channels. -/
inductive Says : Notice → Prop
  | reported (status : DeviceStatus) (detail : Option String) : Says (.reported status detail)
  | published {channel : String} (content : Published) :
      channel ∈ channels → Says (.published channel content)

theorem Act.says {s u : Session} (h : Act s u) :
    ∃ ns, u.outbox = s.outbox ++ ns ∧ ∀ n ∈ ns, Says n := by
  cases h with
  | recorded reachable =>
    unfold Session.recorded
    dsimp only
    split
    · exact ⟨[], by simp⟩
    · unfold Session.told
      split
      · exact ⟨[], by simp⟩
      · exact ⟨[_], rfl, by simpa using .reported _ _⟩
  | published content hears known =>
    exact ⟨[_], rfl, by simpa using .published content known⟩
  | identified i => exact ⟨[], by simp⟩
  | completed now => exact ⟨[], by simp⟩
  | failed text => exact ⟨[], by simp⟩

theorem Path.says {s u : Session} (h : Path s u) :
    ∃ ns, u.outbox = s.outbox ++ ns ∧ ∀ n ∈ ns, Says n := by
  induction h with
  | refl => exact ⟨[], by simp⟩
  | tail _ act ih =>
    obtain ⟨ns, hns, hs⟩ := ih
    obtain ⟨ms, hms, hm⟩ := act.says
    refine ⟨ns ++ ms, by rw [hms, hns, List.append_assoc], ?_⟩
    intro n hn
    exact (List.mem_append.mp hn).elim (hs n) (hm n)

end Poll

/-- In a session whose flag of disposal is `d` and whose host application is `host` a turn follows a
path of polls, and `Q` holds of its result. -/
def Turn.Walks {α : Type} (d : Bool) (host : Host) (t : Turn α) (Q : Except Trouble α → Prop) : Prop :=
  ∀ s, s.disposed = d → s.host = host → Poll.Path s (t.exec s).2 ∧ Q (t.exec s).1

namespace Turn.Walks

variable {α β : Type} {d : Bool} {host : Host} {t : Turn α} {P Q : Except Trouble α → Prop}
  {R : Except Trouble β → Prop}

theorem pure {a : α} (h : Q (.ok a)) : (Pure.pure a : Turn α).Walks d host Q :=
  fun _ _ _ => ⟨.refl, h⟩

theorem fail {f : Fault} (h : Q (.error (.fault f))) : (Turn.fail f : Turn α).Walks d host Q :=
  fun _ _ _ => ⟨.refl, h⟩

theorem mono (ht : t.Walks d host P) (hok : ∀ a, P (.ok a) → Q (.ok a))
    (he : ∀ e, P (.error e) → Q (.error e)) : t.Walks d host Q := by
  intro s hs hh
  obtain ⟨hp, hq⟩ := ht s hs hh
  refine ⟨hp, ?_⟩
  rcases h : (t.exec s).1 with e | a <;> rw [h] at hq
  · exact he e hq
  · exact hok a hq

theorem bind {f : α → Turn β} (ht : t.Walks d host P) (hf : ∀ a, P (.ok a) → (f a).Walks d host R)
    (he : ∀ e, P (.error e) → R (.error e)) : (t >>= f).Walks d host R := by
  intro s hs hh
  obtain ⟨hp, hq⟩ := ht s hs hh
  rw [exec_bind]
  rcases h : t.exec s with ⟨e | a, u⟩ <;> rw [h] at hp hq
  · exact ⟨hp, he e hq⟩
  · obtain ⟨hp', hq'⟩ := hf a hq u (hp.spares.disposed.trans hs) (hp.spares.host.trans hh)
    exact ⟨hp.trans hp', hq'⟩

theorem tryCatch {f : Trouble → Turn α} (ht : t.Walks d host P) (hok : ∀ a, P (.ok a) → Q (.ok a))
    (hf : ∀ e, P (.error e) → (f e).Walks d host Q) : (MonadExcept.tryCatch t f).Walks d host Q := by
  intro s hs hh
  obtain ⟨hp, hq⟩ := ht s hs hh
  rw [exec_tryCatch]
  rcases h : t.exec s with ⟨e | a, u⟩ <;> rw [h] at hp hq
  · obtain ⟨hp', hq'⟩ := hf e hq u (hp.spares.disposed.trans hs) (hp.spares.host.trans hh)
    exact ⟨hp.trans hp', hq'⟩
  · exact ⟨hp, hok a hq⟩

end Turn.Walks

namespace Poll

/-- A trouble that what is done with data makes, or the host application. -/
def Ordinary (host : Host) (e : Trouble) : Prop :=
  e.OfHost host ∨ ∃ f, e = .fault f ∧ f.isForeign = false

/-- Results without any trouble but what the host application makes. -/
def OnlyHost {α : Type} (host : Host) : Except Trouble α → Prop
  | .ok _ => True
  | .error e => e.OfHost host

/-- Results whose troubles are ordinary. -/
def NoneWorse {α : Type} (host : Host) : Except Trouble α → Prop
  | .ok _ => True
  | .error e => Ordinary host e

theorem ordinary_fault {f : Fault} (h : f.isForeign = false) : Ordinary host (.fault f) :=
  .inr ⟨f, rfl, h⟩

variable {d : Bool} {host : Host}

theorem record_walks (reachable : Bool) : (Turn.record reachable).Walks d host (OnlyHost host) := by
  rintro s - rfl
  obtain ⟨r, hr, he⟩ := Turn.exec_record reachable s
  rw [hr]
  refine ⟨.single (.recorded s reachable), ?_⟩
  cases r with
  | ok => trivial
  | error e => exact he e rfl

theorem publish_walks {channel : String} (content : Published) (known : channel ∈ channels) :
    (Turn.publish channel content).Walks d host (OnlyHost host) := by
  rintro s - rfl
  obtain ⟨r, hr, he⟩ := Turn.exec_publish channel content s
  rw [hr]
  constructor
  · by_cases h : s.hears channel = true
    · rw [if_pos h]
      exact .single (.published s content h known)
    · rw [if_neg h]
  · cases r with
    | ok => trivial
    | error e => exact he e rfl

theorem identify_walks (octets : Octets) : (identify octets).Walks d host (NoneWorse host) := by
  unfold identify
  split
  · exact .pure trivial
  · next f hf => exact .fail (ordinary_fault (Reply.homely_decode octets _ f hf rfl))
  · next r _ =>
    split
    · next f hf => exact .fail (ordinary_fault (Identity.homely_ofResult r f f hf rfl))
    · exact .pure trivial
    · next i _ => exact fun s _ _ => ⟨.single (.identified s i), trivial⟩

theorem probed_walks (reply : Option Octets) : (probed reply).Walks d host (NoneWorse host) := by
  unfold probed
  split
  · exact (record_walks false).bind (fun _ _ => .pure trivial) (fun _ => .inl)
  · exact (record_walks false).bind (fun _ _ => .pure trivial) (fun _ => .inl)
  · exact (record_walks true).bind
      (fun _ _ => (identify_walks _).bind (fun _ _ => .pure trivial) fun _ h => h) (fun _ => .inl)

theorem publishAll_walks {us : List (String × Value)} (known : ∀ u ∈ us, u.1 ∈ channels) :
    (publishAll us).Walks d host (NoneWorse host) := by
  induction us with
  | nil => exact .pure trivial
  | cons u us ih =>
    have hu := known u List.mem_cons_self
    have hus := ih fun v hv => known v (List.mem_cons_of_mem _ hv)
    exact (publish_walks _ hu).bind (fun _ _ => hus) (fun _ => .inl)

theorem absorb_walks (m : Method) (reply : Option Octets) : (absorb m reply).Walks d host (NoneWorse host) := by
  unfold absorb
  split
  · exact .pure trivial
  · next octets =>
    split
    · exact .pure trivial
    · next f hf => exact .fail (ordinary_fault (Reply.homely_decode octets _ f hf rfl))
    · next r _ =>
      split
      · next f hf => exact .fail (ordinary_fault (Status.homely_updates m r f f hf rfl))
      · next us hus => exact publishAll_walks (channel_of_updates hus)

/-- How many exchanges a poll has before it at most, the one that it waits for included. -/
def Stage.left : Stage → Nat
  | probe => 7
  | query _ rest => rest.length + 1

/-- A poll goes on only in a session that is not disposed of, and then with `n` exchanges left. -/
def GoesOn (d : Bool) (n : Nat) : Next → Prop
  | .ask _ stage => d = false ∧ stage.left = n
  | .ended _ => True

theorem goOn_walks (now : Moment) (ms : List Method) :
    (goOn now ms).Walks d host fun
      | .ok next => GoesOn d ms.length next
      | .error e => Ordinary host e := by
  cases ms with
  | nil =>
    unfold goOn
    have completed : (modify fun s => { s with lastUpdate := some now, lastError := none } :
        Turn Unit).Walks d host (NoneWorse host) := fun s _ _ => ⟨.single (.completed s now), trivial⟩
    refine completed.bind (fun _ _ => ?_) (fun _ h => h)
    exact (publish_walks _ List.mem_cons_self).bind (fun _ _ => .pure trivial) (fun _ => .inl)
  | cons m rest =>
    intro s hs _
    unfold goOn
    cases d with
    | true => simp [hs, GoesOn, Relation.ReflTransGen.refl]
    | false => simp [hs, GoesOn, Stage.left, Relation.ReflTransGen.refl]

theorem begin_walks :
    begin.Walks d host fun
      | .ok next => GoesOn d 7 next
      | .error _ => False := by
  intro s hs _
  unfold begin
  cases d with
  | true => simp [hs, GoesOn, Relation.ReflTransGen.refl]
  | false => simp [hs, GoesOn, Stage.left, Relation.ReflTransGen.refl]

theorem ofExcept_walks {α : Type} (x : Except Trouble α) : (Turn.ofExcept x).Walks d host (· = x) := by
  intro s _ _
  rw [Turn.exec_ofExcept]
  exact ⟨.refl, rfl⟩

/-- A trouble in a turn of a poll is the one that the turn was handed, or ordinary. -/
theorem proceed_walks (now : Moment) (stage : Stage) (a : Answered) :
    (proceed now stage a).Walks d host fun
      | .ok next => GoesOn d (stage.left - 1) next
      | .error e => a = .error e ∨ Ordinary host e := by
  cases stage with
  | probe =>
    unfold proceed
    refine (ofExcept_walks a).bind (fun reply _ => ?_) (fun e h => .inl h.symm)
    refine (probed_walks reply).bind (fun there _ => ?_) (fun e h => .inr h)
    cases there with
    | true =>
      apply (goOn_walks now Method.statusQueries).mono (fun _ h => h)
      intro e h
      exact .inr h
    | false => exact .pure trivial
  | query m rest =>
    unfold proceed
    refine (ofExcept_walks a).bind (fun reply _ => ?_) (fun e h => .inl h.symm)
    refine (absorb_walks m reply).bind (fun _ _ => ?_) (fun e h => .inr h)
    apply (goOn_walks now rest).mono (fun _ h => h)
    intro e h
    exact .inr h

/-- The troubles that come out of a poll: what the host application makes of its last words, and an
interrupt. -/
def Escapes (host : Host) (a : Answered) (e : Trouble) : Prop :=
  e.OfHost host ∨ (a = .error e ∧ e.OfUser)

theorem giveUp_walks {a : Answered} {e : Trouble} (h : a = .error e ∨ Ordinary host e) :
    (giveUp e).Walks d host fun
      | .ok next => ∀ n, GoesOn d n next
      | .error e => Escapes host a e := by
  unfold giveUp
  split
  · next message =>
    refine .fail ?_
    rcases h with h | ⟨m, hm, -⟩ | ⟨f, hf, native⟩
    · exact .inr ⟨h, message, rfl⟩
    · cases hm
    · cases hf
      cases native
  · next t _ =>
    have failed : (modify fun s => { s with lastError := some (troubleText e) } :
        Turn Unit).Walks d host (· = .ok ()) := fun s _ _ => ⟨.single (.failed s _), rfl⟩
    refine failed.bind (fun _ _ => ?_) fun e h => ?_
    · exact (record_walks false).bind (fun _ _ => .pure fun _ => trivial) fun _ => .inl
    · cases h

/-- With every answer a poll comes one exchange nearer to its end. -/
theorem resume_walks (now : Moment) (stage : Stage) (a : Answered) :
    (resume now stage a).Walks d host fun
      | .ok next => GoesOn d (stage.left - 1) next
      | .error e => Escapes host a e :=
  (proceed_walks now stage a).tryCatch (fun _ h => h) fun _ he =>
    (giveUp_walks he).mono (fun _ h => h _) fun _ h => h

end Poll
end BatteryLink
