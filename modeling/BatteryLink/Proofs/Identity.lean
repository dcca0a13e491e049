import BatteryLink.Proofs.Outcomes
import BatteryLink.Proofs.Replies
/-!
What a reply tells about who the device is. Looking for an identity in a datagram runs into a fault
only if the datagram is nested too deep to be read: what has been read can be written out.
-/
namespace BatteryLink

open Text (Symbols)

theorem Value.Printable.symbols {v : Value} (h : v.Printable) : ∃ s, v.symbols = .ok s := by
  obtain ⟨t, ht⟩ : ∃ t, v.shown = .ok t := h
  unfold Value.symbols
  split
  · exact ⟨_, rfl⟩
  · rw [ht]
    exact ⟨_, rfl⟩

namespace Identity

theorem textOr_total {v : Value} (h : v.Printable) (usual : String) : ∃ s, textOr usual v = .ok s := by
  unfold textOr
  split
  · exact h.symbols
  · exact ⟨_, rfl⟩

theorem printable_get {r : Reply.Entries} (h : ∀ e ∈ r, e.2.Printable) (key : String) {usual : Value}
    (hu : usual.Printable) : ((Value.get? key r).getD usual).Printable := by
  cases hv : Value.get? key r with
  | none => exact hu
  | some v =>
    obtain ⟨k, hk⟩ := Value.mem_of_get? hv
    exact h _ hk

/-- A result whose values can be written out tells who the device is, or that it does not tell. -/
theorem ofResult_total {r : Reply.Entries} (h : ∀ e ∈ r, e.2.Printable) : ∃ i, ofResult r = .ok i := by
  have text (key usual : String) : ∃ s, textOr usual (Value.get key r) = .ok s :=
    textOr_total (printable_get h key (Value.printable_plain rfl rfl)) usual
  obtain ⟨deviceType, h₁⟩ := text "device" "Unknown"
  have zero : (Value.int 0).Printable := Value.printable_int.mpr (by simp)
  obtain ⟨firmware, h₂⟩ := (printable_get h "ver" zero).symbols
  obtain ⟨bluetooth, h₃⟩ := text "ble_mac" ""
  obtain ⟨wifi, h₄⟩ := text "wifi_mac" ""
  obtain ⟨wifiName, h₅⟩ := text "wifi_name" ""
  obtain ⟨ip, h₆⟩ := text "ip" ""
  unfold ofResult
  split
  · rw [h₁, h₂, h₃, h₄, h₅, h₆]
    exact ⟨_, rfl⟩
  · exact ⟨none, rfl⟩

end Identity

namespace Reply

/-- The identity that a reply tells, if it tells one. -/
def identity? (octets : Octets) : Option Identity :=
  match decode octets with
  | .ok r => (Identity.ofResult r).toOption.join
  | .error _ => none

end Reply

namespace Poll

variable {octets : Octets} {s : Session}

/-- Replies that are short enough, and are read or refused. -/
structure Readable (octets : Octets) : Prop where
  short : octets.length ≤ Reading.maxIntDigits
  read : ∀ f, Reply.decode octets ≠ .error (.fault f)

theorem readable_of_shallow (short : octets.length ≤ Reading.maxIntDigits)
    (shallow : Json.levels octets ≤ Value.maxDepth) : Readable octets := by
  refine ⟨short, fun f hf => ?_⟩
  rcases Reply.decode_or_refused short shallow with ⟨r, hr⟩ | ⟨p, hp⟩
  · cases hf.symm.trans hr
  · cases hf.symm.trans hp

/-- A reply that tells who the device is changes what is known of that, and no other reply does. -/
theorem exec_identify_readable (readable : Readable octets) (s : Session) :
    (identify octets).exec s = (.ok (), { s with identity := (Reply.identity? octets).or s.identity }) := by
  unfold identify Reply.identity?
  obtain ⟨r, hr⟩ | ⟨p, hp⟩ | ⟨-, doing, hf⟩ := Reply.decode_cases readable.short
  · obtain ⟨i, hi⟩ := Identity.ofResult_total (Reply.printable_decode readable.short hr)
    rw [hr]
    dsimp only
    rw [hi]
    cases i <;> rfl
  · rw [hp]
    rfl
  · exact absurd hf (readable.read _)

/-- A reply that cannot be read tells nothing, and it is a failure to look at it. -/
theorem exec_identify_fault {f : Fault} (h : Reply.decode octets = .error (.fault f)) (s : Session) :
    (identify octets).exec s = (.error (.fault f), s) := by
  unfold identify
  rw [h]
  rfl

/-- What the reply to a probe tells of the device. -/
def learned (reply : Option Octets) : Option Identity := reply.bind Reply.identity?

theorem exists_of_responds {reply : Option Octets} (h : responds reply = true) :
    ∃ o os, reply = some (o :: os) := by
  unfold responds at h
  split at h
  · cases h
  · cases h
  · next octets filled =>
    cases octets with
    | nil => exact absurd rfl filled
    | cons o os => exact ⟨o, os, rfl⟩

theorem probed_silent {reply : Option Octets} (h : responds reply = false) :
    probed reply = Turn.record false >>= fun _ => pure false := by
  unfold responds at h
  split at h
  · rfl
  · rfl
  · cases h

theorem learned_of_silent {reply : Option Octets} (h : responds reply = false) : learned reply = none := by
  unfold responds at h
  split at h
  · rfl
  · exact (by decide +kernel : Reply.identity? [] = none)
  · cases h

theorem exec_record_quiet (quiet : s.Quiet) (reachable : Bool) :
    (Turn.record reachable).exec s = (.ok (), s.recorded reachable) := by
  obtain ⟨r, hr, -⟩ := Turn.exec_record reachable s
  obtain ⟨-, -, fine⟩ := Turn.record_records reachable s quiet
  rw [hr] at fine ⊢
  cases r with
  | ok => rfl
  | error e => cases fine.1

/-- The answer to a probe: its outcome is taken down, and then what it tells of the device. -/
theorem exec_probed_quiet (quiet : s.Quiet) (reply : Option Octets)
    (readable : ∀ octets ∈ reply, Readable octets) :
    (probed reply).exec s = (.ok (responds reply),
      { s.recorded (responds reply) with
        identity := (learned reply).or (s.recorded (responds reply)).identity }) := by
  cases there : responds reply with
  | false =>
    rw [probed_silent there, Turn.exec_bind, exec_record_quiet quiet, learned_of_silent there]
    rfl
  | true =>
    obtain ⟨o, os, rfl⟩ := exists_of_responds there
    change (Turn.record true >>= fun _ => identify (o :: os) >>= fun _ => pure true).exec s = _
    rw [Turn.exec_bind, exec_record_quiet quiet]
    dsimp only
    rw [Turn.exec_bind, exec_identify_readable (readable _ rfl)]
    rfl

/-- Octets that cannot be read are taken down as a success before that is noticed. -/
theorem exec_probed_fault (quiet : s.Quiet) {f : Fault} (h : Reply.decode octets = .error (.fault f)) :
    (probed (some octets)).exec s = (.error (.fault f), s.recorded true) := by
  cases octets with
  | nil =>
    have readable : Readable [] := readable_of_shallow (by decide) (by decide +kernel)
    exact absurd h (readable.read f)
  | cons o os =>
    change (Turn.record true >>= fun _ => identify (o :: os) >>= fun _ => pure true).exec s = _
    rw [Turn.exec_bind, exec_record_quiet quiet]
    dsimp only
    rw [Turn.exec_bind, exec_identify_fault h]

end Poll
end BatteryLink
