import BatteryLink.Proofs.Binary64
import BatteryLink.Proofs.Stopping
import BatteryLink.Setting
import BatteryLink.Settings
import Mathlib.Algebra.Order.Ring.Int
/-!
What settings can hold. What a control channel has taken always makes a good request, and only a
whole number that no double can hold is beyond what the channels have a word for.
-/
namespace BatteryLink

namespace Binary64

theorem le_signed_div {i : Int} {s : Bool} {n d : Nat} (pos : 0 < d) (h : i * d ≤ signed s n) :
    i ≤ signed s (n / d) := by
  have pos' : (0 : Int) < d := Int.natCast_pos.mpr pos
  cases s with
  | false =>
    change i * d ≤ (n : Int) at h
    change i ≤ ((n / d : Nat) : Int)
    rw [Int.natCast_ediv]
    exact Int.le_ediv_of_mul_le pos' h
  | true =>
    change i * d ≤ -(n : Int) at h
    change i ≤ -((n / d : Nat) : Int)
    have whole : ((n / d : Nat) : Int) * d ≤ n := by
      rw [← Int.natCast_mul]
      exact Int.ofNat_le.mpr (Nat.div_mul_le_self n d)
    refine Int.le_of_mul_le_mul_right ?_ pos'
    rw [Int.neg_mul]
    omega

theorem signed_div_le {i : Int} {s : Bool} {n d : Nat} (pos : 0 < d) (h : signed s n ≤ i * d) :
    signed s (n / d) ≤ i := by
  have : -i ≤ signed (!s) (n / d) := by
    apply le_signed_div pos
    cases s <;> simp only [signed] at h ⊢ <;> simp at h ⊢ <;> omega
  cases s <;> simp only [signed] at this ⊢ <;> simp at this ⊢ <;> omega

/-- The whole part lies between the same whole numbers as the number. -/
theorem truncate_between {f : Binary64} {low high i : Int} (hl : intLe low f = true)
    (hh : f.leInt high = true) (h : f.truncate = .ok i) : low ≤ i ∧ i ≤ high := by
  cases f with
  | infinite s => cases h
  | nan => cases h
  | finite s m e =>
    have pos := ratio_pos m e
    cases h
    exact ⟨le_signed_div pos (of_decide_eq_true hl), signed_div_le pos (of_decide_eq_true hh)⟩

end Binary64

namespace Setting

theorem boundedInt_between {low high i : Int} {v : Value} (h : boundedInt low high v = .ok i) :
    low ≤ i ∧ i ≤ high := by
  obtain ⟨f, -, h⟩ := bind_eq_ok.mp h
  split at h
  · cases h
  · next hl =>
    split at h
    · cases h
    · next hh =>
      split at h
      · next j hj =>
        cases h
        simp only [Bool.not_eq_true', Bool.not_eq_false] at hl hh
        exact Binary64.truncate_between hl hh hj
      · cases h

/-- Whole numbers that are too large for a double, with a unit or without. -/
def Vast (v : Value) : Prop := ∃ i, plain v = .int i ∧ Binary64.ofInt? i = none

theorem ofChars_ne_fault (s : List Char) (f : Fault) :
    toNumber.ofChars s ≠ .error (.fault f) := by
  unfold toNumber.ofChars
  split <;> simp [complain]

theorem toNumber_fault_iff {v : Value} {f : Fault} :
    toNumber v = .error (.fault f) ↔
      (∃ i, v = .int i ∧ Binary64.ofInt? i = none) ∧ f = .tooLargeForDouble := by
  unfold toNumber
  split
  · simp
  · next i =>
    cases h : Binary64.ofInt? i with
    | some d => simp [h]
    | none => simp [h, eq_comm]
  · simp
  · simp [ofChars_ne_fault]
  · next hb hi hf ho =>
    split
    · next hv => simpa [ofChars_ne_fault] using fun i hv => absurd hv (hi i)
    · simpa [complain] using fun i hv => absurd hv (hi i)

theorem boundedInt_fault_iff {low high : Int} {v : Value} {f : Fault} :
    boundedInt low high v = .error (.fault f) ↔ Vast v ∧ f = .tooLargeForDouble := by
  unfold boundedInt
  rw [bind_eq_error, toNumber_fault_iff]
  refine ⟨fun h => h.resolve_right ?_, .inl⟩
  rintro ⟨d, -, h⟩
  split at h
  · cases h
  · split at h
    · cases h
    · split at h <;> cases h

end Setting

/-- A power and a time that the device can be asked for. -/
structure PassiveSetting.InRange (p : PassiveSetting) : Prop where
  power : -Check.maxPower ≤ p.power ∧ p.power ≤ Check.maxPower
  countdown : 0 ≤ p.countdown ∧ p.countdown ≤ Check.maxCountdown

theorem PassiveSetting.inRange_default : ({} : PassiveSetting).InRange :=
  ⟨by decide, by decide⟩

theorem Json.memberName_text (s : String) :
    memberName (.text s) = .ok (Text.Symbols.ofString s) := rfl

namespace Request

theorem intText_of_small {i : Int} (h : i.natAbs ≤ 86400) : ∃ t, Value.intText i = .ok t := by
  have long : (10 : Nat) ^ 5 ≤ 10 ^ Reading.maxIntDigits :=
    Nat.pow_le_pow_right (by decide) (by decide)
  refine ⟨toString i, ?_⟩
  unfold Value.intText
  rw [if_neg (by omega)]

theorem command_passive (power countdown : Int) :
    Check.command (envelope (text Method.setMode.name)
        (object [("id", .int 0), ("config", passiveMode (.int power) (.int countdown))])) =
      (do
        Check.power (.int power) "power"
        Check.countdown (.int countdown) "cd_time") := rfl

/-- Settings in range always make a good request. -/
theorem passive_of_inRange {p : PassiveSetting} (h : p.InRange) :
    ∃ payload, passive (.int p.power) (.int p.countdown) = .ok payload := by
  obtain ⟨hp, hc⟩ := h
  have checked := command_passive p.power p.countdown
  have power : Check.power (.int p.power) "power" = .ok () := if_pos hp
  have countdown : Check.countdown (.int p.countdown) "cd_time" = .ok () := if_pos hc
  rw [power, countdown] at checked
  unfold Check.maxPower at hp
  unfold Check.maxCountdown at hc
  obtain ⟨zero, hzero⟩ := intText_of_small (i := 0) (by decide)
  obtain ⟨watts, hwatts⟩ := intText_of_small (i := p.power) (by omega)
  obtain ⟨seconds, hseconds⟩ := intText_of_small (i := p.countdown) (by omega)
  have written : ∃ s, Json.write (envelope (text Method.setMode.name)
      (object [("id", .int 0), ("config", passiveMode (.int p.power) (.int p.countdown))])) =
        .ok s := by
    simp [envelope, object, passiveMode, text, number, Value.truthy, Json.write, Value.maxDepth,
      Json.writeWithin, Json.writeMembers, Json.memberName_text, hzero, hwatts, hseconds, bind,
      Except.bind]
  obtain ⟨payload, hpayload⟩ := written
  refine ⟨payload, ?_⟩
  unfold passive setMode build
  simp only [checked, hpayload]
  rfl

end Request
end BatteryLink
