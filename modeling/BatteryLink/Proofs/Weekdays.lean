import BatteryLink.Weekdays
import Mathlib.Data.List.Basic
/-!
Sets of weekdays. Whatever a description says, the mask has no bits but those of the seven days.
-/
namespace BatteryLink.Weekdays

variable {m n : Nat}

/-- A mask that has bits for days of the week only. -/
def Mask (m : Nat) : Prop := m < 2 ^ 7

instance : DecidablePred Mask := fun m => inferInstanceAs (Decidable (m < 2 ^ 7))

theorem Mask.or (hm : Mask m) (hn : Mask n) : Mask (m ||| n) := Nat.or_lt_two_pow hm hn

theorem mask_bit {day : Nat} (h : day < 7) : Mask (bit day) :=
  Nat.pow_lt_pow_right Nat.one_lt_two h

theorem mask_zero : Mask 0 := Nat.two_pow_pos 7

theorem Mask.foldl {days : List Nat} (hm : Mask m) (h : ∀ d ∈ days, d < 7) :
    Mask (days.foldl (fun m d => m ||| bit d) m) := by
  induction days generalizing m with
  | nil => exact hm
  | cons d days ih =>
    obtain ⟨hd, rest⟩ := List.forall_mem_cons.mp h
    exact ih (hm.or (mask_bit hd)) rest

theorem mask_span (first last : Nat) : Mask (span first last) := by
  apply mask_zero.foldl
  intro d hd
  exact List.mem_range.mp (List.mem_filter.mp hd).1

theorem dayIndex?_lt {code : List Char} {day : Nat} (h : dayIndex? code = some day) : day < 7 := by
  obtain ⟨bound, -⟩ := List.findIdx?_eq_some_iff_getElem.mp h
  exact bound

theorem mask_range {word : List Char} (h : range word = .ok m) : Mask m := by
  unfold range at h
  dsimp only at h
  split at h
  · split at h
    · cases h
    · cases h
      exact mask_span _ _
  · cases h

theorem mask_part {raw : List Char} (h : part raw = .ok m) : Mask m := by
  unfold part at h
  dsimp only at h
  split at h
  · cases h
    exact mask_zero
  · split at h
    · cases h
      decide
    · split at h
      · cases h
        decide
      · split at h
        · exact mask_range h
        · split at h
          · next d hd =>
            split at h
            · cases h
              exact mask_bit (dayIndex?_lt hd)
            · cases h
          · cases h

theorem Mask.union {parts : List (List Char)} (hm : Mask m) (h : union m parts = .ok n) : Mask n := by
  induction parts generalizing m with
  | nil =>
    cases h
    exact hm
  | cons p ps ih =>
    unfold Weekdays.union at h
    split at h
    · next days hp => exact ih (hm.or (mask_part hp)) h
    · cases h

theorem mask_ofValue {v : Value} (h : ofValue v = .ok m) : Mask m := by
  unfold ofValue at h
  split at h
  · cases h
  · split at h
    · next mask hp =>
      cases h
      exact mask_zero.union hp
    · cases h

end BatteryLink.Weekdays
