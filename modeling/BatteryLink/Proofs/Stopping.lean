import BatteryLink.Fault
import Mathlib.Logic.Basic
/-!
Computations that may stop: what is known of their parts when the result of the whole is known.
-/
namespace BatteryLink

variable {ε α β : Type}

theorem bind_eq_ok {x : Except ε α} {f : α → Except ε β} {b : β} :
    x >>= f = .ok b ↔ ∃ a, x = .ok a ∧ f a = .ok b := by
  cases x <;> simp [bind, Except.bind]

theorem bind_eq_error {x : Except ε α} {f : α → Except ε β} {e : ε} :
    x >>= f = .error e ↔ x = .error e ∨ ∃ a, x = .ok a ∧ f a = .error e := by
  cases x <;> simp [bind, Except.bind]

theorem exists_bind_eq_ok {x : Except ε α} {f : α → Except ε β} :
    (∃ b, x >>= f = .ok b) ↔ ∃ a, x = .ok a ∧ ∃ b, f a = .ok b := by
  simp only [bind_eq_ok]
  rw [exists_comm]
  simp only [exists_and_left]

theorem orFault_eq_ok {x : Except Fault α} {a : α} :
    (orFault x : Except (Stopped ε) α) = .ok a ↔ x = .ok a := by
  cases x <;> simp [orFault]

theorem orFault_ne_refused {x : Except Fault α} {e : ε} : orFault x ≠ .error (.refused e) := by
  cases x <;> simp [orFault]

theorem toOption_eq_some {x : Except ε α} {a : α} : x.toOption = some a ↔ x = .ok a := by
  cases x <;> simp [Except.toOption]

end BatteryLink
