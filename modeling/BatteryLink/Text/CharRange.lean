/-!
Sets of characters written as inclusive ranges of code points. The character classes of this
folder are such sets; below code point 128 each class is given by a rule that needs no table.
-/
namespace BatteryLink.Text

/-- Inclusive ranges of code points, in increasing order. -/
abbrev CharRanges := List (Nat × Nat)

def CharRanges.contains (t : CharRanges) (c : Char) : Bool :=
  t.any fun r => r.1 ≤ c.toNat && c.toNat ≤ r.2

theorem CharRanges.contains_iff {t : CharRanges} {c : Char} :
    t.contains c = true ↔ ∃ r ∈ t, r.1 ≤ c.toNat ∧ c.toNat ≤ r.2 := by
  simp [CharRanges.contains]

end BatteryLink.Text
