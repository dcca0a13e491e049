import BatteryLink.Number.Binary64
/-!
Decimal digits of doubles. `shortest` finds the fewest digits that read back as the same double and,
among those, the ones nearest to it; `rounded` gives a fixed number of significant digits.
-/
namespace BatteryLink.Binary64

structure Decimal where
  digits : Nat
  exponent : Int
  deriving DecidableEq, Repr

/-- Numerator and denominator of `num / den · 10 ^ (-e)`. -/
def rescaleTen (num den : Nat) (e : Int) : Nat × Nat :=
  if e < 0 then (num * 10 ^ (-e).toNat, den) else (num, den * 10 ^ e.toNat)

/-- The place of the first digit: the `k` with `10 ^ k ≤ num / den < 10 ^ (k + 1)`, for a positive
quotient. -/
def leadingPlace (num den : Nat) : Int :=
  let whole : Int := (Nat.toDigits 10 num).length - (Nat.toDigits 10 den).length
  let (n, d) := rescaleTen num den whole
  if n < d then whole - 1 else whole

/-- Twice the neighbourhood of a magnitude `m · 2 ^ e`, in quarters of `2 ^ e`: the lower and the
upper end of what rounds to it. -/
def neighbourhood (m : Nat) (e : Int) : Nat × Nat :=
  (if m = 2 ^ 52 ∧ -1074 < e then 4 * m - 1 else 4 * m - 2, 4 * m + 2)

/-- Whether `c · 10 ^ k` rounds to `m · 2 ^ e`; the ends belong to it for an even `m`. -/
def readsBack (m : Nat) (e : Int) (c : Nat) (k : Int) : Bool :=
  let (lo, hi) := neighbourhood m e
  let (n, d) := if k < 0 then (c, 10 ^ (-k).toNat) else (c * 10 ^ k.toNat, 1)
  let (ln, ld) := ratio lo (e - 2)
  let (hn, hd) := ratio hi (e - 2)
  if m % 2 = 0 then ln * d ≤ n * ld && n * hd ≤ hn * d
  else ln * d < n * ld && n * hd < hn * d

/-- The point nearest to `m · 2 ^ e` among those of the grid `10 ^ k` that read back as it. -/
def onGrid? (m : Nat) (e : Int) (k : Int) : Option Nat :=
  let (num, den) := ratio m e
  let (n, d) := rescaleTen num den k
  let low := n / d
  let near := roundDiv n d
  if near ≠ 0 ∧ readsBack m e near k then some near
  else if low ≠ 0 ∧ readsBack m e low k then some low
  else if readsBack m e (low + 1) k then some (low + 1)
  else none

/-- Tries one digit, two digits and so on; seventeen always suffice. -/
def shortestFrom (m : Nat) (e : Int) (place : Int) : Nat → Nat → Decimal
  | 0, count => ⟨roundDiv (rescaleTen (ratio m e).1 (ratio m e).2 (place - count)).1
      (rescaleTen (ratio m e).1 (ratio m e).2 (place - count)).2, place - count⟩
  | fuel + 1, count =>
    match onGrid? m e (place - count) with
    | some c => ⟨c, place - count⟩
    | none => shortestFrom m e place fuel (count + 1)

/-- Moves trailing zeros into the exponent. -/
def dropZeros : Nat → Decimal → Decimal
  | 0, d => d
  | fuel + 1, d =>
    if d.digits % 10 = 0 ∧ d.digits ≠ 0 then dropZeros fuel ⟨d.digits / 10, d.exponent + 1⟩ else d

/-- The fewest digits that read back as `m · 2 ^ e`, for a positive `m`. -/
def shortest (m : Nat) (e : Int) : Decimal :=
  let (num, den) := ratio m e
  dropZeros 20 (shortestFrom m e (leadingPlace num den) 17 0)

/-- `m · 2 ^ e` to `count` significant digits, ties to even, without trailing zeros. -/
def rounded (count : Nat) (m : Nat) (e : Int) : Decimal :=
  let (num, den) := ratio m e
  let k := leadingPlace num den - (count - 1 : Nat)
  let (n, d) := rescaleTen num den k
  dropZeros (count + 1) ⟨roundDiv n d, k⟩

end BatteryLink.Binary64
