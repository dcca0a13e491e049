/-!
Double-precision numbers, kept exactly: a sign, a whole significand and a power of two. They are
compared, truncated and added in integer arithmetic; a sum is the double nearest to the exact one.
-/
namespace BatteryLink

/-- Powers of natural numbers, the same ones whatever else is in scope. -/
@[default_instance 20000]
scoped instance (priority := 2000) corePow : Pow Nat Nat := instPowNat

/-- A double-precision number. Finite numbers that come from `ofRatio` have a significand below
`2 ^ 53` and an exponent between `-1074` and `971`, the least exponent that leaves it whole. -/
inductive Binary64 where
  | finite (negative : Bool) (significand : Nat) (exponent : Int)
  | infinite (negative : Bool)
  | nan
  deriving DecidableEq, Repr, Inhabited

namespace Binary64

def zero : Binary64 := finite false 0 (-1074)

/-- The whole number nearest to `num / den`; of two, the even one. -/
def roundDiv (num den : Nat) : Nat :=
  let q := num / den
  let r := num % den
  if 2 * r < den then q
  else if den < 2 * r then q + 1
  else if q % 2 = 0 then q else q + 1

/-- Numerator and denominator of `num / den · 2 ^ (-e)`. -/
def rescale (num den : Nat) (e : Int) : Nat × Nat :=
  if e < 0 then (num * 2 ^ (-e).toNat, den) else (num, den * 2 ^ e.toNat)

/-- The exponent at which the quotient has 53 binary digits, or the least exponent. -/
def exponentFor (num den : Nat) : Int :=
  let guess : Int := (num.log2 : Int) - (den.log2 : Int) - 52
  let (n, d) := rescale num den guess
  let e := if n / d < 2 ^ 52 then guess - 1 else if 2 ^ 53 ≤ n / d then guess + 1 else guess
  max e (-1074)

/-- The double nearest to `num / den`, ties to the even significand, infinite if too large. -/
def ofRatio (negative : Bool) (num den : Nat) : Binary64 :=
  if num = 0 then finite negative 0 (-1074)
  else
    let e := exponentFor num den
    let (n, d) := rescale num den e
    let m := roundDiv n d
    let (m, e) := if m = 2 ^ 53 then (2 ^ 52, e + 1) else (m, e)
    if 971 < e then infinite negative else finite negative m e

/-- The double nearest to `m · 10 ^ e`. Powers of ten that decide the answer on their own are
never computed. -/
def ofDecimal (negative : Bool) (m : Nat) (e : Int) : Binary64 :=
  if m = 0 then finite negative 0 (-1074)
  else
    let size : Int := (Nat.toDigits 10 m).length + e
    if 310 < size then infinite negative
    else if size < -330 then finite negative 0 (-1074)
    else if e < 0 then ofRatio negative m (10 ^ (-e).toNat)
    else ofRatio negative (m * 10 ^ e.toNat) 1

/-- The double nearest to a whole number, if the number is not too large for one. -/
def ofInt? (i : Int) : Option Binary64 :=
  match ofRatio (i < 0) i.natAbs 1 with
  | finite s m e => some (finite s m e)
  | _ => none

/-- Numerator and denominator of a finite magnitude. -/
def ratio (m : Nat) (e : Int) : Nat × Nat :=
  if e < 0 then (m, 2 ^ (-e).toNat) else (m * 2 ^ e.toNat, 1)

def signed (negative : Bool) (n : Nat) : Int := if negative then -(n : Int) else n

/-- `i ≤ x`; false if `x` is no number. -/
def intLe (i : Int) : Binary64 → Bool
  | finite s m e => let (n, d) := ratio m e; i * d ≤ signed s n
  | infinite s => !s
  | nan => false

/-- `x ≤ i`; false if `x` is no number. -/
def leInt (x : Binary64) (i : Int) : Bool :=
  match x with
  | finite s m e => let (n, d) := ratio m e; signed s n ≤ i * d
  | infinite s => s
  | nan => false

def eqInt (x : Binary64) (i : Int) : Bool := intLe i x && leInt x i

/-- Equality as numbers: the two zeros are equal, and what is no number equals nothing. -/
def sameNumber : Binary64 → Binary64 → Bool
  | finite s m e, finite t k f =>
    let (n, d) := ratio m e
    let (p, q) := ratio k f
    signed s n * q == signed t p * d
  | infinite s, infinite t => s == t
  | _, _ => false

/-- `x < y`; false if one of them is no number. -/
def lt : Binary64 → Binary64 → Bool
  | finite s m e, finite t k f =>
    let (n, d) := ratio m e
    let (p, q) := ratio k f
    signed s n * q < signed t p * d
  | infinite s, infinite t => s && !t
  | infinite s, finite .. => s
  | finite .., infinite t => !t
  | _, _ => false

/-- `x ≤ y`; false if one of them is no number. -/
def le (x y : Binary64) : Bool := lt x y || sameNumber x y

/-- A whole number, however large, without rounding. -/
def exactInt (i : Int) : Binary64 := finite (i < 0) i.natAbs 0

/-- `i · 2 ^ e`, rounded. -/
def scaled (i e : Int) : Binary64 :=
  if e < 0 then ofRatio (i < 0) i.natAbs (2 ^ (-e).toNat)
  else ofRatio (i < 0) (i.natAbs * 2 ^ e.toNat) 1

/-- The sum, rounded. -/
def add : Binary64 → Binary64 → Binary64
  | finite s m e, finite t k f =>
    let low := min e f
    scaled (signed s (m * 2 ^ (e - low).toNat) + signed t (k * 2 ^ (f - low).toNat)) low
  | infinite s, infinite t => if s = t then infinite s else nan
  | infinite s, finite .. => infinite s
  | finite .., infinite t => infinite t
  | _, _ => nan

/-- The whole number nearest to a thousand times a number, both roundings to the even neighbour. -/
def thousandfold : Binary64 → Int
  | finite s m e =>
    let (n, d) := ratio m e
    match ofRatio s (n * 1000) d with
    | finite s m e => let (n, d) := ratio m e; signed s (roundDiv n d)
    | _ => 0
  | _ => 0

inductive NoWholePart where
  | nan
  | infinite
  deriving DecidableEq, Repr

def truncate : Binary64 → Except NoWholePart Int
  | finite s m e => let (n, d) := ratio m e; .ok (signed s (n / d))
  | infinite _ => .error .infinite
  | nan => .error .nan

end Binary64
end BatteryLink
