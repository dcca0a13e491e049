import BatteryLink.Number.Shortest
/-!
How a double is written out. The layouts differ in how many digits they keep and in the numbers
they write without an exponent.
-/
namespace BatteryLink

/-- The decisions of one way to write numbers. -/
structure Layout where
  /-- Significant digits to keep; none stands for as many as read back. -/
  precision : Option Nat
  /-- A leading digit at or beyond this place is written with an exponent. -/
  exponentFrom : Int
  /-- Whole numbers written without an exponent end in `.0`. -/
  markWhole : Bool

/-- Exact numbers, such that `1e16` and `0.0001` are the first that need or miss an exponent. -/
def Layout.exact : Layout := ⟨none, 16, true⟩

/-- Readings for people: six digits. -/
def Layout.brief : Layout := ⟨some 6, 6, false⟩

namespace Layout

def digitsOf (l : Layout) (m : Nat) (e : Int) : Binary64.Decimal :=
  match l.precision with
  | none => Binary64.shortest m e
  | some n => Binary64.rounded n m e

def exponentText (e : Int) : List Char :=
  let digits := Nat.toDigits 10 e.natAbs
  ['e', if e < 0 then '-' else '+'] ++ (if digits.length < 2 then '0' :: digits else digits)

/-- Digits whose last one stands at the place `e`, and nowhere beyond the place `top`. -/
def place (l : Layout) (digits : List Char) (e : Int) : List Char :=
  let top := e + digits.length - 1
  if top < -4 ∨ l.exponentFrom ≤ top then
    match digits with
    | [] => []
    | [c] => c :: exponentText top
    | c :: r => c :: '.' :: r ++ exponentText top
  else if 0 ≤ e then
    digits ++ List.replicate e.toNat '0' ++ (if l.markWhole then ['.', '0'] else [])
  else if 0 ≤ top then
    digits.take (top + 1).toNat ++ '.' :: digits.drop (top + 1).toNat
  else
    '0' :: '.' :: List.replicate (-top - 1).toNat '0' ++ digits

def write (l : Layout) : Binary64 → String
  | .nan => "nan"
  | .infinite s => if s then "-inf" else "inf"
  | .finite s m e =>
    let body :=
      if m = 0 then if l.markWhole then ['0', '.', '0'] else ['0']
      else
        let d := l.digitsOf m e
        l.place (Nat.toDigits 10 d.digits) d.exponent
    String.ofList (if s then '-' :: body else body)

end Layout
end BatteryLink
