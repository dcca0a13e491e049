import BatteryLink.Number.Binary64
import BatteryLink.Text.Blank
import BatteryLink.Text.Digit
/-!
Reading numbers from text. Digits of any script count, blanks around the number do not, and single
underscores may stand between digits.
-/
namespace BatteryLink.Reading

open Text

/-- Whole numbers longer than this are neither read nor written. -/
def maxIntDigits : Nat := 4300

/-- Blanks that may surround a number; the four separators `U+001C` to `U+001F` may not. -/
def isNumberBlank (c : Char) : Bool := isBlank c && !(28 ≤ c.toNat && c.toNat ≤ 31)

/-- The ASCII digit of the same value, for a decimal digit of any script. -/
def plainDigit (c : Char) : Char :=
  match decimalValue? c with
  | some d => Char.ofNat (48 + d)
  | none => c

/-- Drops the blanks at both ends and turns every decimal digit into an ASCII one. -/
def prepare (s : List Char) : List Char :=
  ((s.dropWhile isNumberBlank).reverse.dropWhile isNumberBlank).reverse.map plainDigit

def digitsValue (s : List Char) : Nat := s.foldl (fun n c => 10 * n + (c.toNat - 48)) 0

/-- Splits off a sign; the result tells whether it was a minus. -/
def splitSign : List Char → Bool × List Char
  | '-' :: r => (true, r)
  | '+' :: r => (false, r)
  | s => (false, s)

/-- Removes underscores, if each stands between two digits. `afterDigit` tells about the character
before. -/
def dropUnderscores? (afterDigit : Bool) : List Char → Option (List Char)
  | [] => some []
  | '_' :: c :: r =>
    if afterDigit && isAsciiDigit c then (dropUnderscores? true r).map (c :: ·) else none
  | ['_'] => none
  | c :: r => (dropUnderscores? (isAsciiDigit c) r).map (c :: ·)

inductive IntError where
  | malformed
  | tooLong (digits : Nat)
  deriving DecidableEq, Repr

/-- A whole number: a sign, digits and nothing else. -/
def int (s : List Char) : Except IntError Int :=
  let (negative, body) := splitSign (prepare s)
  let run := body.takeWhile fun c => isAsciiDigit c || c = '_'
  match dropUnderscores? false run with
  | none => .error .malformed
  | some digits =>
    if digits.isEmpty then .error .malformed
    else if maxIntDigits < digits.length then .error (.tooLong digits.length)
    else if run.length < body.length then .error .malformed
    else .ok (Binary64.signed negative (digitsValue digits))

/-- The exponent part of a number; none if there is something else instead. -/
def exponent? : List Char → Option Int
  | [] => some 0
  | c :: r =>
    if c = 'e' || c = 'E' then
      let (negative, digits) := splitSign r
      if digits.isEmpty || !digits.all isAsciiDigit then none
      else some (Binary64.signed negative (digitsValue digits))
    else none

/-- An unsigned decimal with a point and an exponent, both optional. -/
def decimal? (negative : Bool) (s : List Char) : Option Binary64 :=
  let whole := s.takeWhile isAsciiDigit
  let rest := s.dropWhile isAsciiDigit
  let (fraction, rest) := match rest with
    | '.' :: r => (r.takeWhile isAsciiDigit, r.dropWhile isAsciiDigit)
    | r => ([], r)
  if whole.isEmpty && fraction.isEmpty then none
  else
    (exponent? rest).map fun e =>
      Binary64.ofDecimal negative (digitsValue (whole ++ fraction)) (e - fraction.length)

def asciiLower (c : Char) : Char := if 'A' ≤ c ∧ c ≤ 'Z' then Char.ofNat (c.toNat + 32) else c

/-- A decimal number, an infinity or the word for no number, in any case. -/
def double? (s : List Char) : Option Binary64 :=
  (dropUnderscores? false (prepare s)).bind fun s =>
    let (negative, body) := splitSign s
    let word := String.ofList (body.map asciiLower)
    if word = "inf" ∨ word = "infinity" then some (.infinite negative)
    else if word = "nan" then some .nan
    else decimal? negative body

/-- Byte strings are read as texts; a byte above 127 fits in no number. -/
def charsOfBytes (b : List UInt8) : List Char :=
  b.map fun x => if x < 128 then Char.ofNat x.toNat else '?'

end BatteryLink.Reading
