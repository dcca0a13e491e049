import BatteryLink.Text.Quoted
/-!
Faults: the ways a computation can stop that no check of the domain has a word for. A check that
rejects its input reports a domain error instead.
-/
namespace BatteryLink

/-- What stopped a computation. Types of values are given by name. -/
inductive Fault where
  /-- A whole number too long to be written in decimal. -/
  | unprintableInt
  /-- A numeral with more digits than are read. -/
  | longNumeral (digits : Nat)
  /-- A text that is no whole number. -/
  | notInt (text : String)
  | noWholePart
  | infiniteWhole
  | tooLargeForDouble
  | tooLargeQuotient
  | unhashable (kind : String)
  /-- Two values that have no order, and the sign between them. -/
  | unordered (sign left right : String)
  /-- Something else than a dictionary where one is looked into. -/
  | noMember (kind member : String)
  /-- Something else than a text among the texts to be joined. -/
  | notJoinable (position : Nat) (kind : String)
  | notEncodable (kind : String)
  | notEncodableKey (kind : String)
  | noNumberFormat (kind : String)
  | noTextFormat (kind : String)
  | badInterval (shown : String)
  | unknownMode (shown : String)
  /-- Something nested deeper than the stack has room for, and what was being done with it. -/
  | tooDeep (doing : String)
  /-- A line that no terminal takes: its first lone surrogate, where that stands, and where the last
  one that follows it without a gap does. -/
  | unencodable (unit first last : Nat)
  /-- The host application refused an update. -/
  | host (message : String)
  /-- The network failed in a way nobody expects. -/
  | crash (message : String)
  /-- The user asked to stop. -/
  | interrupt (message : String)
  deriving DecidableEq, Repr

namespace Fault

def message : Fault → String
  | unprintableInt => "Exceeds the limit (4300 digits) for integer string conversion; " ++
      "use sys.set_int_max_str_digits() to increase the limit"
  | longNumeral n => "Exceeds the limit (4300 digits) for integer string conversion: value has " ++
      toString n ++ " digits; use sys.set_int_max_str_digits() to increase the limit"
  | notInt t => "invalid literal for int() with base 10: " ++
      String.ofList ((Text.Quoted.quote t).toList.take 200)
  | noWholePart => "cannot convert float NaN to integer"
  | infiniteWhole => "cannot convert float infinity to integer"
  | tooLargeForDouble => "int too large to convert to float"
  | tooLargeQuotient => "integer division result too large for a float"
  | unhashable k => "unhashable type: '" ++ k ++ "'"
  | unordered sign a b =>
    "'" ++ sign ++ "' not supported between instances of '" ++ a ++ "' and '" ++ b ++ "'"
  | noMember k m => "'" ++ k ++ "' object has no attribute '" ++ m ++ "'"
  | notJoinable i k => "sequence item " ++ toString i ++ ": expected str instance, " ++ k ++ " found"
  | notEncodable k => "Object of type " ++ k ++ " is not JSON serializable"
  | notEncodableKey k => "keys must be str, int, float, bool or None, not " ++ k
  | noNumberFormat k => "unsupported format string passed to " ++ k ++ ".__format__"
  | noTextFormat k => "Unknown format code 'g' for object of type '" ++ k ++ "'"
  | badInterval s => "Interval must be positive (got " ++ s ++ ")"
  | unknownMode s => "Unknown mode: " ++ s
  | tooDeep doing => "maximum recursion depth exceeded while " ++ doing
  | unencodable u i j =>
    let place :=
      if i = j then " '\\u" ++ String.ofList (Text.Quoted.hex 4 u) ++ "' in position " ++ toString i
      else "s in position " ++ toString i ++ "-" ++ toString j
    "'utf-8' codec can't encode character" ++ place ++ ": surrogates not allowed"
  | host m | crash m | interrupt m => m

def name : Fault → String
  | unprintableInt | longNumeral _ | notInt _ | noWholePart | noTextFormat _ | badInterval _
  | unknownMode _ => "ValueError"
  | infiniteWhole | tooLargeForDouble | tooLargeQuotient => "OverflowError"
  | unhashable _ | unordered _ _ _ | notJoinable _ _ | notEncodable _ | notEncodableKey _
  | noNumberFormat _ => "TypeError"
  | noMember _ _ => "AttributeError"
  | tooDeep _ => "RecursionError"
  | unencodable _ _ _ => "UnicodeEncodeError"
  | host _ | crash _ => "RuntimeError"
  | interrupt _ => "KeyboardInterrupt"

/-- The fault as shown in diagnostics: its name and its quoted message. -/
def shown (f : Fault) : String := f.name ++ "(" ++ Text.Quoted.quote f.message ++ ")"

end Fault

/-- How a check or a conversion ends without a result: with a refusal in the words of the domain,
or with a fault. -/
inductive Stopped (ε : Type) where
  | refused (e : ε)
  | fault (f : Fault)
  deriving DecidableEq, Repr

/-- A computation that may only fault, among others that may also refuse. -/
def orFault {ε α : Type} : Except Fault α → Except (Stopped ε) α
  | .ok a => .ok a
  | .error f => .error (.fault f)

end BatteryLink
