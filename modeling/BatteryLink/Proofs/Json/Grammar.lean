import BatteryLink.Json.Reader
/-!
The grammar of JSON texts, apart from any way of reading them: which symbols make up a value, and
which value that is. Besides the words of the standard there are `NaN` and the infinities, and in a
dictionary the last value of a name counts.
-/
namespace BatteryLink.Json.Grammar

open BatteryLink.Text (Symbol Symbols pairCode isHighSurrogate isLowSurrogate)

def Blank (s : Symbols) : Prop := ∀ x ∈ s, isSpace x = true

/-- A code unit of 16 bits, written as an escape of four hexadecimal digits. -/
inductive Code : Symbols → Nat → Prop
  | digits {a b c d : Symbol} {n : Nat} : hexCode? a b c d = some n →
      Code [.char '\\', .char 'u', a, b, c, d] n

/-- Whether the second half of a surrogate pair comes next, written as an escape. -/
def OpensLow (s : Symbols) : Prop := ∃ e n r, Code e n ∧ isLowSurrogate n = true ∧ s = e ++ r

/-- What stands between the quotes of a string, and the text that it means. Two escapes make one
character if they are the halves of a pair. -/
inductive Chars : Symbols → Symbols → Prop
  | nil : Chars [] []
  | plain {x : Symbol} {s t : Symbols} : isPlain x = true → x ≠ .char '"' → x ≠ .char '\\' →
      Chars s t → Chars (x :: s) (x :: t)
  | short {x : Symbol} {c : Char} {s t : Symbols} : shortEscape? x = some c → Chars s t →
      Chars (.char '\\' :: x :: s) (.char c :: t)
  | pair {e f s t : Symbols} {h l : Nat} : Code e h → isHighSurrogate h = true → Code f l →
      isLowSurrogate l = true → Chars s t → Chars (e ++ f ++ s) (.ofCode (pairCode h l) :: t)
  | code {e s t : Symbols} {n : Nat} : Code e n → (isHighSurrogate n = true → ¬ OpensLow s) →
      Chars s t → Chars (e ++ s) (.ofCode n :: t)

structure Exponent where
  mark : Char
  sign : List Char
  digits : List Char
  is_mark : mark = 'e' ∨ mark = 'E'
  is_sign : sign = [] ∨ sign = ['+'] ∨ sign = ['-']
  some_digit : digits ≠ []
  all_digits : ∀ c ∈ digits, Text.isAsciiDigit c = true

/-- A number as it is written. The fraction is empty if there is no point. -/
structure Numeral where
  negative : Bool
  whole : List Char
  fraction : List Char
  exponent : Option Exponent
  some_digit : whole ≠ []
  all_digits : ∀ c ∈ whole, Text.isAsciiDigit c = true
  no_leading_zero : whole.head? = some '0' → whole = ['0']
  fraction_digits : ∀ c ∈ fraction, Text.isAsciiDigit c = true

def Exponent.chars (e : Exponent) : List Char := e.mark :: e.sign ++ e.digits

def Exponent.value (e : Exponent) : Int :=
  Binary64.signed (e.sign == ['-']) (Reading.digitsValue e.digits)

namespace Numeral

def sign (n : Numeral) : List Char := if n.negative then ['-'] else []

def fractionChars (n : Numeral) : List Char :=
  if n.fraction.isEmpty then [] else '.' :: n.fraction

def exponentChars (n : Numeral) : List Char := n.exponent.elim [] Exponent.chars

def chars (n : Numeral) : List Char := n.sign ++ n.whole ++ n.fractionChars ++ n.exponentChars

def isWhole (n : Numeral) : Bool := n.fraction.isEmpty && n.exponent.isNone

/-- A number with a fraction or an exponent is rounded to a double. -/
def value (n : Numeral) : Value :=
  if n.isWhole then .int (Binary64.signed n.negative (Reading.digitsValue n.whole))
  else .float (Binary64.ofDecimal n.negative (Reading.digitsValue (n.whole ++ n.fraction))
    (n.exponent.elim 0 Exponent.value - n.fraction.length))

end Numeral

def quoted (s : Symbols) : Symbols := .char '"' :: s ++ [.char '"']

/-- Some entries with members added to them one after the other. -/
def extend (entries : List (Value × Value)) (members : List (Symbols × Value)) :
    List (Value × Value) :=
  members.foldl (fun es m => Value.insert (.ofSymbols m.1) m.2 es) entries

mutual

/-- A value without blanks around it. -/
inductive Denotes : Symbols → Value → Prop
  | string {s t : Symbols} : Chars s t → Denotes (quoted s) (.ofSymbols t)
  | word {w : String} {v : Value} : (w, v) ∈ wordValues → Denotes (Symbols.ofString w) v
  | number (n : Numeral) : Denotes (n.chars.map .char) n.value
  | emptyList {b : Symbols} : Blank b → Denotes (.char '[' :: b ++ [.char ']']) (.list [])
  | list {b s : Symbols} {vs : List Value} : Blank b → Items s vs →
      Denotes (.char '[' :: b ++ s ++ [.char ']']) (.list vs)
  | dict {s : Symbols} {ms : List (Symbols × Value)} : Object s ms → Denotes s (.dict (extend [] ms))

inductive Items : Symbols → List Value → Prop
  | last {s b : Symbols} {v : Value} : Denotes s v → Blank b → Items (s ++ b) [v]
  | more {s b b' r : Symbols} {v : Value} {vs : List Value} : Denotes s v → Blank b → Blank b' →
      Items r vs → Items (s ++ b ++ .char ',' :: b' ++ r) (v :: vs)

/-- A dictionary with its members in the order in which they are written. -/
inductive Object : Symbols → List (Symbols × Value) → Prop
  | empty {b : Symbols} : Blank b → Object (.char '\x7b' :: b ++ [.char '\x7d']) []
  | members {b s : Symbols} {ms : List (Symbols × Value)} : Blank b → Members s ms →
      Object (.char '\x7b' :: b ++ s ++ [.char '\x7d']) ms

inductive Members : Symbols → List (Symbols × Value) → Prop
  | last {s : Symbols} {m : Symbols × Value} : Member s m → Members s [m]
  | more {s b r : Symbols} {m : Symbols × Value} {ms : List (Symbols × Value)} : Member s m →
      Blank b → Members r ms → Members (s ++ .char ',' :: b ++ r) (m :: ms)

inductive Member : Symbols → Symbols × Value → Prop
  | entry {k name b b' s b'' : Symbols} {v : Value} : Chars k name → Blank b → Blank b' →
      Denotes s v → Blank b'' → Member (quoted k ++ b ++ .char ':' :: b' ++ s ++ b'') (name, v)

end

/-- A whole text: something with blanks around it. -/
def Framed {α : Type} (writes : Symbols → α → Prop) (s : Symbols) (a : α) : Prop :=
  ∃ b t b', Blank b ∧ writes t a ∧ Blank b' ∧ s = b ++ t ++ b'

/-- The value of a name in a dictionary: the last one that it is given. -/
def lookup (name : String) (ms : List (Symbols × Value)) : Option Value :=
  ms.reverse.lookup (Symbols.ofString name)

end BatteryLink.Json.Grammar
