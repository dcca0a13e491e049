/-!
Texts as JSON carries them. Besides characters they may hold surrogates that stand alone: halves of
a pair that has no other half, which are no characters. Such texts are lists of symbols.
-/
namespace BatteryLink.Text

/-- A piece of a text: a character, or a surrogate that stands alone. -/
inductive Symbol where
  | char (c : Char)
  | surrogate (unit : Nat)
  deriving DecidableEq, Repr

abbrev Symbols := List Symbol

def isHighSurrogate (n : Nat) : Bool := 0xD800 ≤ n && n ≤ 0xDBFF

def isLowSurrogate (n : Nat) : Bool := 0xDC00 ≤ n && n ≤ 0xDFFF

/-- The code point of a surrogate pair. -/
def pairCode (high low : Nat) : Nat := 0x10000 + (high - 0xD800) * 0x400 + (low - 0xDC00)

/-- The code units of 16 bits that a code point is written with. -/
def units16 (n : Nat) : List Nat :=
  if n < 0x10000 then [n]
  else [0xD800 + (n - 0x10000) / 0x400, 0xDC00 + (n - 0x10000) % 0x400]

namespace Symbol

def ofCode (n : Nat) : Symbol :=
  if isHighSurrogate n || isLowSurrogate n then surrogate n else char (Char.ofNat n)

def code : Symbol → Nat
  | char c => c.toNat
  | surrogate n => n

def char? : Symbol → Option Char
  | char c => some c
  | surrogate _ => none

/-- What a reader is shown of a symbol: for a surrogate, the replacement character. -/
def glyph : Symbol → Char
  | char c => c
  | surrogate _ => '\uFFFD'

end Symbol

namespace Symbols

def ofString (s : String) : Symbols := s.toList.map .char

/-- The characters of a text, if it has nothing else. -/
def chars? : Symbols → Option (List Char)
  | [] => some []
  | .char c :: r => (chars? r).map (c :: ·)
  | .surrogate _ :: _ => none

/-- What a reader is shown of a text. -/
def glyphs (s : Symbols) : String := String.ofList (s.map Symbol.glyph)

theorem chars?_map_char (s : List Char) : chars? (s.map .char) = some s := by
  induction s with
  | nil => rfl
  | cons c r ih => simp [chars?, ih]

theorem glyphs_ofString (s : String) : glyphs (ofString s) = s := by
  simp [glyphs, ofString, Function.comp_def, Symbol.glyph]

end Symbols
end BatteryLink.Text
