import BatteryLink.Text.Symbol
import BatteryLink.Text.Visible
/-!
Quoted texts: a text or a byte string between quotes, with everything that is not visible written
as an escape. Apostrophes are the quotes unless the text holds apostrophes and no double quote.
-/
namespace BatteryLink.Text.Quoted

def hexDigit (n : Nat) : Char := if n < 10 then Char.ofNat (48 + n) else Char.ofNat (87 + n)

/-- The last `width` hexadecimal digits of `n`. -/
def hex : Nat → Nat → List Char
  | 0, _ => []
  | width + 1, n => hex width (n / 16) ++ [hexDigit (n % 16)]

def quoteFor (s : List Char) : Char :=
  if s.contains '\'' && !s.contains '"' then '"' else '\''

/-- The escape with a letter of its own, if the character has one. -/
def shortEscape? (quote c : Char) : Option (List Char) :=
  if c = quote || c = '\\' then some ['\\', c]
  else if c = '\n' then some ['\\', 'n']
  else if c = '\r' then some ['\\', 'r']
  else if c = '\t' then some ['\\', 't']
  else none

def codeEscape (n : Nat) : List Char :=
  if n < 0x100 then ['\\', 'x'] ++ hex 2 n
  else if n < 0x10000 then ['\\', 'u'] ++ hex 4 n
  else ['\\', 'U'] ++ hex 8 n

def escapeChar (quote c : Char) : List Char :=
  match shortEscape? quote c with
  | some e => e
  | none => if isVisible c then [c] else codeEscape c.toNat

/-- A surrogate that stands alone is never visible. -/
def escapeSymbol (quote : Char) : Symbol → List Char
  | .char c => escapeChar quote c
  | .surrogate n => codeEscape n

def quoteSymbols (s : Symbols) : List Char :=
  let q := quoteFor (s.filterMap Symbol.char?)
  q :: (s.flatMap (escapeSymbol q)) ++ [q]

def quote (s : String) : String := String.ofList (quoteSymbols (Symbols.ofString s))

/-- A byte string between quotes, with the mark `b` in front; bytes above 126 are escaped. -/
def quoteBytes (b : List UInt8) : String :=
  let chars := b.map fun x => Char.ofNat x.toNat
  let q := quoteFor chars
  let body := chars.flatMap fun c => if c.toNat < 128 then escapeChar q c else codeEscape c.toNat
  String.ofList ('b' :: q :: body ++ [q])

end BatteryLink.Text.Quoted
