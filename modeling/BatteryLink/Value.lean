import BatteryLink.Number.Layout
import BatteryLink.Number.Reading
import BatteryLink.Fault
/-!
Values of no fixed type: what a host application hands to a control channel, what a reply of the
device carries, and what a request is made of.
-/
namespace BatteryLink

/-- A value. The entries of a `dict` stand in the order in which they were added. -/
inductive Value where
  | none
  | bool (b : Bool)
  | int (i : Int)
  | float (f : Binary64)
  | text (s : String)
  /-- A text that holds surrogates which stand alone. -/
  | broken (s : Text.Symbols)
  | bytes (b : List UInt8)
  | list (items : List Value)
  | dict (entries : List (Value × Value))
  /-- A number with its unit. -/
  | quantity (value : Value) (unit : String)
  /-- The state of a switch, which is also the text `ON` or `OFF`. -/
  | switch (on : Bool)
  deriving Inhabited

namespace Value

def switchText (on : Bool) : String := if on then "ON" else "OFF"

/-- The type of a value, as error texts name it. -/
def kind : Value → String
  | none => "NoneType"
  | bool _ => "bool"
  | int _ => "int"
  | float _ => "float"
  | text _ | broken _ => "str"
  | bytes _ => "bytes"
  | list _ => "list"
  | dict _ => "dict"
  | quantity _ _ => "Quantity"
  | switch _ => "OnOff"

/-- The value of a text. -/
def ofSymbols (s : Text.Symbols) : Value :=
  match Text.Symbols.chars? s with
  | some cs => text (String.ofList cs)
  | .none => broken s

/-- The text of a text or of a switch, as a reader is shown it. -/
def asText? : Value → Option String
  | text s => some s
  | broken s => some (Text.Symbols.glyphs s)
  | switch on => some (switchText on)
  | _ => .none

/-- The text of a text without lone surrogates or of a switch. -/
def plainText? : Value → Option String
  | text s => some s
  | switch on => some (switchText on)
  | _ => .none

def symbols? : Value → Option Text.Symbols
  | broken s => some s
  | v => v.plainText?.map Text.Symbols.ofString

/-- The number of a whole number that is not a truth value. -/
def asInt? : Value → Option Int
  | int i => some i
  | _ => .none

def isNone : Value → Bool
  | none => true
  | _ => false

/-- Whether a value counts as true where a condition is expected. -/
def truthy : Value → Bool
  | none => false
  | bool b => b
  | int i => i != 0
  | float f => !f.eqInt 0
  | text s => s != ""
  | broken s => !s.isEmpty
  | bytes b => !b.isEmpty
  | list l => !l.isEmpty
  | dict d => !d.isEmpty
  | quantity _ _ => true
  | switch _ => true

/-- Equality with a whole number; truth values are 0 and 1. -/
def equalsInt (v : Value) (i : Int) : Bool :=
  match v with
  | bool b => (if b then 1 else 0) == i
  | int j => j == i
  | float f => f.eqInt i
  | _ => false

/-- Whether two values are the same key of a `dict`. Numbers are compared as numbers. -/
def sameKey : Value → Value → Bool
  | none, none => true
  | bool a, v => v.equalsInt (if a then 1 else 0)
  | int i, v => v.equalsInt i
  | float f, float g => f.sameNumber g
  | float f, int i => f.eqInt i
  | float f, bool b => f.eqInt (if b then 1 else 0)
  | text s, v => v.plainText? == some s
  | switch on, v => v.plainText? == some (switchText on)
  | broken s, broken t => s == t
  | bytes a, bytes b => a == b
  | quantity a u, quantity b w => u == w && sameKey a b
  | _, _ => false

/-- The exact number of a number or of a truth value. -/
def number? : Value → Option Binary64
  | bool b => some (.exactInt (if b then 1 else 0))
  | int i => some (.exactInt i)
  | float f => some f
  | _ => .none

/-- Whether a value comes before another: numbers by size, texts in alphabetical order. -/
def before (v w : Value) : Bool :=
  match v.number?, w.number? with
  | some x, some y => x.lt y
  | _, _ =>
    match v.asText?, w.asText? with
    | some s, some t => s < t
    | _, _ => false

/-- Adds an entry, or replaces the value under a key that is there already. -/
def insert (key value : Value) : List (Value × Value) → List (Value × Value)
  | [] => [(key, value)]
  | (k, v) :: r => if k.sameKey key then (k, value) :: r else (k, v) :: insert key value r

def get? (key : String) (entries : List (Value × Value)) : Option Value :=
  (entries.find? fun e => e.1.plainText? == some key).map (·.2)

/-- The value under a text key, absent keys giving `none`. -/
def get (key : String) (entries : List (Value × Value)) : Value :=
  (get? key entries).getD none

/-- Lists and dicts cannot be keys, nor can quantities made of them. -/
def hashable : Value → Except Fault Unit
  | list _ => .error (.unhashable "list")
  | dict _ => .error (.unhashable "dict")
  | quantity v _ => hashable v
  | _ => .ok ()

end Value

/-- Decimal digits of a whole number, if there are not too many of them. -/
def Value.intText (i : Int) : Except Fault String :=
  if 10 ^ Reading.maxIntDigits ≤ i.natAbs then .error .unprintableInt
  else .ok (toString i)

namespace Value

/-- How many levels deep a value may be nested for it to be read or to be written out. The stack
holds a thousand calls, and some of them are always under way by then. -/
def maxDepth : Nat := 970

/-- A number of a JSON text or of a diagnostic text. -/
def floatText (f : Binary64) : String := Layout.exact.write f

mutual

/-- The written form of a value, in which texts are quoted, if there is room for its levels. -/
def shownWithin : Value → Nat → Except Fault String
  | none, _ => .ok "None"
  | bool b, _ => .ok (if b then "True" else "False")
  | int i, _ => intText i
  | float f, _ => .ok (floatText f)
  | text s, _ => .ok (Text.Quoted.quote s)
  | broken s, _ => .ok (String.ofList (Text.Quoted.quoteSymbols s))
  | bytes b, _ => .ok (Text.Quoted.quoteBytes b)
  | switch on, _ => .ok ("<OnOff." ++ switchText on ++ ": '" ++ switchText on ++ "'>")
  | list _, 0 | dict _, 0 | quantity _ _, 0 => .error (.tooDeep "getting the repr of an object")
  | list l, room + 1 => do .ok ("[" ++ ", ".intercalate (← shownAll l room) ++ "]")
  | dict d, room + 1 => do .ok ("\x7b" ++ ", ".intercalate (← shownEntries d room) ++ "\x7d")
  | quantity v u, room + 1 => do
    .ok ("Quantity(value=" ++ (← shownWithin v room) ++ ", unit=" ++ Text.Quoted.quote u ++ ")")

def shownAll : List Value → Nat → Except Fault (List String)
  | [], _ => .ok []
  | v :: r, room => do
    let t ← shownWithin v room
    .ok (t :: (← shownAll r room))

def shownEntries : List (Value × Value) → Nat → Except Fault (List String)
  | [], _ => .ok []
  | (k, v) :: r, room => do
    let a ← shownWithin k room
    let b ← shownWithin v room
    .ok ((a ++ ": " ++ b) :: (← shownEntries r room))

end

def shown (v : Value) : Except Fault String := v.shownWithin maxDepth

/-- The text of a value: texts and switches stand for themselves. -/
def display (v : Value) : Except Fault String :=
  match v.asText? with
  | some s => .ok s
  | .none => shown v

/-- The symbols of the text of a value. -/
def symbols (v : Value) : Except Fault Text.Symbols :=
  match v.symbols? with
  | some s => .ok s
  | .none => do return Text.Symbols.ofString (← shown v)

end Value
end BatteryLink
