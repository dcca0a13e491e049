import BatteryLink.Json.Reader
/-!
Writing JSON texts in ASCII, without blanks. Characters outside ASCII are written as escapes of
their 16-bit units.
-/
namespace BatteryLink.Json

open Text (Symbol Symbols units16)

def unitEscape (n : Nat) : List Char := ['\\', 'u'] ++ Text.Quoted.hex 4 n

def writeChar (c : Char) : List Char :=
  if c = '"' || c = '\\' then ['\\', c]
  else if 32 ≤ c.toNat && c.toNat < 127 then [c]
  else if c = '\n' then ['\\', 'n']
  else if c = '\r' then ['\\', 'r']
  else if c = '\t' then ['\\', 't']
  else if c.toNat = 8 then ['\\', 'b']
  else if c.toNat = 12 then ['\\', 'f']
  else (units16 c.toNat).flatMap unitEscape

def writeSymbol : Symbol → List Char
  | .char c => writeChar c
  | .surrogate n => unitEscape n

def writeSymbols (s : Symbols) : String := String.ofList ('"' :: s.flatMap writeSymbol ++ ['"'])

def writeText (s : String) : String := writeSymbols (Symbols.ofString s)

def writeFloat : Binary64 → String
  | .nan => "NaN"
  | .infinite s => if s then "-Infinity" else "Infinity"
  | f => Value.floatText f

/-- The name of a member: a text, or a scalar's written form. -/
def memberName (v : Value) : Except Fault Symbols :=
  match v with
  | .none => .ok (.ofString "null")
  | .bool b => .ok (.ofString (if b then "true" else "false"))
  | .int i => do return .ofString (← Value.intText i)
  | .float f => .ok (.ofString (writeFloat f))
  | v =>
    match v.symbols? with
    | some s => .ok s
    | none => .error (.notEncodableKey v.kind)

mutual

/-- The text of a value, if there is room for its levels. -/
def writeWithin : Value → Nat → Except Fault String
  | .none, _ => .ok "null"
  | .bool b, _ => .ok (if b then "true" else "false")
  | .int i, _ => Value.intText i
  | .float f, _ => .ok (writeFloat f)
  | .text s, _ => .ok (writeText s)
  | .broken s, _ => .ok (writeSymbols s)
  | .switch on, _ => .ok (writeText (Value.switchText on))
  | .bytes _, _ => .error (.notEncodable "bytes")
  | .quantity _ _, _ => .error (.notEncodable "Quantity")
  | .list _, 0 | .dict _, 0 => .error (.tooDeep "encoding a JSON object")
  | .list l, room + 1 => do .ok ("[" ++ ",".intercalate (← writeAll l room) ++ "]")
  | .dict d, room + 1 => do .ok ("\x7b" ++ ",".intercalate (← writeMembers d room) ++ "\x7d")

def writeAll : List Value → Nat → Except Fault (List String)
  | [], _ => .ok []
  | v :: r, room => do
    let t ← writeWithin v room
    .ok (t :: (← writeAll r room))

def writeMembers : List (Value × Value) → Nat → Except Fault (List String)
  | [], _ => .ok []
  | (k, v) :: r, room => do
    let n ← memberName k
    let t ← writeWithin v room
    .ok ((writeSymbols n ++ ":" ++ t) :: (← writeMembers r room))

end

def write (v : Value) : Except Fault String := writeWithin v Value.maxDepth

/-- Texts under names, one to a line and set in by two blanks. -/
def writeTextLines (members : List (String × Symbols)) : String :=
  let lines := members.map fun (n, t) => "  " ++ writeText n ++ ": " ++ writeSymbols t
  "\x7b\n" ++ ",\n".intercalate lines ++ "\n\x7d"

end BatteryLink.Json
