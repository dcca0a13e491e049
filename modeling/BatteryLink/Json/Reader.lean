import BatteryLink.Json.Encoding
import BatteryLink.Value
/-!
Reading JSON texts. The reader goes through a list of symbols; an error tells how many of them were
left where it arose, from which its line and column follow.
-/
namespace BatteryLink.Json

open Text (Symbol Symbols pairCode isHighSurrogate isLowSurrogate)

inductive Problem where
  | value
  | name
  | colon
  | comma
  | unterminated
  | control
  | badEscape
  | badCodeEscape
  | extra
  deriving DecidableEq, Repr

def Problem.text : Problem → String
  | value => "Expecting value"
  | name => "Expecting property name enclosed in double quotes"
  | colon => "Expecting ':' delimiter"
  | comma => "Expecting ',' delimiter"
  | unterminated => "Unterminated string starting at"
  | control => "Invalid control character at"
  | badEscape => "Invalid \\escape"
  | badCodeEscape => "Invalid \\uXXXX escape"
  | extra => "Extra data"

/-- Why a text is not read: a problem with `left` symbols still ahead, or a fault. -/
inductive ReadError where
  | problem (p : Problem) (left : Nat)
  | fault (f : Fault)
  deriving DecidableEq, Repr

def fail {α : Type} (p : Problem) (rest : Symbols) : Except ReadError α :=
  .error (.problem p rest.length)

def isSpace : Symbol → Bool
  | .char c => c = ' ' || c = '\t' || c = '\n' || c = '\r'
  | .surrogate _ => false

def skipSpace (s : Symbols) : Symbols := s.dropWhile isSpace

def hexValue? (c : Char) : Option Nat :=
  if '0' ≤ c ∧ c ≤ '9' then some (c.toNat - 48)
  else if 'a' ≤ c ∧ c ≤ 'f' then some (c.toNat - 87)
  else if 'A' ≤ c ∧ c ≤ 'F' then some (c.toNat - 55)
  else none

def hexDigit? (x : Symbol) : Option Nat := x.char?.bind hexValue?

def hexCode? (a b c d : Symbol) : Option Nat := do
  return (((← hexDigit? a) * 16 + (← hexDigit? b)) * 16 + (← hexDigit? c)) * 16 + (← hexDigit? d)

def shortEscape? : Symbol → Option Char
  | .char '"' => some '"'
  | .char '\\' => some '\\'
  | .char '/' => some '/'
  | .char 'b' => some (Char.ofNat 8)
  | .char 'f' => some (Char.ofNat 12)
  | .char 'n' => some '\n'
  | .char 'r' => some '\r'
  | .char 't' => some '\t'
  | _ => none

/-- Whether a symbol may stand in a string as it is. -/
def isPlain (x : Symbol) : Bool := 32 ≤ x.code

/-- Reads the rest of a string. `opening` counts the symbols from its opening quote on, and `high`
is a surrogate that was read just before as an escape and may be the first of a pair. -/
def stringTail (opening : Nat) (high : Option Nat) :
    Symbols → Except ReadError (Symbols × Symbols)
  | [] => .error (.problem .unterminated opening)
  | .char '"' :: r => .ok (flush high, r)
  | [.char '\\'] => .error (.problem .unterminated opening)
  | .char '\\' :: .char 'u' :: a :: b :: c :: d :: e :: r =>
    match hexCode? a b c d with
    | none => fail .badCodeEscape (.char 'u' :: a :: b :: c :: d :: e :: r)
    | some n =>
      match high with
      | some h =>
        if isLowSurrogate n then do
          let (s, rest) ← stringTail opening none (e :: r)
          .ok (.ofCode (pairCode h n) :: s, rest)
        else if isHighSurrogate n then do
          let (s, rest) ← stringTail opening (some n) (e :: r)
          .ok (.ofCode h :: s, rest)
        else do
          let (s, rest) ← stringTail opening none (e :: r)
          .ok (.ofCode h :: .ofCode n :: s, rest)
      | none =>
        if isHighSurrogate n then stringTail opening (some n) (e :: r)
        else do
          let (s, rest) ← stringTail opening none (e :: r)
          .ok (.ofCode n :: s, rest)
  | .char '\\' :: .char 'u' :: r => fail .badCodeEscape (.char 'u' :: r)
  | .char '\\' :: x :: r =>
    match shortEscape? x with
    | none => fail .badEscape (.char '\\' :: x :: r)
    | some e => do
      let (s, rest) ← stringTail opening none r
      .ok (flush high ++ .char e :: s, rest)
  | x :: r =>
    if isPlain x then do
      let (s, rest) ← stringTail opening none r
      .ok (flush high ++ x :: s, rest)
    else fail .control (x :: r)
where
  flush (high : Option Nat) : Symbols := (high.map Symbol.ofCode).toList

def digits : Symbols → List Char × Symbols
  | .char c :: r =>
    if Text.isAsciiDigit c then
      let (ds, rest) := digits r
      (c :: ds, rest)
    else ([], .char c :: r)
  | s => ([], s)

/-- The characters of a number at the front: its whole part with the sign, its fraction and its
exponent with their marks; and what follows. -/
def numberParts? (s : Symbols) : Option (List Char × List Char × List Char × Symbols) :=
  let (sign, r) := match s with
    | .char '-' :: r => (['-'], r)
    | r => ([], r)
  let (whole, r) := match r with
    | .char '0' :: r => (['0'], r)
    | r => digits r
  if whole.isEmpty then none
  else
    let (fraction, r) := match r with
      | .char '.' :: r' =>
        let (ds, rest) := digits r'
        if ds.isEmpty then ([], r) else ('.' :: ds, rest)
      | _ => ([], r)
    let (exponent, r) := match r with
      | .char c :: r' =>
        if c = 'e' || c = 'E' then
          let (mark, r'') := match r' with
            | .char '+' :: t => (['+'], t)
            | .char '-' :: t => (['-'], t)
            | t => ([], t)
          let (ds, rest) := digits r''
          if ds.isEmpty then ([], r) else (c :: mark ++ ds, rest)
        else ([], r)
      | _ => ([], r)
    some (sign ++ whole, fraction, exponent, r)

/-- A whole number without fraction and exponent stays whole. -/
def numberValue (whole fraction exponent : List Char) : Except ReadError Value :=
  if fraction.isEmpty && exponent.isEmpty then
    match Reading.int whole with
    | .ok i => .ok (.int i)
    | .error (.tooLong n) => .error (.fault (.longNumeral n))
    | .error .malformed => .error (.fault (.notInt (String.ofList whole)))
  else .ok (.float ((Reading.double? (whole ++ fraction ++ exponent)).getD .nan))

/-- What follows `word` if the text starts with it. -/
def afterWord? (word : String) (s : Symbols) : Option Symbols :=
  if (Symbols.ofString word).isPrefixOf s then some (s.drop word.length) else none

/-- The values that are written as words. -/
def wordValues : List (String × Value) :=
  [("null", .none), ("true", .bool true), ("false", .bool false), ("NaN", .float .nan),
   ("Infinity", .float (.infinite false)), ("-Infinity", .float (.infinite true))]

def wordValue? (s : Symbols) : Option (Value × Symbols) :=
  wordValues.findSome? fun (w, v) => (afterWord? w s).map fun r => (v, r)

def scalar (s : Symbols) : Except ReadError (Value × Symbols) :=
  match wordValue? s with
  | some r => .ok r
  | none =>
    match numberParts? s with
    | none => fail .value s
    | some (whole, fraction, exponent, rest) => do
      .ok (← numberValue whole fraction exponent, rest)

def tooDeep {α : Type} (kind : String) : Except ReadError α :=
  .error (.fault (.tooDeep ("decoding a JSON " ++ kind ++ " from a unicode string")))

mutual

/-- Reads one value. Every level of nesting and every element uses up one unit of `fuel`; a text
has no more of them than symbols. Levels are also what the stack has to have `room` for. -/
def value : Nat → Nat → Symbols → Except ReadError (Value × Symbols)
  | 0, _, s => fail .value s
  | fuel + 1, room, s =>
    match s with
    | .char '"' :: r => do
      let (t, rest) ← stringTail s.length none r
      .ok (.ofSymbols t, rest)
    | .char '[' :: r =>
      match room with
      | 0 => tooDeep "array"
      | room + 1 =>
        match skipSpace r with
        | .char ']' :: rest => .ok (.list [], rest)
        | r => do
          let (items, rest) ← elements fuel room r
          .ok (.list items, rest)
    | .char '\x7b' :: r =>
      match room with
      | 0 => tooDeep "object"
      | room + 1 =>
        match skipSpace r with
        | .char '\x7d' :: rest => .ok (.dict [], rest)
        | r => do
          let (entries, rest) ← members fuel room [] r
          .ok (.dict entries, rest)
    | s => scalar s

def elements : Nat → Nat → Symbols → Except ReadError (List Value × Symbols)
  | 0, _, s => fail .value s
  | fuel + 1, room, s => do
    let (v, r) ← value fuel room s
    match skipSpace r with
    | .char ']' :: rest => .ok ([v], rest)
    | .char ',' :: r => do
      let (vs, rest) ← elements fuel room (skipSpace r)
      .ok (v :: vs, rest)
    | r => fail .comma r

def members :
    Nat → Nat → List (Value × Value) → Symbols → Except ReadError (List (Value × Value) × Symbols)
  | 0, _, _, s => fail .value s
  | fuel + 1, room, entries, s =>
    match s with
    | .char '"' :: r => do
      let (name, r) ← stringTail s.length none r
      match skipSpace r with
      | .char ':' :: r => do
        let (v, r) ← value fuel room (skipSpace r)
        let entries := Value.insert (.ofSymbols name) v entries
        match skipSpace r with
        | .char '\x7d' :: rest => .ok (entries, rest)
        | .char ',' :: r => members fuel room entries (skipSpace r)
        | r => fail .comma r
      | r => fail .colon r
    | s => fail .name s

end

def readSymbols (s : Symbols) : Except ReadError Value := do
  let (v, rest) ← value (2 * s.length + 2) Value.maxDepth (skipSpace s)
  match skipSpace rest with
  | [] => .ok v
  | rest => fail .extra rest

/-- Where a problem is: the number of symbols before it, its line and its column. -/
structure Place where
  offset : Nat
  line : Nat
  column : Nat
  deriving DecidableEq, Repr

def placeAfter (before : Symbols) : Place :=
  ⟨before.length, before.count (.char '\n') + 1,
    (before.reverse.takeWhile (· != .char '\n')).length + 1⟩

/-- Why octets are not read as a JSON text. -/
inductive Error where
  | decoding (e : DecodingError)
  | problem (p : Problem) (place : Place)
  | fault (f : Fault)
  deriving DecidableEq, Repr

def Error.message : Error → String
  | decoding e => e.message
  | problem p place => p.text ++ ": line " ++ toString place.line ++ " column " ++ toString place.column
      ++ " (char " ++ toString place.offset ++ ")"
  | fault f => f.message

def read (octets : List UInt8) : Except Error Value :=
  match decodeText octets with
  | .error e => .error (.decoding e)
  | .ok s =>
    match readSymbols s with
    | .ok v => .ok v
    | .error (.fault f) => .error (.fault f)
    | .error (.problem p left) => .error (.problem p (placeAfter (s.take (s.length - left))))

end BatteryLink.Json
