import BatteryLink.Text.Quoted
import BatteryLink.Text.Symbol
/-!
From octets to symbols. A JSON text may come in UTF-8, UTF-16 or UTF-32; a byte order mark or
the zeros among its first octets tell which. Surrogates that stand alone are let through.
-/
namespace BatteryLink.Json

open Text (Symbol Symbols pairCode isHighSurrogate isLowSurrogate)

inductive Encoding where
  | utf8
  /-- UTF-8 after a byte order mark of three octets. -/
  | utf8Marked
  | utf16 (bigEndian : Bool) (marked : Bool)
  | utf32 (bigEndian : Bool) (marked : Bool)
  deriving DecidableEq, Repr

def Encoding.name : Encoding → String
  | utf8 | utf8Marked => "utf-8"
  | utf16 big _ => if big then "utf-16-be" else "utf-16-le"
  | utf32 big _ => if big then "utf-32-be" else "utf-32-le"

namespace Encoding

/-- The byte order mark. -/
def mark : Encoding → List UInt8
  | utf8Marked => [0xef, 0xbb, 0xbf]
  | utf16 big true => if big then [0xfe, 0xff] else [0xff, 0xfe]
  | utf32 big true => if big then [0x00, 0x00, 0xfe, 0xff] else [0xff, 0xfe, 0x00, 0x00]
  | _ => []

/-- The encodings with a mark. The mark of UTF-16 may begin one of UTF-32. -/
def marked : List Encoding :=
  [utf32 true true, utf32 false true, utf16 true true, utf16 false true, utf8Marked]

/-- The encoding that the zeros among the first octets tell. -/
def unmarked : List UInt8 → Encoding
  | [a, b] => if a = 0 then utf16 true false else if b = 0 then utf16 false false else utf8
  | a :: b :: c :: d :: _ =>
    if a = 0 then if b = 0 then utf32 true false else utf16 true false
    else if b = 0 then if c = 0 ∧ d = 0 then utf32 false false else utf16 false false
    else utf8
  | _ => utf8

/-- The encoding that the first octets announce. -/
def detect (octets : List UInt8) : Encoding :=
  (marked.find? fun e => e.mark.isPrefixOf octets).getD (unmarked octets)

end Encoding

inductive DecodingReason where
  | startByte
  | continuationByte
  | endOfData
  | truncated
  | outOfRange
  deriving DecidableEq, Repr

def DecodingReason.text : DecodingReason → String
  | startByte => "invalid start byte"
  | continuationByte => "invalid continuation byte"
  | endOfData => "unexpected end of data"
  | truncated => "truncated data"
  | outOfRange => "code point not in range(0x110000)"

/-- Octets that stand for no character: their encoding, the first one with its value, their number
and what is wrong with them. -/
structure DecodingError where
  encoding : Encoding
  position : Nat
  octet : UInt8
  count : Nat
  reason : DecodingReason
  deriving DecidableEq, Repr

def DecodingError.message (e : DecodingError) : String :=
  let place :=
    if e.count = 1 then
      "byte 0x" ++ String.ofList (Text.Quoted.hex 2 e.octet.toNat) ++ " in position "
        ++ toString e.position
    else "bytes in position " ++ toString e.position ++ "-" ++ toString (e.position + e.count - 1)
  "'" ++ e.encoding.name ++ "' codec can't decode " ++ place ++ ": " ++ e.reason.text

def isContinuation (b : UInt8) : Bool := 0x80 ≤ b && b < 0xC0

def sixBits (b : UInt8) : Nat := b.toNat % 64

/-- What the octets of one character say: the character and how many octets it takes, or how many
octets are at fault. -/
inductive Utf8Unit where
  | char (code : Nat) (size : Nat)
  | bad (reason : DecodingReason) (count : Nat)
  deriving DecidableEq, Repr

/-- Whether `b` may follow the first octet `a` of a longer character. Surrogates may be written. -/
def secondFits (a b : UInt8) : Bool :=
  isContinuation b && !(a == 0xE0 && b < 0xA0) && !(a == 0xF0 && b < 0x90) &&
    !(a == 0xF4 && 0x90 ≤ b)

/-- Whether a character of three octets would be a surrogate. -/
def startsSurrogate (a b : UInt8) : Bool := a == 0xED && 0xA0 ≤ b

def utf8Unit (a : UInt8) (r : List UInt8) : Utf8Unit :=
  if a < 0x80 then .char a.toNat 1
  else if a < 0xC2 ∨ 0xF5 ≤ a then .bad .startByte 1
  else match r with
    | [] => .bad .endOfData 1
    | b :: r =>
      if !secondFits a b then .bad .continuationByte 1
      else if a < 0xE0 then .char (a.toNat % 32 * 64 + sixBits b) 2
      else match r with
        | [] => if startsSurrogate a b then .bad .continuationByte 1 else .bad .endOfData 2
        | c :: r =>
          if !isContinuation c then .bad .continuationByte (if startsSurrogate a b then 1 else 2)
          else if a < 0xF0 then .char (a.toNat % 16 * 4096 + sixBits b * 64 + sixBits c) 3
          else match r with
            | [] => .bad .endOfData 3
            | d :: _ =>
              if !isContinuation d then .bad .continuationByte 3
              else .char (a.toNat % 8 * 262144 + sixBits b * 4096 + sixBits c * 64 + sixBits d) 4

/-- Reads UTF-8 from `position` on; `skip` octets belong to the character before. -/
def decodeUtf8 (e : Encoding) (position skip : Nat) :
    List UInt8 → Except DecodingError Symbols
  | [] => .ok []
  | a :: r =>
    match skip with
    | skip + 1 => decodeUtf8 e (position + 1) skip r
    | 0 =>
      match utf8Unit a r with
      | .bad reason count => .error ⟨e, position, a, count, reason⟩
      | .char code size => do
        .ok (.ofCode code :: (← decodeUtf8 e (position + 1) (size - 1) r))

/-- The units of two octets, in the given order. -/
def readUnits16 (big : Bool) (e : Encoding) (position : Nat) :
    List UInt8 → Except DecodingError (List Nat)
  | [] => .ok []
  | [a] => .error ⟨e, position, a, 1, .truncated⟩
  | a :: b :: r => do
    let unit := if big then a.toNat * 256 + b.toNat else b.toNat * 256 + a.toNat
    .ok (unit :: (← readUnits16 big e (position + 2) r))

/-- Joins surrogate pairs. -/
def joinPairs : List Nat → Symbols
  | [] => []
  | [a] => [.ofCode a]
  | a :: b :: r =>
    if isHighSurrogate a && isLowSurrogate b then .ofCode (pairCode a b) :: joinPairs r
    else .ofCode a :: joinPairs (b :: r)

def decodeUtf32 (big : Bool) (e : Encoding) (position : Nat) :
    List UInt8 → Except DecodingError Symbols
  | [] => .ok []
  | a :: b :: c :: d :: r => do
    let code :=
      if big then ((a.toNat * 256 + b.toNat) * 256 + c.toNat) * 256 + d.toNat
      else ((d.toNat * 256 + c.toNat) * 256 + b.toNat) * 256 + a.toNat
    if 0x110000 ≤ code then .error ⟨e, position, a, 4, .outOfRange⟩
    else .ok (.ofCode code :: (← decodeUtf32 big e (position + 4) r))
  | a :: r => .error ⟨e, position, a, r.length + 1, .truncated⟩

/-- The symbols of a JSON text. Octets before a truncated end are read first, so that what is
wrong with them is reported. -/
def decodeText (octets : List UInt8) : Except DecodingError Symbols :=
  let e := Encoding.detect octets
  match e with
  | .utf8 => decodeUtf8 e 0 0 octets
  | .utf8Marked => decodeUtf8 e 0 0 (octets.drop 3)
  | .utf16 big marked => do
    let skip := if marked then 2 else 0
    .ok (joinPairs (← readUnits16 big e skip (octets.drop skip)))
  | .utf32 big marked =>
    let skip := if marked then 4 else 0
    decodeUtf32 big e skip (octets.drop skip)

end BatteryLink.Json
