import BatteryLink.Reply
import BatteryLink.Text.Blank
import BatteryLink.Text.Digit
import BatteryLink.Text.WordChar
/-!
Who a device is: what it says about itself, and the name it is shown under.
-/
namespace BatteryLink

structure Identity where
  deviceType : Text.Symbols
  firmware : Text.Symbols
  bluetoothAddress : Text.Symbols
  wifiAddress : Text.Symbols
  wifiName : Text.Symbols
  ip : Text.Symbols
  deriving DecidableEq, Repr

namespace Identity

/-- Members of which a result needs one to identify its device. -/
def identifying : List String := ["device", "ip", "ble_mac", "wifi_mac"]

def identifies (r : Reply.Entries) : Bool :=
  identifying.any fun k => (Value.get? k r).isSome

/-- The text of a value, or another text if the value counts as false. -/
def textOr (usual : String) (v : Value) : Except Fault Text.Symbols :=
  if v.truthy then v.symbols else .ok (.ofString usual)

def ofResult (r : Reply.Entries) : Except Fault (Option Identity) :=
  if identifies r then do
    return some {
      deviceType := ← textOr "Unknown" (Value.get "device" r)
      firmware := ← ((Value.get? "ver" r).getD (.int 0)).symbols
      bluetoothAddress := ← textOr "" (Value.get "ble_mac" r)
      wifiAddress := ← textOr "" (Value.get "wifi_mac" r)
      wifiName := ← textOr "" (Value.get "wifi_name" r)
      ip := ← textOr "" (Value.get "ip" r) }
  else .ok none

/-- The address of the device, that of its wireless network first. -/
def address (i : Identity) : Text.Symbols :=
  if i.wifiAddress.isEmpty then i.bluetoothAddress else i.wifiAddress

def members (i : Identity) : List (String × Text.Symbols) :=
  [("device_type", i.deviceType), ("firmware", i.firmware), ("ble_mac", i.bluetoothAddress),
   ("wifi_mac", i.wifiAddress), ("wifi_name", i.wifiName), ("ip", i.ip)]

/-- Groups of digits separated by points. -/
def isVersionNumber (s : List Char) : Bool :=
  (Text.splitOn '.' s).all fun g => !g.isEmpty && g.all Text.isDecimal

def dropVersionMark : List Char → List Char
  | 'v' :: r => r
  | 'V' :: r => r
  | s => s

/-- Splits a trimmed type into what stands before its last word, without the blanks between, and
that word. -/
def splitLastWord (s : List Char) : List Char × List Char :=
  let word := (s.reverse.takeWhile fun c => !Text.isBlank c).reverse
  let before := (s.reverse.dropWhile fun c => !Text.isBlank c).dropWhile Text.isBlank |>.reverse
  (before, word)

/-- The version number at the end of a trimmed type and what stands before it. A line feed before
it hides the version. -/
def splitVersion? (s : List Char) : Option (List Char × List Char) :=
  let (before, word) := splitLastWord s
  let version := dropVersionMark word
  if !before.isEmpty && !before.contains '\n' && isVersionNumber version then
    some (before, version)
  else none

/-- Sets the letter after a leading `Venus` apart, if the word ends with it. -/
def spaceModel (s : List Char) : List Char :=
  match s with
  | 'V' :: 'e' :: 'n' :: 'u' :: 's' :: c :: r =>
    if c.isAlpha && !(r.head?.any Text.isWordChar) then "Venus ".toList ++ c :: r else s
  | s => s

def joinWords (ws : List (List Char)) : List Char := [' '].intercalate ws

def displayName (deviceType : String) : String :=
  let raw := Text.trimChars deviceType.toList
  if raw.isEmpty then "Device"
  else
    let (base, version) := match splitVersion? raw with
      | some (b, v) => (b, some v)
      | none => (raw, none)
    let base := joinWords (Text.words (spaceModel base))
    String.ofList (match version with
      | some v => base ++ " (".toList ++ v ++ [')']
      | none => base)

def model (i : Identity) : String := displayName i.deviceType.glyphs

/-- A text whose replacement characters give way to other symbols, one by one. -/
def restore : List Char → Text.Symbols → Text.Symbols
  | [], _ => []
  | c :: cs, [] => .char c :: restore cs []
  | c :: cs, x :: xs =>
    if c = '\uFFFD' then x :: restore cs xs else .char c :: restore cs (x :: xs)

/-- The name with the symbols of the type itself. Making a name of a type neither drops nor adds a
replacement character, nor does it change their order. -/
def modelSymbols (i : Identity) : Text.Symbols :=
  restore i.model.toList (i.deviceType.filter fun x => x.glyph = '\uFFFD')

end Identity
end BatteryLink
