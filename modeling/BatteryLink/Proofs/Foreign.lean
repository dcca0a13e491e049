import BatteryLink.Identity
import BatteryLink.Proofs.Stopping
import BatteryLink.Status
/-!
Faults that come from outside: from the host application, from the network and from the user.
Nothing that is done with data ends with one of them, whatever the data.
-/
namespace BatteryLink

def Fault.isForeign : Fault → Bool
  | .host _ | .crash _ | .interrupt _ => true
  | _ => false

/-- A computation that ends with no fault from outside; `fault?` tells the fault of an error. -/
def Homely {ε α : Type} (fault? : ε → Option Fault) (x : Except ε α) : Prop :=
  ∀ e f, x = .error e → fault? e = some f → f.isForeign = false

def Stopped.fault? {ε : Type} : Stopped ε → Option Fault
  | .refused _ => none
  | .fault f => some f

namespace Homely

variable {ε α β : Type} {fault? : ε → Option Fault}

theorem ok (a : α) : Homely fault? (.ok a : Except ε α) := by
  intro e f h
  cases h

theorem bind {x : Except ε α} {g : α → Except ε β} (hx : Homely fault? x)
    (hg : ∀ a, Homely fault? (g a)) : Homely fault? (x >>= g) := by
  intro e f h hf
  rcases bind_eq_error.mp h with h | ⟨a, -, h⟩
  · exact hx e f h hf
  · exact hg a e f h hf

theorem error {e : ε} (h : ∀ f, fault? e = some f → f.isForeign = false) :
    Homely fault? (.error e : Except ε α) := by
  intro e' f he hf
  cases he
  exact h f hf

theorem orFault {x : Except Fault α} (h : Homely some x) :
    Homely Stopped.fault? (BatteryLink.orFault x : Except (Stopped ε) α) := by
  cases x with
  | ok a => exact ok a
  | error f =>
    apply error
    intro g hg
    cases hg
    exact h f f rfl rfl

end Homely

namespace Value

theorem homely_intText (i : Int) : Homely some (intText i) := by
  unfold intText
  split
  · exact .error fun f hf => by cases hf; rfl
  · exact .ok _

mutual

theorem homely_shownWithin : (v : Value) → (room : Nat) → Homely some (shownWithin v room)
  | .none, _ | .bool _, _ | .float _, _ | .text _, _ | .broken _, _ | .bytes _, _ | .switch _, _ => by
    unfold shownWithin
    exact .ok _
  | .int i, _ => by
    unfold shownWithin
    exact homely_intText i
  | .list _, 0 | .dict _, 0 | .quantity _ _, 0 => by
    unfold shownWithin
    exact .error fun f hf => by cases hf; rfl
  | .list l, room + 1 => by
    unfold shownWithin
    exact (homely_shownAll l room).bind fun _ => .ok _
  | .dict d, room + 1 => by
    unfold shownWithin
    exact (homely_shownEntries d room).bind fun _ => .ok _
  | .quantity v _, room + 1 => by
    unfold shownWithin
    exact (homely_shownWithin v room).bind fun _ => .ok _

theorem homely_shownAll : (l : List Value) → (room : Nat) → Homely some (shownAll l room)
  | [], _ => by
    unfold shownAll
    exact .ok _
  | v :: r, room => by
    unfold shownAll
    exact (homely_shownWithin v room).bind fun _ => (homely_shownAll r room).bind fun _ => .ok _

theorem homely_shownEntries :
    (d : List (Value × Value)) → (room : Nat) → Homely some (shownEntries d room)
  | [], _ => by
    unfold shownEntries
    exact .ok _
  | (k, v) :: r, room => by
    unfold shownEntries
    exact (homely_shownWithin k room).bind fun _ => (homely_shownWithin v room).bind fun _ =>
      (homely_shownEntries r room).bind fun _ => .ok _

end

theorem homely_shown (v : Value) : Homely some v.shown := homely_shownWithin v maxDepth

theorem homely_display (v : Value) : Homely some v.display := by
  unfold display
  split
  · exact .ok _
  · exact homely_shown v

theorem homely_symbols (v : Value) : Homely some v.symbols := by
  unfold symbols
  split
  · exact .ok _
  · exact (homely_shown v).bind fun _ => .ok _

end Value

namespace Json

def ReadError.fault? : ReadError → Option Fault
  | .problem _ _ => none
  | .fault f => some f

def Error.fault? : Error → Option Fault
  | .fault f => some f
  | _ => none

theorem homely_problem {α : Type} (p : Problem) (left : Nat) :
    Homely ReadError.fault? (.error (.problem p left) : Except ReadError α) :=
  .error fun f hf => by cases hf

theorem homely_fail {α : Type} (p : Problem) (rest : Text.Symbols) :
    Homely ReadError.fault? (fail p rest : Except ReadError α) := homely_problem p _

theorem homely_stringTail (opening : Nat) (high : Option Nat) (s : Text.Symbols) :
    Homely ReadError.fault? (stringTail opening high s) := by
  fun_induction stringTail opening high s <;>
    first
      | exact .ok _
      | exact homely_problem _ _
      | exact homely_fail _ _
      | assumption
      | exact Homely.bind (by assumption) fun _ => .ok _

theorem homely_numberValue (whole fraction exponent : List Char) :
    Homely ReadError.fault? (numberValue whole fraction exponent) := by
  unfold numberValue
  split
  · split
    · exact .ok _
    · exact .error fun f hf => by cases hf; rfl
    · exact .error fun f hf => by cases hf; rfl
  · exact .ok _

theorem homely_scalar (s : Text.Symbols) : Homely ReadError.fault? (scalar s) := by
  unfold scalar
  split
  · exact .ok _
  · split
    · exact homely_fail _ _
    · exact (homely_numberValue _ _ _).bind fun _ => .ok _

theorem homely_tooDeep {α : Type} (kind : String) :
    Homely ReadError.fault? (tooDeep kind : Except ReadError α) :=
  .error fun f hf => by cases hf; rfl

/-- The induction is on the fuel that values, elements and members share. -/
theorem homely_nested (fuel : Nat) :
    (∀ room s, Homely ReadError.fault? (value fuel room s)) ∧
    (∀ room s, Homely ReadError.fault? (elements fuel room s)) ∧
    (∀ room entries s, Homely ReadError.fault? (members fuel room entries s)) := by
  induction fuel with
  | zero =>
    refine ⟨fun room s => ?_, fun room s => ?_, fun room entries s => ?_⟩
    · unfold value; exact homely_fail _ _
    · unfold elements; exact homely_fail _ _
    · unfold members; exact homely_fail _ _
  | succ fuel ih =>
    obtain ⟨hv, he, hm⟩ := ih
    refine ⟨fun room s => ?_, fun room s => ?_, fun room entries s => ?_⟩
    · unfold value
      split
      · exact (homely_stringTail _ _ _).bind fun _ => .ok _
      · split
        · exact homely_tooDeep _
        · split
          · exact .ok _
          · exact (he _ _).bind fun _ => .ok _
      · split
        · exact homely_tooDeep _
        · split
          · exact .ok _
          · exact (hm _ _ _).bind fun _ => .ok _
      · exact homely_scalar _
    · unfold elements
      refine (hv _ _).bind fun (v, r) => ?_
      dsimp only
      split
      · exact .ok _
      · exact (he _ _).bind fun _ => .ok _
      · exact homely_fail _ _
    · unfold members
      split
      · refine (homely_stringTail _ _ _).bind fun (name, r) => ?_
        dsimp only
        split
        · refine (hv _ _).bind fun (v, r) => ?_
          dsimp only
          split
          · exact .ok _
          · exact hm _ _ _
          · exact homely_fail _ _
        · exact homely_fail _ _
      · exact homely_fail _ _

theorem homely_read (octets : List UInt8) : Homely Error.fault? (read octets) := by
  unfold read
  split
  · exact .error fun f hf => by cases hf
  · have hs : ∀ s, Homely ReadError.fault? (readSymbols s) := by
      intro s
      unfold readSymbols
      refine ((homely_nested _).1 _ _).bind fun (v, rest) => ?_
      dsimp only
      split
      · exact .ok _
      · exact homely_fail _ _
    split
    · exact .ok _
    · next f hf =>
      refine .error fun g hg => ?_
      cases hg
      exact hs _ _ f hf rfl
    · exact .error fun f hf => by cases hf

end Json

theorem Reply.homely_decode (payload : List UInt8) : Homely Stopped.fault? (decode payload) := by
  unfold decode
  split
  · next f hf =>
    refine .error fun g hg => ?_
    cases hg
    exact Json.homely_read payload _ f hf rfl
  · exact .error fun f hf => by cases hf
  · unfold result
    split
    · split
      · exact .ok _
      · exact .error fun f hf => by cases hf
    · exact (Homely.orFault (Value.homely_display _)).bind fun _ =>
        .error fun f hf => by cases hf
  · exact .error fun f hf => by cases hf

namespace Identity

theorem homely_textOr (usual : String) (v : Value) : Homely some (textOr usual v) := by
  unfold textOr
  split
  · exact Value.homely_symbols v
  · exact .ok _

theorem homely_ofResult (r : Reply.Entries) : Homely some (ofResult r) := by
  unfold ofResult
  split
  · exact (homely_textOr _ _).bind fun _ => (Value.homely_symbols _).bind fun _ =>
      (homely_textOr _ _).bind fun _ => (homely_textOr _ _).bind fun _ =>
      (homely_textOr _ _).bind fun _ => (homely_textOr _ _).bind fun _ => .ok _
  · exact .ok _

end Identity

namespace Status

theorem homely_toDouble (v : Value) : Homely some (toDouble v) := by
  unfold toDouble
  split
  · split
    · exact .ok _
    · exact .error fun f hf => by cases hf; rfl
  · exact .ok _
  · exact .ok _

theorem homely_convert (shape : Shape) (v : Value) : Homely some (convert shape v) := by
  unfold convert
  split
  · exact (homely_toDouble v).bind fun _ => .ok _
  · exact (homely_toDouble v).bind fun _ => .ok _
  · refine Homely.bind ?_ fun _ => .ok _
    unfold toSwitch
    split
    · exact .ok _
    · split
      · exact .ok _
      · exact (homely_toDouble _).bind fun _ => .ok _
  · exact (homely_toDouble v).bind fun _ => .ok _
  · split
    · exact .ok _
    · exact .ok _
    · exact .ok _
    · exact (Value.homely_display _).bind fun _ => .ok _
    · exact (Value.homely_display _).bind fun _ => .ok _
    · exact .ok _

theorem homely_updates (m : Method) (r : Reply.Entries) : Homely some (updates m r) := by
  unfold updates
  induction fields m with
  | nil => exact .ok _
  | cons f fs ih =>
    unfold updatesOf
    refine Homely.bind ?_ fun _ => ih.bind fun _ => .ok _
    unfold update
    split
    · exact .ok _
    · exact (homely_convert _ _).bind fun _ => .ok _

end Status
end BatteryLink
