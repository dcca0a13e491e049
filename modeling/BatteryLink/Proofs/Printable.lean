import BatteryLink.Proofs.Stopping
import BatteryLink.Value
/-!
Which values can be written out: those without a whole number that has too many digits, however deep
it is buried in them, and without more levels than there is room for.
-/
namespace BatteryLink.Value

open Reading (maxIntDigits)

def PrintableWithin (room : Nat) (v : Value) : Prop := ∃ t, v.shownWithin room = .ok t

def Printable (v : Value) : Prop := v.PrintableWithin maxDepth

/-- Whether a value is made of others, so that it takes a level to write it. -/
def nests : Value → Bool
  | list _ | dict _ | quantity _ _ => true
  | _ => false

section
variable {room : Nat}

theorem printableWithin_int {i : Int} :
    PrintableWithin room (.int i) ↔ i.natAbs < 10 ^ maxIntDigits := by
  unfold PrintableWithin
  rw [shownWithin, intText]
  split
  · next long => exact ⟨nofun, fun small => absurd small (Nat.not_lt.mpr long)⟩
  · next small => exact ⟨fun _ => Nat.not_le.mp small, fun _ => ⟨_, rfl⟩⟩

theorem PrintableWithin.roomy {v : Value} (h : PrintableWithin room v) (nests : v.nests = true) :
    ∃ left, room = left + 1 := by
  obtain ⟨t, ht⟩ := h
  cases v with
  | list _ | dict _ | quantity _ _ =>
    cases room with
    | zero =>
      rw [shownWithin] at ht
      cases ht
    | succ left => exact ⟨left, rfl⟩
  | _ => cases nests

theorem printableWithin_list {vs : List Value} :
    PrintableWithin (room + 1) (.list vs) ↔ ∀ v ∈ vs, PrintableWithin room v := by
  have all : (∃ ts, shownAll vs room = .ok ts) ↔ ∀ v ∈ vs, PrintableWithin room v := by
    induction vs with
    | nil => exact ⟨fun _ => List.forall_mem_nil _, fun _ => ⟨[], by rw [shownAll]⟩⟩
    | cons v vs ih =>
      rw [List.forall_mem_cons, ← ih]
      unfold PrintableWithin
      simp [shownAll, exists_bind_eq_ok]
  rw [← all]
  unfold PrintableWithin
  simp [shownWithin, exists_bind_eq_ok]

theorem printableWithin_dict {es : List (Value × Value)} :
    PrintableWithin (room + 1) (.dict es) ↔
      ∀ e ∈ es, PrintableWithin room e.1 ∧ PrintableWithin room e.2 := by
  have all : (∃ ts, shownEntries es room = .ok ts) ↔
      ∀ e ∈ es, PrintableWithin room e.1 ∧ PrintableWithin room e.2 := by
    induction es with
    | nil => exact ⟨fun _ => List.forall_mem_nil _, fun _ => ⟨[], by rw [shownEntries]⟩⟩
    | cons e es ih =>
      rw [List.forall_mem_cons, ← ih]
      unfold PrintableWithin
      simp [shownEntries, exists_bind_eq_ok, and_assoc]
  rw [← all]
  unfold PrintableWithin
  simp [shownWithin, exists_bind_eq_ok]

theorem printableWithin_quantity {v : Value} {u : String} :
    PrintableWithin (room + 1) (.quantity v u) ↔ PrintableWithin room v := by
  unfold PrintableWithin
  simp [shownWithin, exists_bind_eq_ok]

/-- Texts, truth values and the like can always be written out. -/
theorem printableWithin_plain {v : Value} (flat : v.nests = false) (other : v.asInt? = Option.none) :
    PrintableWithin room v := by
  cases v with
  | int _ => cases other
  | list _ | dict _ | quantity _ _ => cases flat
  | none | bool _ | float _ | text _ | broken _ | bytes _ | switch _ =>
    exact ⟨_, by rw [shownWithin]⟩

end

theorem printable_int {i : Int} : Printable (.int i) ↔ i.natAbs < 10 ^ maxIntDigits :=
  printableWithin_int

theorem printable_plain {v : Value} (flat : v.nests = false) (other : v.asInt? = Option.none) :
    Printable v :=
  printableWithin_plain flat other

/-- Texts stand for themselves, so that they need not be written out. -/
theorem printable_iff_display {v : Value} : Printable v ↔ ∃ t, v.display = .ok t := by
  unfold Value.display
  cases v with
  | text _ | broken _ | switch _ => exact ⟨fun _ => ⟨_, rfl⟩, fun _ => printable_plain rfl rfl⟩
  | none | bool _ | int _ | float _ | bytes _ | list _ | dict _ | quantity _ _ => exact Iff.rfl

/-- `Within n w v`: the value `w` stands in `v`, under `n` levels of it. -/
inductive Within : Nat → Value → Value → Prop
  | whole {v : Value} : Within 0 v v
  | item {n : Nat} {w v : Value} {vs : List Value} : v ∈ vs → Within n w v → Within (n + 1) w (.list vs)
  | key {n : Nat} {w : Value} {es : List (Value × Value)} {e : Value × Value} :
      e ∈ es → Within n w e.1 → Within (n + 1) w (.dict es)
  | entry {n : Nat} {w : Value} {es : List (Value × Value)} {e : Value × Value} :
      e ∈ es → Within n w e.2 → Within (n + 1) w (.dict es)
  | amount {n : Nat} {w v : Value} {u : String} : Within n w v → Within (n + 1) w (.quantity v u)

/-- Nothing keeps a value under `n` levels from being written: it is no long whole number, and there
is room for it. -/
def Writable (room n : Nat) (w : Value) : Prop :=
  (∀ i, w = .int i → i.natAbs < 10 ^ maxIntDigits) ∧ (w.nests = true → n < room)

theorem writable_succ {room n : Nat} {w : Value} : Writable (room + 1) (n + 1) w ↔ Writable room n w :=
  and_congr_right' (imp_congr_right fun _ => Nat.succ_lt_succ_iff)

theorem Within.writable {n room : Nat} {w v : Value} (h : Within n w v) (hv : v.PrintableWithin room) :
    Writable room n w := by
  induction h generalizing room with
  | whole =>
    refine ⟨fun i he => printableWithin_int.mp (he ▸ hv), fun nests => ?_⟩
    obtain ⟨left, rfl⟩ := hv.roomy nests
    exact Nat.succ_pos left
  | item mem _ ih =>
    obtain ⟨left, rfl⟩ := hv.roomy rfl
    exact writable_succ.mpr (ih (printableWithin_list.mp hv _ mem))
  | key mem _ ih =>
    obtain ⟨left, rfl⟩ := hv.roomy rfl
    exact writable_succ.mpr (ih (printableWithin_dict.mp hv _ mem).1)
  | entry mem _ ih =>
    obtain ⟨left, rfl⟩ := hv.roomy rfl
    exact writable_succ.mpr (ih (printableWithin_dict.mp hv _ mem).2)
  | amount _ ih =>
    obtain ⟨left, rfl⟩ := hv.roomy rfl
    exact writable_succ.mpr (ih (printableWithin_quantity.mp hv))

theorem sizeOf_entry_lt {es : List (Value × Value)} {e : Value × Value} (h : e ∈ es) :
    sizeOf e.1 < sizeOf es ∧ sizeOf e.2 < sizeOf es := by
  have := List.sizeOf_lt_of_mem h
  obtain ⟨k, v⟩ := e
  simp only [Prod.mk.sizeOf_spec] at this ⊢
  omega

theorem printable_of_writable (v : Value) (room : Nat) (h : ∀ n w, Within n w v → Writable room n w) :
    v.PrintableWithin room := by
  have inside : v.nests = true → ∃ left, room = left + 1 := fun nests =>
    Nat.exists_eq_add_one_of_ne_zero (Nat.ne_zero_of_lt ((h 0 v .whole).2 nests))
  match v with
  | int i => exact printableWithin_int.mpr ((h 0 _ .whole).1 i rfl)
  | list vs =>
    obtain ⟨left, rfl⟩ := inside rfl
    exact printableWithin_list.mpr fun u hu =>
      printable_of_writable u left fun n w hw => writable_succ.mp (h _ w (.item hu hw))
  | dict es =>
    obtain ⟨left, rfl⟩ := inside rfl
    exact printableWithin_dict.mpr fun e he =>
      ⟨printable_of_writable e.1 left fun n w hw => writable_succ.mp (h _ w (.key he hw)),
        printable_of_writable e.2 left fun n w hw => writable_succ.mp (h _ w (.entry he hw))⟩
  | quantity u _ =>
    obtain ⟨left, rfl⟩ := inside rfl
    exact printableWithin_quantity.mpr
      (printable_of_writable u left fun n w hw => writable_succ.mp (h _ w (.amount hw)))
  | none | bool _ | float _ | text _ | broken _ | bytes _ | switch _ =>
    exact printableWithin_plain rfl rfl
termination_by sizeOf v
decreasing_by
  · have := List.sizeOf_lt_of_mem hu
    simp only [list.sizeOf_spec]
    omega
  · have := (sizeOf_entry_lt he).1
    simp only [dict.sizeOf_spec]
    omega
  · have := (sizeOf_entry_lt he).2
    simp only [dict.sizeOf_spec]
    omega
  · simp only [quantity.sizeOf_spec]
    omega

/-- More room does no harm. -/
theorem PrintableWithin.mono {room more : Nat} {v : Value} (h : v.PrintableWithin room) (le : room ≤ more) :
    v.PrintableWithin more :=
  printable_of_writable v more fun _ _ hw =>
    (hw.writable h).imp_right fun lt nests => Nat.lt_of_lt_of_le (lt nests) le

/-- Of a dictionary that can be written out, so can its values. -/
theorem printable_entry {es : List (Value × Value)} (h : Printable (.dict es)) :
    ∀ e ∈ es, e.2.Printable := by
  obtain ⟨left, room⟩ := h.roomy rfl
  rw [Printable, room, printableWithin_dict] at h
  exact fun e he => (h e he).2.mono (by omega)

theorem printable_iff {v : Value} : v.Printable ↔ ∀ n w, Within n w v → Writable maxDepth n w :=
  ⟨fun hv _ _ hw => hw.writable hv, printable_of_writable v maxDepth⟩

end BatteryLink.Value
