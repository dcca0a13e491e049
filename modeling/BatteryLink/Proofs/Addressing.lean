import BatteryLink.Proofs.Channel
import Mathlib.Data.Nat.Digits.Defs
/-!
Which identifiers address which channel. Every channel is addressed by its own identifier; but a slot
is addressed as well by any other numeral for its number, in the digits of any script and with zeros
before it.
-/
namespace BatteryLink

namespace Reading

open Text

/-- A numeral in the digits of any script, and its number. -/
def Denotes (digits : List Char) (n : Nat) : Prop :=
  ∃ ds : List Nat, digits.map decimalValue? = ds.map some ∧ Nat.ofDigits 10 ds.reverse = n

theorem Denotes.decimal {digits : List Char} {n : Nat} (h : Denotes digits n) :
    ∀ c ∈ digits, isDecimal c = true := by
  obtain ⟨ds, hds, -⟩ := h
  intro c hc
  have mem : decimalValue? c ∈ ds.map some := hds ▸ List.mem_map_of_mem hc
  obtain ⟨d, -, hd⟩ := List.mem_map.mp mem
  rw [isDecimal, ← hd]
  rfl

theorem plainDigit_toNat {c : Char} {d : Nat} (h : decimalValue? c = some d) :
    (plainDigit c).toNat - 48 = d := by
  have value : ∀ d < 10, (Char.ofNat (48 + d)).toNat - 48 = d := by decide
  unfold plainDigit
  rw [h]
  exact value d (decimalValue?_lt h).1

/-- Digits are added to a number at its end. -/
theorem foldl_plainDigit {digits : List Char} {ds : List Nat}
    (h : digits.map decimalValue? = ds.map some) (n : Nat) :
    (digits.map plainDigit).foldl (fun n c => 10 * n + (c.toNat - 48)) n =
      10 ^ ds.length * n + Nat.ofDigits 10 ds.reverse := by
  induction digits generalizing ds n with
  | nil =>
    cases List.map_eq_nil_iff.mp h.symm
    simp
  | cons c digits ih =>
    obtain ⟨d, ds, rfl, hc, hd⟩ := List.map_eq_cons_iff.mp h.symm
    rw [List.map_cons, List.foldl_cons, plainDigit_toNat hc.symm, ih hd.symm, List.reverse_cons,
      Nat.ofDigits_append, List.length_cons, List.length_reverse, Nat.ofDigits_singleton]
    ring

theorem digitsValue_plain {digits : List Char} {n : Nat} (h : Denotes digits n) :
    digitsValue (digits.map plainDigit) = n := by
  obtain ⟨ds, hds, rfl⟩ := h
  unfold digitsValue
  rw [foldl_plainDigit hds, Nat.mul_zero, Nat.zero_add]

/-- A numeral of decimal digits has a number. -/
theorem denotes_of_decimal {digits : List Char} (h : ∀ c ∈ digits, isDecimal c = true) :
    Denotes digits (digitsValue (digits.map plainDigit)) := by
  obtain ⟨ds, hds⟩ : ∃ ds : List Nat, digits.map decimalValue? = ds.map some := by
    induction digits with
    | nil => exact ⟨[], rfl⟩
    | cons c digits ih =>
      obtain ⟨first, rest⟩ := List.forall_mem_cons.mp h
      obtain ⟨d, hd⟩ := Option.isSome_iff_exists.mp first
      obtain ⟨ds, hds⟩ := ih rest
      exact ⟨d :: ds, by rw [List.map_cons, List.map_cons, hd, hds]⟩
  have denotes : Denotes digits _ := ⟨ds, hds, rfl⟩
  rw [digitsValue_plain denotes]
  exact denotes

theorem int_decimal {s : List Char} (h : ∀ c ∈ s, isDecimal c = true) (hs : s ≠ [])
    (short : s.length ≤ maxIntDigits) : int s = .ok (digitsValue (s.map plainDigit)) := by
  have digit : ∀ c ∈ s, isDigit c = true := fun c hc => Bool.or_eq_true_iff.mpr (.inl (h c hc))
  cases hi : int s with
  | error e =>
    rcases (int_digits digit hs).mp ⟨e, hi⟩ with ⟨c, hc, other⟩ | long
    · exact absurd (h c hc) (Bool.eq_false_iff.mp other)
    · exact absurd short (Nat.not_le.mpr long)
  | ok i =>
    have ascii : ∀ c ∈ s.map plainDigit, isAsciiDigit c = true := by
      simpa using fun c hc => plainDigit_decimal (h c hc)
    have run : (s.map plainDigit).takeWhile (fun c => isAsciiDigit c || c = '_') =
        s.map plainDigit :=
      List.takeWhile_eq_self_iff.mpr fun c hc => by rw [ascii c hc, Bool.true_or]
    have no_mark : '_' ∉ s.map plainDigit := fun hm => absurd (ascii _ hm) (by decide)
    unfold int at hi
    rw [prepare_digits digit, splitSign_plain fun c hc => .inl (ascii c hc)] at hi
    dsimp only at hi
    rw [run, dropUnderscores?_none no_mark] at hi
    dsimp only at hi
    -- the tests for something else have all been passed, as the numeral is read
    split_ifs at hi
    exact hi.symm

/-- A numeral that is read, and its number. -/
structure Numeral (digits : List Char) (n : Nat) : Prop where
  some_digit : digits ≠ []
  short : digits.length ≤ maxIntDigits
  denotes : Denotes digits n

theorem Numeral.no_mark {digits : List Char} {n : Nat} (h : Numeral digits n) : '#' ∉ digits :=
  fun hm => absurd (h.denotes.decimal _ hm) (by decide)

end Reading

theorem Control.ofId?_eq_some {s : String} {k : Control} : Control.ofId? s = some k ↔ s = k.id := by
  have all : ∀ k : Control, Control.ofId? k.id = some k := by
    intro k
    cases k <;> decide
  constructor
  · intro h
    have same := List.find?_some h
    exact (beq_iff_eq.mp same).symm
  · rintro rfl
    exact all k

theorem SlotField.ofId?_eq_some {s : String} {f : SlotField} :
    SlotField.ofId? s = some f ↔ s = f.id := by
  have all : ∀ f : SlotField, SlotField.ofId? f.id = some f := by
    intro f
    cases f <;> decide
  constructor
  · intro h
    have same := List.find?_some h
    exact (beq_iff_eq.mp same).symm
  · rintro rfl
    exact all f

namespace Channel

open Text Reading

theorem slotNumber?_eq_some {digits : List Char} {i : Fin 4} :
    slotNumber? digits = .ok (some i) ↔ Numeral digits i := by
  by_cases stops : ∃ f, slotNumber? digits = .error f
  · obtain ⟨f, hf⟩ := stops
    rw [hf]
    refine ⟨nofun, fun ⟨_, short, denotes⟩ => ?_⟩
    rcases (slotNumber?_error_iff.mp ⟨f, hf⟩).2.2 with ⟨c, hc, other⟩ | long
    · exact absurd (denotes.decimal c hc) (Bool.eq_false_iff.mp other)
    · exact absurd short (Nat.not_le.mpr long)
  · by_cases digit : digits ≠ [] ∧ ∀ c ∈ digits, isDigit c = true
    · obtain ⟨some_digit, digit⟩ := digit
      rw [slotNumber?_error_iff] at stops
      simp only [not_and, not_or, not_exists, Bool.not_eq_false, Nat.not_lt] at stops
      obtain ⟨decimal, short⟩ := stops some_digit digit
      have denotes := denotes_of_decimal decimal
      have read : slotNumber? digits = .ok (if h : digitsValue (digits.map plainDigit) < 4
          then some ⟨_, h⟩ else none) := by
        unfold slotNumber?
        rw [if_neg (by simpa [some_digit] using digit), int_decimal decimal some_digit short]
        rfl
      rw [read]
      constructor
      · intro h
        split_ifs at h with small
        · cases h
          exact ⟨some_digit, short, denotes⟩
        · cases h
      · rintro ⟨-, -, number⟩
        have same := digitsValue_plain number
        rw [dif_pos (same ▸ i.isLt)]
        exact congrArg (Except.ok ∘ some) (Fin.ext same)
    · have none : slotNumber? digits = .ok none := by
        unfold slotNumber?
        rw [if_pos]
        by_contra h
        simp only [Bool.or_eq_true, List.isEmpty_iff, Bool.not_eq_true', not_or, Bool.not_eq_false,
          List.all_eq_true] at h
        exact digit h
      rw [none]
      refine ⟨nofun, fun ⟨some_digit, _, denotes⟩ => absurd ⟨some_digit, fun c hc => ?_⟩ digit⟩
      exact Bool.or_eq_true_iff.mpr (.inl (denotes.decimal c hc))

/-- Whether an identifier addresses a channel. -/
def Names (s : String) : Channel → Prop
  | control k => s = k.id
  | slot i f => ∃ digits, s.toList = groupMark.toList ++ digits ++ '#' :: f.id.toList ∧
      Numeral digits i

/-- An identifier of a slot in which its number is written in another way than the slot's own
identifier has it. -/
def Alias (s : String) : Prop :=
  ∃ (i : Fin 4) (f : SlotField) (digits : List Char),
    s.toList = groupMark.toList ++ digits ++ '#' :: f.id.toList ∧ Numeral digits i ∧
      digits ≠ (toString i.val).toList

theorem slot_id_toList (i : Fin 4) (f : SlotField) :
    (slot i f).id.toList = groupMark.toList ++ (toString i.val).toList ++ '#' :: f.id.toList := by
  simp [id, slotId]

/-- A slot is numbered by one digit in its own identifier. -/
theorem numeral_toString (i : Fin 4) : Numeral (toString i.val).toList i := by
  have plain : ∀ i : Fin 4, (toString i.val).toList ≠ [] ∧
      (toString i.val).toList.length ≤ maxIntDigits ∧
      (toString i.val).toList.map decimalValue? = [i.val].map some := by decide +kernel
  obtain ⟨some_digit, short, digit⟩ := plain i
  exact ⟨some_digit, short, [i.val], digit, by simp⟩

theorem names_id (ch : Channel) : Names ch.id ch := by
  cases ch with
  | control k => rfl
  | slot i f => exact ⟨_, slot_id_toList i f, numeral_toString i⟩

/-- An identifier is taken apart in one way. -/
theorem parts_unique {digits digits' field field' : List Char} (h : '#' ∉ digits)
    (h' : '#' ∉ digits') (same : groupMark.toList ++ digits ++ '#' :: field =
      groupMark.toList ++ digits' ++ '#' :: field') : digits = digits' ∧ field = field' := by
  rw [List.append_assoc, List.append_assoc] at same
  have rest := List.append_cancel_left same
  have group := congrArg (List.takeWhile (· != '#')) rest
  rw [takeWhile_mark h, takeWhile_mark h'] at group
  subst group
  exact ⟨rfl, (List.cons.inj (List.append_cancel_left rest)).2⟩

theorem parseSlot_group {digits : List Char} (h : '#' ∉ digits) (field : List Char) :
    parseSlot (groupMark.toList ++ digits ++ '#' :: field) = (slotNumber? digits).map fun i? =>
      i?.bind fun i => (SlotField.ofId? (String.ofList field)).map (slot i) := by
  have group : '#' ∉ groupMark.toList ++ digits := by
    rw [List.mem_append, not_or]
    exact ⟨by decide, h⟩
  have pre : groupMark.toList.isPrefixOf (groupMark.toList ++ digits) = true :=
    List.isPrefixOf_iff_prefix.mpr (List.prefix_append _ _)
  have digits_rest : (groupMark.toList ++ digits).drop groupMark.length = digits := List.drop_left
  have field_rest : (groupMark.toList ++ digits ++ '#' :: field).drop
      ((groupMark.toList ++ digits).length + 1) = field := by
    rw [← List.drop_drop, List.drop_left]
    rfl
  unfold parseSlot
  rw [takeWhile_mark group]
  dsimp only
  rw [if_neg (by simp [pre]), digits_rest, field_rest]
  rcases slotNumber? digits with f | _ | i <;> rfl

/-- Only a slot is found, and only behind the mark of the group. -/
theorem parseSlot_some {s : List Char} {ch : Channel} (h : parseSlot s = .ok (some ch)) :
    ∃ digits field, '#' ∉ digits ∧ s = groupMark.toList ++ digits ++ '#' :: field := by
  have parts := List.takeWhile_append_dropWhile (p := (· != '#')) (l := s)
  have unmarked : '#' ∉ s.takeWhile (· != '#') := fun hm => by simpa using List.mem_takeWhile_imp hm
  unfold parseSlot at h
  dsimp only at h
  split_ifs at h with none
  · cases h
  · rw [not_or] at none
    obtain ⟨marked, pre⟩ := none
    rw [Bool.not_eq_true, Bool.not_eq_false', List.isPrefixOf_iff_prefix] at pre
    obtain ⟨digits, hd⟩ := pre
    cases hrest : s.dropWhile (· != '#') with
    | nil =>
      rw [hrest, List.append_nil] at parts
      exact absurd (congrArg List.length parts) marked
    | cons c field =>
      have mark : c = '#' := by
        have head := List.head_dropWhile_not (p := (· != '#')) (l := s) (by simp [hrest])
        simpa [hrest] using head
      rw [hrest, mark] at parts
      refine ⟨digits, field, fun hm => unmarked ?_, ?_⟩
      · rw [← hd]
        exact List.mem_append_right _ hm
      · rw [hd, parts]

theorem parseSlot_eq_some {s : List Char} {ch : Channel} :
    parseSlot s = .ok (some ch) ↔ ∃ i f digits, ch = slot i f ∧
      s = groupMark.toList ++ digits ++ '#' :: f.id.toList ∧ Numeral digits i := by
  constructor
  · intro h
    obtain ⟨digits, field, unmarked, rfl⟩ := parseSlot_some h
    rw [parseSlot_group unmarked] at h
    cases hn : slotNumber? digits with
    | error e =>
      rw [hn] at h
      cases h
    | ok number =>
      rw [hn] at h
      obtain ⟨i, rfl, found⟩ := Option.bind_eq_some_iff.mp (Except.ok.inj h)
      obtain ⟨f, hf, rfl⟩ := Option.map_eq_some_iff.mp found
      have id := SlotField.ofId?_eq_some.mp hf
      refine ⟨i, f, digits, rfl, ?_, slotNumber?_eq_some.mp hn⟩
      rw [← id, String.toList_ofList]
  · rintro ⟨i, f, digits, rfl, rfl, number⟩
    have field : SlotField.ofId? (String.ofList f.id.toList) = some f :=
      SlotField.ofId?_eq_some.mpr String.ofList_toList
    rw [parseSlot_group number.no_mark, slotNumber?_eq_some.mpr number]
    exact congrArg (fun f => Except.ok (f.map (slot i))) field

theorem parse_eq_some {s : String} {ch : Channel} : parse s = .ok (some ch) ↔ Names s ch := by
  have marked : ∀ k : Control, '#' ∉ k.id.toList := by
    intro k
    cases k <;> decide
  unfold parse
  cases hs : Control.ofId? s with
  | some k =>
    have id := Control.ofId?_eq_some.mp hs
    cases ch with
    | control k' =>
      refine ⟨fun h => ?_, fun h => ?_⟩
      · cases h
        exact id
      · rw [Control.ofId?_eq_some.mpr h] at hs
        cases hs
        rfl
    | slot i f =>
      refine ⟨nofun, ?_⟩
      rintro ⟨digits, hd, -⟩
      refine absurd ?_ (marked k)
      rw [← id, hd]
      exact List.mem_append_right _ List.mem_cons_self
  | none =>
    dsimp only
    rw [parseSlot_eq_some]
    cases ch with
    | control k =>
      refine ⟨nofun, fun h => ?_⟩
      rw [Control.ofId?_eq_some.mpr h] at hs
      cases hs
    | slot i f =>
      constructor
      · rintro ⟨i', f', digits, same, parts, number⟩
        cases same
        exact ⟨digits, parts, number⟩
      · rintro ⟨digits, parts, number⟩
        exact ⟨i, f, digits, rfl, parts, number⟩

theorem slot_id_iff {s : String} {i : Fin 4} {f : SlotField} {digits : List Char}
    (parts : s.toList = groupMark.toList ++ digits ++ '#' :: f.id.toList)
    (number : Numeral digits i) : s = (slot i f).id ↔ digits = (toString i.val).toList := by
  rw [← String.toList_inj, slot_id_toList, parts]
  refine ⟨fun same => ?_, fun same => by rw [same]⟩
  exact (parts_unique number.no_mark (numeral_toString i).no_mark same).1

/-- Only a slot has identifiers besides its own. -/
theorem alias_iff {s : String} : Alias s ↔ ∃ ch, Names s ch ∧ s ≠ ch.id := by
  constructor
  · rintro ⟨i, f, digits, parts, number, other⟩
    exact ⟨slot i f, ⟨digits, parts, number⟩, fun same => other ((slot_id_iff parts number).mp same)⟩
  · rintro ⟨ch, names, other⟩
    cases ch with
    | control k => exact absurd names other
    | slot i f =>
      obtain ⟨digits, parts, number⟩ := names
      exact ⟨i, f, digits, parts, number, fun same => other ((slot_id_iff parts number).mpr same)⟩

/-- Reading an identifier undoes writing it. An identifier whose number cannot be read stops the
command, and besides its own identifier a slot has the aliases; all other texts address the channel
that they are the identifier of, or none. -/
theorem identifiers_address_channels (s : String) :
    (∀ ch : Channel, parse ch.id = .ok (some ch)) ∧ Function.Injective Channel.id ∧
      ((∃ f, parse s = .error f) ↔ Unreadable s) ∧
      (∀ ch, parse s = .ok (some ch) ↔ Names s ch) ∧
      ((∃ r, parse s = .ok r ∧ ∀ ch, r = some ch ↔ s = ch.id) ↔ ¬Unreadable s ∧ ¬Alias s) := by
  have own : ∀ ch : Channel, parse ch.id = .ok (some ch) := fun ch => parse_eq_some.mpr (names_id ch)
  refine ⟨own, fun ch ch' same => ?_, parse_error_iff, fun ch => parse_eq_some, ?_⟩
  · have both : Except.ok (some ch) = (Except.ok (some ch') : Except Fault _) := by rw [← own ch, ← own ch', same]
    cases both
    rfl
  · rw [alias_iff, ← parse_error_iff]
    cases hr : parse s with
    | error f => exact ⟨nofun, fun h => absurd ⟨f, rfl⟩ h.1⟩
    | ok r =>
      have names : ∀ ch, r = some ch ↔ Names s ch := fun ch => by
        rw [← parse_eq_some, hr, Except.ok.injEq]
      constructor
      · rintro ⟨r', hr', exact_id⟩
        cases hr'
        refine ⟨nofun, fun ⟨ch, hch, other⟩ => other ?_⟩
        exact (exact_id ch).mp ((names ch).mpr hch)
      · rintro ⟨-, no_alias⟩
        refine ⟨r, rfl, fun ch => ⟨fun h => ?_, fun h => ?_⟩⟩
        · by_contra other
          exact no_alias ⟨ch, (names ch).mp h, other⟩
        · rw [h, own ch] at hr
          exact (Except.ok.inj hr).symm

/-- A superscript is a digit without a place value. -/
theorem superscript_stops_addressing :
    ¬∀ s, ∃ r, parse s = .ok r ∧ ∀ ch, r = some ch ↔ s = ch.id := by
  intro h
  obtain ⟨r, hr, -⟩ := h "timePeriod²#start"
  have stops : parse "timePeriod²#start" = .error (.notInt "²") := by decide +kernel
  rw [stops] at hr
  cases hr

example : parse "timePeriod02#start" = .ok (some (.slot 2 .start)) := by decide +kernel

example : parse "timePeriod٢#start" = .ok (some (.slot 2 .start)) := by decide +kernel

end Channel
end BatteryLink
