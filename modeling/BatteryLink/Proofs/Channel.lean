import BatteryLink.Channel
import BatteryLink.Proofs.Stopping
import Mathlib.Data.List.TakeWhile
/-!
Identifiers of channels that stop a command: those of a slot whose number is written in digits and
cannot be read.
-/
namespace BatteryLink

namespace Text

/-- Ranges of code points without a character in common. -/
def CharRanges.Disjoint (t u : CharRanges) : Prop := ∀ r ∈ t, ∀ b ∈ u, r.2 < b.1 ∨ b.2 < r.1

theorem CharRanges.Disjoint.contains {t u : CharRanges} (h : t.Disjoint u) {c : Char}
    (ht : t.contains c = true) : u.contains c = false := by
  rw [Bool.eq_false_iff]
  intro hu
  obtain ⟨r, hr, low, high⟩ := contains_iff.mp ht
  obtain ⟨b, hb, low', high'⟩ := contains_iff.mp hu
  rcases h r hr b hb with apart | apart <;> omega

/-- The decimal digits of all scripts. -/
def decimalRanges : CharRanges := scriptZeros.map fun z => (z, z + 9)

theorem decimalValue?_lt {c : Char} {d : Nat} (h : decimalValue? c = some d) :
    d < 10 ∧ decimalRanges.contains c = true := by
  unfold decimalValue? at h
  split at h
  · split at h
    · next hc =>
      have low : 48 ≤ c.toNat := hc.1
      have high : c.toNat ≤ 57 := hc.2
      cases h
      exact ⟨by omega, CharRanges.contains_iff.mpr ⟨(48, 57), by decide, low, high⟩⟩
    · cases h
  · obtain ⟨z, hz, rfl⟩ := Option.map_eq_some_iff.mp h
    have bounds := List.find?_some hz
    simp only [Bool.and_eq_true, decide_eq_true_eq] at bounds
    refine ⟨by omega, CharRanges.contains_iff.mpr ⟨(z, z + 9), ?_, bounds.1, bounds.2⟩⟩
    exact List.mem_map_of_mem (List.mem_of_find?_eq_some hz)

theorem isBlank_of_isDigit {c : Char} (h : isDigit c = true) : isBlank c = false := by
  rcases Bool.or_eq_true_iff.mp h with decimal | lone
  · obtain ⟨d, hd⟩ := Option.isSome_iff_exists.mp decimal
    have apart : decimalRanges.Disjoint blankRanges := by unfold CharRanges.Disjoint; decide
    exact apart.contains (decimalValue?_lt hd).2
  · have apart : loneDigits.Disjoint blankRanges := by unfold CharRanges.Disjoint; decide
    exact apart.contains lone

/-- A digit without a place value stands beyond the ASCII characters. -/
theorem lone_of_not_decimal {c : Char} (h : isDigit c = true) (hd : isDecimal c = false) :
    128 ≤ c.toNat := by
  unfold isDigit at h
  rw [hd, Bool.false_or] at h
  obtain ⟨r, hr, low, -⟩ := CharRanges.contains_iff.mp h
  have beyond : ∀ r ∈ loneDigits, 128 ≤ r.1 := by decide
  exact Nat.le_trans (beyond r hr) low

end Text

namespace Reading

open Text

theorem plainDigit_decimal {c : Char} (h : isDecimal c = true) :
    isAsciiDigit (plainDigit c) = true := by
  obtain ⟨d, hd⟩ := Option.isSome_iff_exists.mp h
  have ascii : ∀ d < 10, isAsciiDigit (Char.ofNat (48 + d)) = true := by decide
  unfold plainDigit
  rw [hd]
  exact ascii d (decimalValue?_lt hd).1

theorem plainDigit_lone {c : Char} (h : isDecimal c = false) : plainDigit c = c := by
  unfold plainDigit
  rw [Option.not_isSome_iff_eq_none.mp (Bool.eq_false_iff.mp h)]

/-- Characters that digits are turned into. -/
def Plain (c : Char) : Prop := isAsciiDigit c = true ∨ 128 ≤ c.toNat

theorem plain_plainDigit {c : Char} (h : isDigit c = true) : Plain (plainDigit c) := by
  cases hd : isDecimal c with
  | true => exact .inl (plainDigit_decimal hd)
  | false =>
    rw [plainDigit_lone hd]
    exact .inr (lone_of_not_decimal h hd)

theorem Plain.ne {c x : Char} (h : Plain c) (ascii : x.toNat < 128) (other : isAsciiDigit x = false) :
    c ≠ x := by
  rintro rfl
  rcases h with digit | beyond
  · exact Bool.false_ne_true (other.symm.trans digit)
  · exact absurd ascii (Nat.not_lt.mpr beyond)

theorem isAsciiDigit_plainDigit {c : Char} (h : isDigit c = true) :
    isAsciiDigit (plainDigit c) = isDecimal c := by
  cases hd : isDecimal c with
  | true => exact plainDigit_decimal hd
  | false =>
    rw [plainDigit_lone hd, Bool.eq_false_iff]
    intro ascii
    have beyond := lone_of_not_decimal h hd
    simp only [isAsciiDigit, Bool.and_eq_true, decide_eq_true_eq] at ascii
    have : c.toNat ≤ 57 := ascii.2
    omega

theorem dropWhile_numberBlank {s : List Char} (h : ∀ c ∈ s, isDigit c = true) :
    s.dropWhile isNumberBlank = s := by
  cases s with
  | nil => rfl
  | cons c s =>
    have digit := h c List.mem_cons_self
    exact List.dropWhile_cons_of_neg (by simp [isNumberBlank, isBlank_of_isDigit digit])

theorem prepare_digits {s : List Char} (h : ∀ c ∈ s, isDigit c = true) :
    prepare s = s.map plainDigit := by
  unfold prepare
  rw [dropWhile_numberBlank h, dropWhile_numberBlank (by simpa using h), List.reverse_reverse]

theorem splitSign_plain {s : List Char} (h : ∀ c ∈ s, Plain c) : splitSign s = (false, s) := by
  unfold splitSign
  split
  · exact absurd rfl ((h '-' List.mem_cons_self).ne (by decide) (by decide))
  · exact absurd rfl ((h '+' List.mem_cons_self).ne (by decide) (by decide))
  · rfl

theorem dropUnderscores?_none {s : List Char} (h : '_' ∉ s) (b : Bool) :
    dropUnderscores? b s = some s := by
  induction s generalizing b with
  | nil => rfl
  | cons c s ih =>
    have first : c ≠ '_' := fun hc => h (hc ▸ List.mem_cons_self)
    rw [dropUnderscores?.eq_4 _ _ _ (fun _ _ hc _ => first hc) fun hc _ => first hc,
      ih fun hs => h (List.mem_cons_of_mem _ hs)]
    rfl

/-- A numeral of digits is read unless one of them has no place value, or there are too many. -/
theorem int_digits {s : List Char} (h : ∀ c ∈ s, isDigit c = true) (hs : s ≠ []) :
    (∃ e, int s = .error e) ↔ (∃ c ∈ s, isDecimal c = false) ∨ maxIntDigits < s.length := by
  have plain : ∀ c ∈ s.map plainDigit, Plain c := by
    simpa using fun c hc => plain_plainDigit (h c hc)
  have no_mark : ∀ c ∈ s.map plainDigit, c ≠ '_' :=
    fun c hc => (plain c hc).ne (by decide) (by decide)
  unfold int
  rw [prepare_digits h, splitSign_plain plain]
  dsimp only
  generalize hrun : (s.map plainDigit).takeWhile (fun c => isAsciiDigit c || c = '_') = run
  have pre : run <+: s.map plainDigit := hrun ▸ List.takeWhile_prefix _
  have le := pre.length_le
  rw [List.length_map] at le ⊢
  have short : run.length < s.length ↔ ∃ c ∈ s, isDecimal c = false := by
    have whole : run = s.map plainDigit ↔ ∀ c ∈ s, isDecimal c = true := by
      rw [← hrun, List.takeWhile_eq_self_iff, List.forall_mem_map]
      apply forall₂_congr
      intro c hc
      have mark : decide (plainDigit c = '_') = false :=
        decide_eq_false (no_mark _ (List.mem_map_of_mem hc))
      rw [mark, Bool.or_false, isAsciiDigit_plainDigit (h c hc)]
    rw [← not_iff_not, Nat.not_lt]
    simp only [not_exists, not_and, Bool.not_eq_false]
    rw [← whole]
    exact ⟨fun hle => pre.eq_of_length (by rw [List.length_map]; omega), fun he => by
      rw [he, List.length_map]⟩
  rw [dropUnderscores?_none fun hm => no_mark _ (pre.mem hm) rfl]
  dsimp only
  have some_digit := List.length_pos_iff.mpr hs
  rw [← short]
  split
  · next empty =>
    rw [List.isEmpty_iff.mp empty]
    exact ⟨fun _ => .inl some_digit, fun _ => ⟨_, rfl⟩⟩
  · split
    · next long => exact ⟨fun _ => .inr (Nat.lt_of_lt_of_le long le), fun _ => ⟨_, rfl⟩⟩
    · split
      · next less => exact ⟨fun _ => .inl less, fun _ => ⟨_, rfl⟩⟩
      · next fits less =>
        refine ⟨fun ⟨_, he⟩ => (by cases he), fun hor => ?_⟩
        rcases hor with hlt | long
        · exact absurd hlt less
        · exact absurd (Nat.lt_of_lt_of_le long (Nat.not_lt.mp less)) fits

end Reading

namespace Channel

open Text

/-- An identifier like that of a slot, whose number is written in digits and cannot be read. -/
def Unreadable (s : String) : Prop :=
  ∃ digits field, s.toList = groupMark.toList ++ digits ++ '#' :: field ∧ digits ≠ [] ∧
    (∀ c ∈ digits, isDigit c = true) ∧
    ((∃ c ∈ digits, isDecimal c = false) ∨ Reading.maxIntDigits < digits.length)

theorem slotNumber?_error_iff {digits : List Char} :
    (∃ f, slotNumber? digits = .error f) ↔ digits ≠ [] ∧ (∀ c ∈ digits, isDigit c = true) ∧
      ((∃ c ∈ digits, isDecimal c = false) ∨ Reading.maxIntDigits < digits.length) := by
  unfold slotNumber?
  split
  · next h =>
    refine ⟨fun ⟨_, he⟩ => (by cases he), fun ⟨some_digit, digit, _⟩ => ?_⟩
    simp only [Bool.or_eq_true, List.isEmpty_iff, Bool.not_eq_true', List.all_eq_false] at h
    rcases h with none | ⟨c, hc, other⟩
    · exact absurd none some_digit
    · exact absurd (digit c hc) other
  · next h =>
    simp only [Bool.or_eq_true, List.isEmpty_iff, Bool.not_eq_true', not_or, Bool.not_eq_false,
      List.all_eq_true] at h
    obtain ⟨some_digit, digit⟩ := h
    rw [← Reading.int_digits digit some_digit]
    refine Iff.trans ?_ ⟨fun h => ⟨some_digit, digit, h⟩, fun h => h.2.2⟩
    cases Reading.int digits with
    | ok i => exact ⟨fun ⟨_, he⟩ => (by cases he), fun ⟨_, he⟩ => (by cases he)⟩
    | error e => cases e <;> exact ⟨fun _ => ⟨_, rfl⟩, fun _ => ⟨_, rfl⟩⟩

theorem takeWhile_mark {group : List Char} (h : '#' ∉ group) (field : List Char) :
    (group ++ '#' :: field).takeWhile (· != '#') = group := by
  rw [List.takeWhile_append_of_pos, List.takeWhile_cons_of_neg (by decide), List.append_nil]
  intro c hc
  exact bne_iff_ne.mpr fun hm => h (hm ▸ hc)

theorem parseSlot_mark {group : List Char} (h : '#' ∉ group) (field : List Char) :
    (∃ f, parseSlot (group ++ '#' :: field) = .error f) ↔
      ∃ digits, group = groupMark.toList ++ digits ∧ ∃ f, slotNumber? digits = .error f := by
  have short : group.length ≠ (group ++ '#' :: field).length := by
    rw [List.length_append, List.length_cons]
    omega
  unfold parseSlot
  rw [takeWhile_mark h]
  dsimp only
  by_cases pre : groupMark.toList <+: group
  · have pre' := List.isPrefixOf_iff_prefix.mpr pre
    rw [if_neg (by simp only [pre', Bool.not_true, Bool.false_eq_true, or_false]; exact short)]
    obtain ⟨digits, rfl⟩ := pre
    have rest : (groupMark.toList ++ digits).drop groupMark.length = digits := List.drop_left
    rw [rest]
    constructor
    · rintro ⟨f, he⟩
      rcases bind_eq_error.mp he with number | ⟨i, -, he⟩
      · exact ⟨digits, rfl, f, number⟩
      · cases i <;> cases he
    · rintro ⟨digits', same, f, hf⟩
      cases List.append_cancel_left same
      exact ⟨f, bind_eq_error.mpr (.inl hf)⟩
  · rw [if_pos]
    · refine ⟨fun ⟨_, he⟩ => (by cases he), ?_⟩
      rintro ⟨digits, rfl, -⟩
      exact absurd (List.prefix_append _ _) pre
    · exact .inr (by simpa [Bool.eq_false_iff, List.isPrefixOf_iff_prefix] using pre)

/-- No other identifier stops a command. -/
theorem parse_error_iff {s : String} : (∃ f, parse s = .error f) ↔ Unreadable s := by
  have marked : ∀ c ∈ Control.all, '#' ∉ c.id.toList := by decide
  have unmarked : '#' ∉ groupMark.toList := by decide
  unfold parse Unreadable
  split
  · next c hc =>
    refine ⟨fun ⟨_, he⟩ => (by cases he), ?_⟩
    rintro ⟨digits, field, hs, -⟩
    have id : c.id = s := by simpa using List.find?_some hc
    refine absurd ?_ (marked c (List.mem_of_find?_eq_some hc))
    rw [id, hs]
    exact List.mem_append_right _ List.mem_cons_self
  · constructor
    · intro h
      by_cases mark : '#' ∈ s.toList
      · obtain ⟨group, field, hs, hg⟩ := List.eq_append_cons_of_mem mark
        rw [hs, parseSlot_mark hg] at h
        obtain ⟨digits, rfl, number⟩ := h
        exact ⟨digits, field, hs, slotNumber?_error_iff.mp number⟩
      · obtain ⟨f, h⟩ := h
        have whole : s.toList.takeWhile (· != '#') = s.toList := by
          rw [List.takeWhile_eq_self_iff]
          exact fun c hc => bne_iff_ne.mpr fun hm => mark (hm ▸ hc)
        unfold parseSlot at h
        dsimp only at h
        rw [if_pos (.inl (by rw [whole]))] at h
        cases h
    · rintro ⟨digits, field, hs, number⟩
      have hg : '#' ∉ groupMark.toList ++ digits := by
        rw [List.mem_append, not_or]
        exact ⟨unmarked, fun hm => absurd (number.2.1 _ hm) (by decide)⟩
      rw [hs, parseSlot_mark hg]
      exact ⟨digits, rfl, slotNumber?_error_iff.mpr number⟩

end Channel
end BatteryLink
