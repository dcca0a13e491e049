import BatteryLink.Proofs.Addressing
import BatteryLink.Proofs.TimeOfDay
import Mathlib.Tactic.IntervalCases
/-!
How times are written. A time is an hour of one or two digits, a colon and two digits of minutes; but
a digit after which nothing more is decided may come from any script, the check lets a line feed
follow, and padding takes the minutes over as they are written.
-/
namespace BatteryLink

namespace Text

variable {sep : Char} {a b : List Char}

/-- Two parts between separators. -/
theorem splitOn_eq_pair {s : List Char} :
    splitOn sep s = [a, b] ↔ s = a ++ sep :: b ∧ sep ∉ a ∧ sep ∉ b := by
  constructor
  · intro h
    have joined : [sep].intercalate (s.splitOn sep) = s := List.intercalate_splitOn sep
    rw [← splitOn_eq, h] at joined
    refine ⟨?_, not_mem_of_splitOn (s := s) ?_, not_mem_of_splitOn (s := s) ?_⟩
    · rw [← joined]
      simp [List.intercalate]
    · exact h ▸ List.mem_cons_self
    · exact h ▸ List.mem_cons_of_mem _ List.mem_cons_self
  · rintro ⟨rfl, ha, hb⟩
    rw [splitOn_eq, List.splitOn_append_cons_self_of_not_mem ha, List.splitOn_eq_singleton hb]

theorem dropWhile_of_not_blank {s : List Char} (h : ∀ c ∈ s, isBlank c = false) :
    s.dropWhile isBlank = s := by
  cases s with
  | nil => rfl
  | cons c s => exact List.dropWhile_cons_of_neg (by simp [h c List.mem_cons_self])

theorem trimChars_of_not_blank {s : List Char} (h : ∀ c ∈ s, isBlank c = false) : trimChars s = s := by
  rw [trimChars, dropWhile_of_not_blank h, dropWhile_of_not_blank (by simpa using h),
    List.reverse_reverse]

end Text

namespace Reading

open Text (decimalValue?)

variable {a b : Char} {n : Nat}

theorem denotes_one : Denotes [a] n ↔ decimalValue? a = some n := by
  constructor
  · rintro ⟨ds, h, rfl⟩
    obtain ⟨d, ds, rfl, hd, rest⟩ := List.map_eq_cons_iff.mp h.symm
    cases List.map_eq_nil_iff.mp rest
    simpa using hd.symm
  · intro h
    exact ⟨[n], by rw [List.map_singleton, h, List.map_singleton], by simp⟩

theorem denotes_two : Denotes [a, b] n ↔
    ∃ x y, decimalValue? a = some x ∧ decimalValue? b = some y ∧ 10 * x + y = n := by
  constructor
  · rintro ⟨ds, h, rfl⟩
    obtain ⟨x, ds, rfl, hx, rest⟩ := List.map_eq_cons_iff.mp h.symm
    obtain ⟨y, ds, rfl, hy, rest⟩ := List.map_eq_cons_iff.mp rest
    cases List.map_eq_nil_iff.mp rest
    refine ⟨x, y, hx.symm, hy.symm, ?_⟩
    rw [List.reverse_cons, List.reverse_singleton, Nat.ofDigits_append]
    simp
    omega
  · rintro ⟨x, y, hx, hy, rfl⟩
    refine ⟨[x, y], by simp [hx, hy], ?_⟩
    rw [List.reverse_cons, List.reverse_singleton, Nat.ofDigits_append]
    simp
    omega

theorem Denotes.unique {digits : List Char} {m : Nat} (hn : Denotes digits n) (hm : Denotes digits m) :
    n = m := (digitsValue_plain hn).symm.trans (digitsValue_plain hm)

end Reading

namespace Text

/-- An ASCII digit is known from its value. -/
theorem ascii_digit_iff {a : Char} {x : Nat} :
    isAsciiDigit a = true ∧ decimalValue? a = some x ↔ x < 10 ∧ a = Char.ofNat (48 + x) := by
  constructor
  · rintro ⟨ascii, value⟩
    rw [decimalValue?_ascii ascii] at value
    simp only [isAsciiDigit, Bool.and_eq_true, decide_eq_true_eq] at ascii
    have low : 48 ≤ a.toNat := ascii.1
    have high : a.toNat ≤ 57 := ascii.2
    cases value
    refine ⟨by omega, ?_⟩
    rw [Nat.add_sub_cancel' low, Char.ofNat_toNat]
  · rintro ⟨small, rfl⟩
    have digits : ∀ x < 10, isAsciiDigit (Char.ofNat (48 + x)) = true ∧
        decimalValue? (Char.ofNat (48 + x)) = some x := by decide
    exact digits x small

theorem toNat_of_isAsciiDigit {c : Char} (h : isAsciiDigit c = true) : c.toNat < 128 := by
  simp only [isAsciiDigit, Bool.and_eq_true, decide_eq_true_eq] at h
  exact Nat.lt_of_le_of_lt h.2 (by decide)

/-- ASCII has no other decimal digits. -/
theorem isAsciiDigit_of_isDecimal {c : Char} (h : isDecimal c = true) (ascii : c.toNat < 128) :
    isAsciiDigit c = true := by
  unfold isDecimal decimalValue? at h
  rw [if_pos ascii] at h
  split_ifs at h with digit
  · simpa [isAsciiDigit] using digit
  · cases h

end Text

namespace TimeOfDay

open Text (decimalValue? isAsciiDigit trimChars)
open Reading (Denotes)

/-- The numerals of an hour and of a minute on the clock, in the digits of any script. -/
structure Clock (h m : List Char) (hour minute : Nat) : Prop where
  hours : Denotes h hour
  one_or_two : h.length = 1 ∨ h.length = 2
  hour_lt : hour < 24
  minutes : Denotes m minute
  two : m.length = 2
  minute_lt : minute < 60

/-- A text that is a time whose numerals are written in a certain way. -/
def Shows (way : List Char → List Char → Prop) (s : List Char) (hour minute : Nat) : Prop :=
  ∃ h m, s = h ++ ':' :: m ∧ Clock h m hour minute ∧ way h m

/-- All digits are ASCII digits. -/
def Plain (h m : List Char) : Prop := ∀ c ∈ h ++ m, isAsciiDigit c = true

/-- The digits that decide what may follow are ASCII digits, and so is the one after a two. -/
structure Leading (h m : List Char) : Prop where
  hour : ∀ a b, h = [a, b] → isAsciiDigit a = true ∧ (a = '2' → isAsciiDigit b = true)
  minute : ∀ a b, m = [a, b] → isAsciiDigit a = true

theorem Plain.leading {h m : List Char} (plain : Plain h m) : Leading h m := by
  refine ⟨?_, ?_⟩
  · rintro a b rfl
    exact ⟨plain a (by simp), fun _ => plain b (by simp)⟩
  · rintro a b rfl
    exact plain a (by simp)

/-- An hour of two digits; the first one is an ASCII digit. -/
theorem hour?_pair {a b : Char} {hour : Nat} : hour? [a, b] = some hour ↔
    ∃ x y, (isAsciiDigit a = true ∧ decimalValue? a = some x) ∧ decimalValue? b = some y ∧
      10 * x + y = hour ∧ hour < 24 ∧ (a = '2' → isAsciiDigit b = true) := by
  constructor
  · intro h
    have below := hour?_lt h
    unfold hour? at h
    dsimp only at h
    split_ifs at h with zero one two
    · subst zero
      exact ⟨0, hour, by decide, h, by omega, below, nofun⟩
    · subst one
      obtain ⟨y, hy, rfl⟩ := Option.map_eq_some_iff.mp h
      exact ⟨1, y, by decide, hy, by omega, below, nofun⟩
    · obtain ⟨rfl, low, high⟩ := two
      obtain ⟨y, hy, rfl⟩ := Option.map_eq_some_iff.mp h
      have ascii : isAsciiDigit b = true := by
        simp only [isAsciiDigit, Bool.and_eq_true, decide_eq_true_eq]
        exact ⟨low, Char.le_trans high (by decide)⟩
      exact ⟨2, y, by decide, hy, by omega, below, fun _ => ascii⟩
  · rintro ⟨x, y, first, second, rfl, below, plain⟩
    obtain ⟨-, rfl⟩ := Text.ascii_digit_iff.mp first
    have tens : x ≤ 2 := by omega
    interval_cases x
    · simpa [hour?] using second
    · simpa [hour?] using second
    · obtain ⟨-, rfl⟩ := Text.ascii_digit_iff.mp ⟨plain rfl, second⟩
      have units : y ≤ 3 := by omega
      have hours : ∀ y ≤ 3, hour? [Char.ofNat (48 + 2), Char.ofNat (48 + y)] = some (10 * 2 + y) := by
        decide
      exact hours y units

theorem hour?_iff {h : List Char} {hour : Nat} : hour? h = some hour ↔
    Denotes h hour ∧ (h.length = 1 ∨ h.length = 2) ∧ hour < 24 ∧
      ∀ a b, h = [a, b] → isAsciiDigit a = true ∧ (a = '2' → isAsciiDigit b = true) := by
  match h with
  | [] => simp [hour?]
  | [a] =>
    rw [hour?, Reading.denotes_one]
    refine ⟨fun ha => ⟨ha, .inl rfl, ?_, nofun⟩, And.left⟩
    have := (Text.decimalValue?_lt ha).1
    omega
  | [a, b] =>
    rw [hour?_pair, Reading.denotes_two]
    constructor
    · rintro ⟨x, y, ⟨ascii, hx⟩, hy, sum, below, plain⟩
      refine ⟨⟨x, y, hx, hy, sum⟩, .inr rfl, below, ?_⟩
      rintro _ _ ⟨⟩
      exact ⟨ascii, plain⟩
    · rintro ⟨⟨x, y, hx, hy, sum⟩, -, below, leading⟩
      obtain ⟨ascii, plain⟩ := leading a b rfl
      exact ⟨x, y, ⟨ascii, hx⟩, hy, sum, below, plain⟩
  | a :: b :: c :: r => simp [hour?]

theorem minute?_iff {m : List Char} {minute : Nat} : minute? m = some minute ↔
    Denotes m minute ∧ m.length = 2 ∧ minute < 60 ∧
      ∀ a b, m = [a, b] → isAsciiDigit a = true := by
  match m with
  | [] => simp [minute?]
  | [a] => simp [minute?]
  | [a, b] =>
    rw [Reading.denotes_two]
    constructor
    · intro h
      unfold minute? at h
      dsimp only at h
      split_ifs at h with first
      obtain ⟨low, high⟩ := first
      obtain ⟨y, hy, rfl⟩ := Option.map_eq_some_iff.mp h
      have ascii : isAsciiDigit a = true := by
        simp only [isAsciiDigit, Bool.and_eq_true, decide_eq_true_eq]
        exact ⟨low, Char.le_trans high (by decide)⟩
      have tens : a.toNat ≤ 53 := high
      have units := (Text.decimalValue?_lt hy).1
      refine ⟨⟨_, y, Text.decimalValue?_ascii ascii, hy, rfl⟩, rfl, by omega, ?_⟩
      rintro _ _ ⟨⟩
      exact ascii
    · rintro ⟨⟨x, y, hx, hy, rfl⟩, -, below, leading⟩
      obtain ⟨-, rfl⟩ := Text.ascii_digit_iff.mp ⟨leading a b rfl, hx⟩
      have tens : x < 6 := by omega
      have range : ∀ x < 6, ('0' ≤ Char.ofNat (48 + x) ∧ Char.ofNat (48 + x) ≤ '5') ∧
          (Char.ofNat (48 + x)).toNat - 48 = x := by decide
      obtain ⟨within, value⟩ := range x tens
      rw [minute?, if_pos within, hy, value]
      rfl
  | a :: b :: c :: r => simp [minute?]

/-- Reading a time and saying what it shows. -/
theorem parts?_pair {h m : List Char} {hour minute : Nat} :
    hour? h = some hour ∧ minute? m = some minute ↔ Clock h m hour minute ∧ Leading h m := by
  rw [hour?_iff, minute?_iff]
  constructor
  · rintro ⟨⟨hours, length, hour_lt, first⟩, minutes, two, minute_lt, second⟩
    exact ⟨⟨hours, length, hour_lt, minutes, two, minute_lt⟩, first, second⟩
  · rintro ⟨⟨hours, length, hour_lt, minutes, two, minute_lt⟩, first, second⟩
    exact ⟨⟨hours, length, hour_lt, first⟩, minutes, two, minute_lt, second⟩

theorem Clock.no_colon {h m : List Char} {hour minute : Nat} (clock : Clock h m hour minute) :
    ':' ∉ h ∧ ':' ∉ m :=
  ⟨fun hc => absurd (clock.hours.decimal _ hc) (by decide),
    fun hc => absurd (clock.minutes.decimal _ hc) (by decide)⟩

/-- A text has one colon to be divided at. -/
theorem Clock.parts_unique {h m h' m' : List Char} {hour minute hour' minute' : Nat}
    (clock : Clock h m hour minute) (clock' : Clock h' m' hour' minute')
    (same : h ++ ':' :: m = h' ++ ':' :: m') : h = h' ∧ m = m' := by
  have parts := Text.splitOn_eq_pair.mpr ⟨rfl, clock.no_colon⟩
  rw [same, Text.splitOn_eq_pair.mpr ⟨rfl, clock'.no_colon⟩] at parts
  simpa [eq_comm] using parts

variable {s t : List Char} {hour minute : Nat}

/-- A time is read from its two numerals. -/
theorem read_numerals {α : Type} {f : Nat → Nat → List Char → α} {r : α} :
    (match Text.splitOn ':' s with
      | [h, m] => do return f (← hour? h) (← minute? m) m
      | _ => none) = some r ↔
    ∃ h m hour minute, s = h ++ ':' :: m ∧ Clock h m hour minute ∧ Leading h m ∧
      f hour minute m = r := by
  constructor
  · intro read
    split at read
    · next h m parts =>
      obtain ⟨hour, hh, read⟩ := Option.bind_eq_some_iff.mp read
      obtain ⟨minute, hm, read⟩ := Option.bind_eq_some_iff.mp read
      obtain ⟨clock, leading⟩ := parts?_pair.mp ⟨hh, hm⟩
      exact ⟨h, m, hour, minute, (Text.splitOn_eq_pair.mp parts).1, clock, leading, Option.some.inj read⟩
    · cases read
  · rintro ⟨h, m, hour, minute, whole, clock, leading, rfl⟩
    obtain ⟨hh, hm⟩ := parts?_pair.mpr ⟨clock, leading⟩
    rw [Text.splitOn_eq_pair.mpr ⟨whole, clock.no_colon⟩]
    simp [hh, hm]

theorem parts?_eq_some : parts? s = some (hour, minute) ↔ Shows Leading s hour minute := by
  refine (read_numerals (f := fun hour minute _ => (hour, minute))).trans ?_
  constructor
  · rintro ⟨h, m, _, _, whole, clock, leading, ⟨⟩⟩
    exact ⟨h, m, whole, clock, leading⟩
  · rintro ⟨h, m, whole, clock, leading⟩
    exact ⟨h, m, hour, minute, whole, clock, leading, rfl⟩

theorem padded?_eq_some : padded? s = some t ↔
    ∃ h m hour minute, s = h ++ ':' :: m ∧ Clock h m hour minute ∧ Leading h m ∧
      twoDigits hour ++ ':' :: m = t :=
  read_numerals (f := fun hour _ m => twoDigits hour ++ ':' :: m)

theorem parts?_isSome : (parts? s).isSome = true ↔ ∃ hour minute, Shows Leading s hour minute := by
  rw [Option.isSome_iff_exists]
  simp only [Prod.exists, parts?_eq_some]

theorem accepts_iff : accepts s = true ↔
    ∃ t, (s = t ∨ s = t ++ ['\n']) ∧ ∃ hour minute, Shows Leading t hour minute := by
  rw [accepts, Bool.or_eq_true, Bool.and_eq_true, beq_iff_eq, parts?_isSome, parts?_isSome,
    List.getLast?_eq_some_iff]
  constructor
  · rintro (shows | ⟨⟨t, rfl⟩, shows⟩)
    · exact ⟨s, .inl rfl, shows⟩
    · rw [List.dropLast_concat] at shows
      exact ⟨t, .inr rfl, shows⟩
  · rintro ⟨t, rfl | rfl, shows⟩
    · exact .inl shows
    · refine .inr ⟨⟨t, rfl⟩, ?_⟩
      rwa [List.dropLast_concat]

/-- The digits of a time are ASCII digits if all its characters are ASCII characters. -/
theorem Clock.plain_iff {h m : List Char} (clock : Clock h m hour minute) :
    Plain h m ↔ ∀ c ∈ h ++ ':' :: m, c.toNat < 128 := by
  have decimal : ∀ c ∈ h ++ m, Text.isDecimal c = true := by
    intro c hc
    rcases List.mem_append.mp hc with hc | hc
    · exact clock.hours.decimal c hc
    · exact clock.minutes.decimal c hc
  constructor
  · intro plain c hc
    by_cases colon : c = ':'
    · subst colon
      decide
    · exact Text.toNat_of_isAsciiDigit (plain c (by simpa [colon] using hc))
  · intro ascii c hc
    refine Text.isAsciiDigit_of_isDecimal (decimal c hc) (ascii c ?_)
    rw [List.mem_append] at hc ⊢
    exact hc.imp_right (List.mem_cons_of_mem _)

/-- What is accepted besides times in ASCII digits has a line feed or a character of another script. -/
theorem shows_plain_iff : (∃ hour minute, Shows Plain s hour minute) ↔
    accepts s = true ∧ '\n' ∉ s ∧ ∀ c ∈ s, c.toNat < 128 := by
  rw [accepts_iff]
  constructor
  · rintro ⟨hour, minute, h, m, rfl, clock, plain⟩
    refine ⟨⟨_, .inl rfl, hour, minute, h, m, rfl, clock, plain.leading⟩, ?_, clock.plain_iff.mp plain⟩
    intro feed
    have digit := plain '\n' (by simpa using feed)
    exact absurd digit (by decide)
  · rintro ⟨⟨t, rfl | rfl, hour, minute, h, m, rfl, clock, -⟩, no_feed, ascii⟩
    · exact ⟨hour, minute, h, m, rfl, clock, clock.plain_iff.mpr ascii⟩
    · exact absurd (List.mem_append_right _ (List.mem_singleton.mpr rfl)) no_feed

theorem check_eq_ok {v : Value} {field : String} :
    check v field = .ok () ↔ ∃ s, v.asText? = some s ∧ accepts s.toList = true := by
  unfold check
  cases v.asText? with
  | none => simp
  | some s =>
    by_cases h : accepts s.toList = true
    · simp [h]
    · simp [h]

theorem check_or_refused (v : Value) (field : String) :
    check v field = .ok () ∨ ∃ r, check v field = .error (.refused r) ∧ r.field = field := by
  unfold check
  split
  · exact .inr ⟨_, rfl, rfl⟩
  · split
    · exact .inl rfl
    · exact .inr ⟨_, rfl, rfl⟩

/-- A value is accepted if it is a text with a time in it, and refused otherwise. Among what is accepted
are texts that are no times in ASCII digits: those with a digit of another script and those with a line
feed at their end. -/
theorem times_checked (v : Value) (field : String) :
    (check v field = .ok () ↔ ∃ s t hour minute, v.asText? = some s ∧
      (s.toList = t ∨ s.toList = t ++ ['\n']) ∧ Shows Leading t hour minute) ∧
    (check v field = .ok () ∨ ∃ r, check v field = .error (.refused r) ∧ r.field = field) ∧
    ((check v field = .ok () ↔
        ∃ s hour minute, v.asText? = some s ∧ Shows Plain s.toList hour minute) ↔
      ¬∃ s, v.asText? = some s ∧ check v field = .ok () ∧
        ('\n' ∈ s.toList ∨ ∃ c ∈ s.toList, 128 ≤ c.toNat)) := by
  refine ⟨?_, check_or_refused v field, ?_⟩
  · rw [check_eq_ok]
    refine exists_congr fun s => ?_
    rw [accepts_iff]
    simp only [exists_and_left]
  · cases hv : v.asText? with
    | none => simp [check_eq_ok, hv]
    | some s =>
      have accepted : check v field = .ok () ↔ accepts s.toList = true := by simp [check_eq_ok, hv]
      have plain := shows_plain_iff (s := s.toList)
      simp only [Option.some.injEq, exists_and_left, exists_eq_left', accepted, plain, iff_self_and]
      rw [not_and, not_or, not_exists]
      simp only [not_and, Nat.not_le]

/-- The line feed is no part of the time. -/
theorem line_feed_accepted : ¬∀ v field, check v field = .ok () ↔
    ∃ s hour minute, v.asText? = some s ∧ Shows Plain s.toList hour minute := by
  intro h
  have accepted : check (.text "08:00\n") "time" = .ok () := toOption_eq_some.mp (by decide +kernel)
  obtain ⟨s, hour, minute, ⟨⟩, shows⟩ := (h _ _).mp accepted
  exact (shows_plain_iff.mp ⟨hour, minute, shows⟩).2.1 (by decide +kernel)

theorem twoDigits_ascii {n : Nat} (h : n < 100) : ∀ c ∈ twoDigits n, isAsciiDigit c = true := by
  intro c hc
  rw [twoDigits, List.mem_cons, List.mem_singleton] at hc
  rcases hc with tens | units
  · exact (Text.ascii_digit_iff.mpr ⟨by omega, tens⟩).1
  · exact (Text.ascii_digit_iff.mpr ⟨Nat.mod_lt n (by decide), units⟩).1

/-- Two ASCII digits are the numeral of one number only. -/
theorem twoDigits_of_denotes {m : List Char} {n : Nat} (two : m.length = 2) (h : Denotes m n)
    (ascii : ∀ c ∈ m, isAsciiDigit c = true) : m = twoDigits n := by
  match m, two with
  | [a, b], _ =>
    obtain ⟨x, y, hx, hy, rfl⟩ := Reading.denotes_two.mp h
    obtain ⟨-, rfl⟩ := Text.ascii_digit_iff.mp ⟨ascii a (by simp), hx⟩
    obtain ⟨units, rfl⟩ := Text.ascii_digit_iff.mp ⟨ascii b (by simp), hy⟩
    have quotient : (10 * x + y) / 10 = x := by omega
    have rest : (10 * x + y) % 10 = y := by omega
    rw [twoDigits, quotient, rest]

theorem normalize_eq_ok {v : Value} {field t : String} : normalize v field = .ok t ↔
    ∃ s h m hour minute, v.asText? = some s ∧ trimChars s.toList = h ++ ':' :: m ∧
      Clock h m hour minute ∧ Leading h m ∧ twoDigits hour ++ ':' :: m = t.toList := by
  unfold normalize
  constructor
  · intro h
    split at h
    · cases h
    · next s hs =>
      split at h
      · next padded hp =>
        cases h
        obtain ⟨h, m, hour, minute, whole, clock, leading, same⟩ := padded?_eq_some.mp hp
        exact ⟨s, h, m, hour, minute, hs, whole, clock, leading, by rw [String.toList_ofList, same]⟩
      · cases h
  · rintro ⟨s, h, m, hour, minute, hs, whole, clock, leading, same⟩
    have hp := padded?_eq_some.mpr ⟨h, m, hour, minute, whole, clock, leading, same⟩
    rw [hs]
    dsimp only
    rw [hp]
    exact congrArg Except.ok String.ofList_toList

/-- Padding gives the numeral of a time again, with the same minutes. -/
theorem Clock.padded {h m : List Char} (clock : Clock h m hour minute) (leading : Leading h m) :
    Clock (twoDigits hour) m hour minute ∧ Leading (twoDigits hour) m :=
  parts?_pair.mp ⟨(hour?_twoDigits clock.hour_lt).1, (parts?_pair.mpr ⟨clock, leading⟩).2⟩

theorem Clock.not_blank {h m : List Char} (clock : Clock h m hour minute) :
    ∀ c ∈ h ++ ':' :: m, Text.isBlank c = false := by
  have digit {c : Char} (decimal : Text.isDecimal c = true) : Text.isBlank c = false :=
    Text.isBlank_of_isDigit (Bool.or_eq_true_iff.mpr (.inl decimal))
  intro c hc
  rcases List.mem_append.mp hc with hc | hc
  · exact digit (clock.hours.decimal c hc)
  · rcases List.mem_cons.mp hc with rfl | hc
    · decide
    · exact digit (clock.minutes.decimal c hc)

/-- A padded time stays as it is. -/
theorem normalize_padded {h m : List Char} {t : String} (clock : Clock h m hour minute)
    (leading : Leading h m) (same : twoDigits hour ++ ':' :: m = t.toList) (field : String) :
    normalize (.text t) field = .ok t := by
  obtain ⟨clock, leading⟩ := clock.padded leading
  refine normalize_eq_ok.mpr ⟨t, twoDigits hour, m, hour, minute, rfl, ?_, clock, leading, same⟩
  rw [← same, Text.trimChars_of_not_blank clock.not_blank]

/-- A time of two digits, a colon and two digits, all of them ASCII digits. -/
def standard (hour minute : Nat) : List Char := twoDigits hour ++ ':' :: twoDigits minute

theorem standard_ascii (hour_lt : hour < 24) (minute_lt : minute < 60) :
    ∀ c ∈ standard hour minute, c.toNat < 128 := by
  intro c hc
  have hour_ascii := twoDigits_ascii (Nat.lt_trans hour_lt (by decide : 24 < 100))
  have minute_ascii := twoDigits_ascii (Nat.lt_trans minute_lt (by decide : 60 < 100))
  rcases List.mem_append.mp hc with hc | hc
  · exact Text.toNat_of_isAsciiDigit (hour_ascii c hc)
  · rcases List.mem_cons.mp hc with rfl | hc
    · decide
    · exact Text.toNat_of_isAsciiDigit (minute_ascii c hc)

/-- What is returned has two ASCII digits for the hour and shows the time of the trimmed text; padding
it again changes nothing. The minutes are those of the text as they are written: the time has its
standard form if they are written in ASCII digits, and texts with the same time are padded to the same
text if their minutes are written in the same way. -/
theorem normalized_times {v : Value} {field t : String} (returned : normalize v field = .ok t) :
    ∃ s h m hour minute, v.asText? = some s ∧ trimChars s.toList = h ++ ':' :: m ∧
      Clock h m hour minute ∧ t.toList = twoDigits hour ++ ':' :: m ∧ t.toList.length = 5 ∧
      Clock (twoDigits hour) m hour minute ∧ (∀ field', normalize (.text t) field' = .ok t) ∧
      (t.toList = standard hour minute ↔ ∀ c ∈ m, isAsciiDigit c = true) ∧
      ∀ w field' u s' h' m', normalize w field' = .ok u → w.asText? = some s' →
        trimChars s'.toList = h' ++ ':' :: m' → Clock h' m' hour minute → (u = t ↔ m' = m) := by
  obtain ⟨s, h, m, hour, minute, hs, whole, clock, leading, same⟩ := normalize_eq_ok.mp returned
  have length : t.toList.length = 5 := by rw [← same, List.length_append, List.length_cons, clock.two]; rfl
  refine ⟨s, h, m, hour, minute, hs, whole, clock, same.symm, length, (clock.padded leading).1,
    normalize_padded clock leading same, ?_, ?_⟩
  · rw [← same, standard, List.append_cancel_left_eq, List.cons_inj_right]
    refine ⟨?_, twoDigits_of_denotes clock.two clock.minutes⟩
    rintro rfl
    exact twoDigits_ascii (Nat.lt_trans clock.minute_lt (by decide))
  · intro w field' u s' h' m' returned' hs' whole' clock'
    obtain ⟨s'', h'', m'', hour', minute', hs'', whole'', clock'', -, same'⟩ :=
      normalize_eq_ok.mp returned'
    -- the parts of the other text are known from where its colon stands
    cases hs'.symm.trans hs''
    obtain ⟨rfl, rfl⟩ := clock'.parts_unique clock'' (whole'.symm.trans whole'')
    cases clock'.hours.unique clock''.hours
    rw [← String.toList_inj, ← same, ← same', List.append_cancel_left_eq, List.cons_inj_right]

/-- Blanks go, and the hour gets its zero. -/
theorem normalized_times_early : normalize (.text "\t8:30\n") "start_time" = .ok "08:30" ∧
    (∀ field, normalize (.text "08:30") field = .ok "08:30") ∧
    ∃ hour minute, Clock "8".toList "30".toList hour minute ∧ "08:30".toList = standard hour minute := by
  have returned : normalize (.text "\t8:30\n") "start_time" = .ok "08:30" := by decide +kernel
  obtain ⟨_, h, m, hour, minute, ⟨⟩, whole, clock, -, -, -, again, plain, -⟩ := normalized_times returned
  have parts : trimChars "\t8:30\n".toList = "8".toList ++ ':' :: "30".toList := by decide +kernel
  have first := Text.splitOn_eq_pair.mpr ⟨whole, clock.no_colon⟩
  have second := Text.splitOn_eq_pair.mpr ⟨parts, by decide, by decide⟩
  rw [first] at second
  obtain ⟨rfl, rfl⟩ : h = "8".toList ∧ m = "30".toList := by simpa using second
  exact ⟨returned, again, hour, minute, clock, plain.mpr (by simp [isAsciiDigit])⟩

/-- Minutes with an Arabic four stay as they are. -/
theorem foreign_minutes_kept : ¬∀ v field t, normalize v field = .ok t →
    ∃ hour < 24, ∃ minute < 60, t.toList = standard hour minute := by
  intro h
  have returned : normalize (.text "12:3٤") "time" = .ok "12:3٤" := by decide +kernel
  obtain ⟨hour, hour_lt, minute, minute_lt, same⟩ := h _ _ _ returned
  have four : '٤' ∈ standard hour minute := same ▸ by decide +kernel
  exact absurd (standard_ascii hour_lt minute_lt _ four) (by decide)

end TimeOfDay
end BatteryLink
