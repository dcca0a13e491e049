import BatteryLink.Proofs.Channel
import BatteryLink.Proofs.Json.Grammar
/-!
Numbers are read as the grammar has them: each part as far as it goes, if what follows cannot be more
of the number. Only a whole number that is very long is not read.
-/
namespace BatteryLink

namespace Reading

open Text

/-- Characters that a number is written with. -/
def IsNumeral (c : Char) : Prop := isAsciiDigit c = true ∨ c ∈ ['-', '+', '.', 'e', 'E']

theorem plainDigit_ascii {c : Char} (h : isAsciiDigit c = true) : plainDigit c = c := by
  unfold plainDigit
  rw [decimalValue?_ascii h]
  simp only [isAsciiDigit, Bool.and_eq_true, decide_eq_true_eq] at h
  have low : 48 ≤ c.toNat := h.1
  dsimp only
  rw [Nat.add_sub_cancel' low, Char.ofNat_toNat]

theorem IsNumeral.plain {c : Char} (h : IsNumeral c) :
    isNumberBlank c = false ∧ plainDigit c = c ∧ c ≠ '_' := by
  rcases h with digit | mark
  · have decimal : isDigit c = true := by simp [isDigit, isDecimal, decimalValue?_ascii digit]
    refine ⟨by simp [isNumberBlank, isBlank_of_isDigit decimal], plainDigit_ascii digit, ?_⟩
    rintro rfl
    cases digit
  · have all : ∀ c ∈ ['-', '+', '.', 'e', 'E'],
        isNumberBlank c = false ∧ plainDigit c = c ∧ c ≠ '_' := by
      simp only [List.forall_mem_cons]
      exact ⟨by decide, by decide, by decide, by decide, by decide, List.forall_mem_nil _⟩
    exact all c mark

theorem splitSign_digit {c : Char} (digit : isAsciiDigit c = true) (s : List Char) :
    splitSign (c :: s) = (false, c :: s) := by
  unfold splitSign
  split
  · next h =>
    cases h
    cases digit
  · next h =>
    cases h
    cases digit
  · rfl

/-- A run of digits ends where something else begins. -/
theorem span_digits {ds q : List Char} (h : ∀ c ∈ ds, isAsciiDigit c = true)
    (ended : ∀ c ∈ q.head?, isAsciiDigit c = false) :
    (ds ++ q).takeWhile isAsciiDigit = ds ∧ (ds ++ q).dropWhile isAsciiDigit = q := by
  rw [List.takeWhile_append_of_pos h, List.dropWhile_append_of_pos h]
  cases q with
  | nil => simp
  | cons c q =>
    have other := ended c rfl
    simp [other]

def pointPart (s : List Char) : List Char × List Char :=
  match s with
  | '.' :: r => (r.takeWhile isAsciiDigit, r.dropWhile isAsciiDigit)
  | r => ([], r)

theorem decimal?_eq (negative : Bool) (s : List Char) :
    decimal? negative s =
      let whole := s.takeWhile isAsciiDigit
      let (fraction, rest) := pointPart (s.dropWhile isAsciiDigit)
      if whole.isEmpty && fraction.isEmpty then none
      else
        (exponent? rest).map fun e =>
          Binary64.ofDecimal negative (digitsValue (whole ++ fraction)) (e - fraction.length) := rfl

theorem asciiLower_digit {c : Char} (digit : isAsciiDigit c = true) : asciiLower c = c := by
  simp only [isAsciiDigit, Bool.and_eq_true, decide_eq_true_eq] at digit
  have low : c.toNat ≤ 57 := digit.2
  unfold asciiLower
  rw [if_neg]
  rintro ⟨letter, -⟩
  have high : 65 ≤ c.toNat := letter
  omega

theorem prepare_numeral {s : List Char} (h : ∀ c ∈ s, IsNumeral c) : prepare s = s := by
  have no_blank : ∀ t : List Char, (∀ c ∈ t, IsNumeral c) → t.dropWhile isNumberBlank = t := by
    intro t ht
    cases t with
    | nil => rfl
    | cons c t => exact List.dropWhile_cons_of_neg (by simp [(ht c List.mem_cons_self).plain.1])
  unfold prepare
  rw [no_blank s h, no_blank s.reverse (by simpa using h), List.reverse_reverse]
  exact (List.map_congr_left fun c hc => (h c hc).plain.2.1).trans (List.map_id s)

end Reading

namespace Json

open BatteryLink.Text (Symbol Symbols)
open Grammar (Numeral Exponent)

/-- Whether a text begins with a character of some kind. -/
def begins (kind : Char → Bool) : Symbols → Bool
  | .char c :: _ => kind c
  | _ => false

theorem digits_eq (s : Symbols) :
    s = (digits s).1.map .char ++ (digits s).2 ∧ ∀ c ∈ (digits s).1, Text.isAsciiDigit c = true := by
  fun_induction digits s with
  | case1 c r digit ds rest hd ih =>
    rw [hd] at ih
    exact ⟨congrArg (.char c :: ·) ih.1, List.forall_mem_cons.mpr ⟨digit, ih.2⟩⟩
  | case2 => exact ⟨rfl, List.forall_mem_nil _⟩
  | case3 => exact ⟨rfl, List.forall_mem_nil _⟩

theorem digits_append {ds : List Char} {rest : Symbols} (h : ∀ c ∈ ds, Text.isAsciiDigit c = true)
    (ended : begins Text.isAsciiDigit rest = false) : digits (ds.map .char ++ rest) = (ds, rest) := by
  induction ds with
  | nil =>
    rw [List.map_nil, List.nil_append]
    unfold digits
    split
    · next c r => rw [if_neg (by simpa [begins] using ended)]
    · rfl
  | cons c ds ih =>
    obtain ⟨digit, rest_digits⟩ := List.forall_mem_cons.mp h
    rw [List.map_cons, List.cons_append, digits, if_pos digit, ih rest_digits]

def signPart (s : Symbols) : List Char × Symbols :=
  match s with
  | .char '-' :: r => (['-'], r)
  | r => ([], r)

def wholePart (s : Symbols) : List Char × Symbols :=
  match s with
  | .char '0' :: r => (['0'], r)
  | r => digits r

def fractionPart (r : Symbols) : List Char × Symbols :=
  match r with
  | .char '.' :: r' =>
    let (ds, rest) := digits r'
    if ds.isEmpty then ([], r) else ('.' :: ds, rest)
  | _ => ([], r)

def exponentSign (s : Symbols) : List Char × Symbols :=
  match s with
  | .char '+' :: t => (['+'], t)
  | .char '-' :: t => (['-'], t)
  | t => ([], t)

def exponentPart (r : Symbols) : List Char × Symbols :=
  match r with
  | .char c :: r' =>
    if c = 'e' || c = 'E' then
      let (sign, r'') := exponentSign r'
      let (ds, rest) := digits r''
      if ds.isEmpty then ([], r) else (c :: sign ++ ds, rest)
    else ([], r)
  | _ => ([], r)

theorem numberParts?_eq (s : Symbols) :
    numberParts? s =
      let (sign, r) := signPart s
      let (whole, r) := wholePart r
      if whole.isEmpty then none
      else
        let (fraction, r) := fractionPart r
        let (exponent, r) := exponentPart r
        some (sign ++ whole, fraction, exponent, r) := rfl

theorem signPart_eq (s : Symbols) : ∃ negative : Bool,
    (signPart s).1 = (if negative then ['-'] else []) ∧ s = (signPart s).1.map .char ++ (signPart s).2 := by
  unfold signPart
  split
  · exact ⟨true, rfl, rfl⟩
  · exact ⟨false, rfl, rfl⟩

theorem wholePart_eq (s : Symbols) :
    s = (wholePart s).1.map .char ++ (wholePart s).2 ∧
      (∀ c ∈ (wholePart s).1, Text.isAsciiDigit c = true) ∧
      ((wholePart s).1.head? = some '0' → (wholePart s).1 = ['0']) := by
  unfold wholePart
  split
  · exact ⟨rfl, List.forall_mem_singleton.mpr rfl, fun _ => rfl⟩
  · next other =>
    obtain ⟨split, all⟩ := digits_eq s
    refine ⟨split, all, fun zero => ?_⟩
    cases hd : (digits s).1 with
    | nil =>
      rw [hd] at zero
      cases zero
    | cons c ds =>
      rw [hd] at zero split
      cases zero
      exact (other _ split).elim

theorem fractionPart_eq (s : Symbols) : ∃ fraction : List Char,
    (∀ c ∈ fraction, Text.isAsciiDigit c = true) ∧
      (fractionPart s).1 = (if fraction.isEmpty then [] else '.' :: fraction) ∧
      s = (fractionPart s).1.map .char ++ (fractionPart s).2 := by
  have none : ∃ fraction : List Char, (∀ c ∈ fraction, Text.isAsciiDigit c = true) ∧
      ([] : List Char) = (if fraction.isEmpty then [] else '.' :: fraction) ∧
      s = ([] : List Char).map .char ++ s := ⟨[], List.forall_mem_nil _, rfl, rfl⟩
  unfold fractionPart
  split
  · next r' =>
    obtain ⟨split, all⟩ := digits_eq r'
    dsimp only
    split
    · exact none
    · next some_digit =>
      exact ⟨(digits r').1, all, (if_neg some_digit).symm, congrArg (.char '.' :: ·) split⟩
  · exact none

theorem exponentSign_eq (s : Symbols) :
    s = (exponentSign s).1.map .char ++ (exponentSign s).2 ∧
      ((exponentSign s).1 = [] ∨ (exponentSign s).1 = ['+'] ∨ (exponentSign s).1 = ['-']) := by
  unfold exponentSign
  split
  · exact ⟨rfl, .inr (.inl rfl)⟩
  · exact ⟨rfl, .inr (.inr rfl)⟩
  · exact ⟨rfl, .inl rfl⟩

theorem exponentPart_eq (s : Symbols) : ∃ exponent : Option Exponent,
    (exponentPart s).1 = exponent.elim [] Exponent.chars ∧
      s = (exponentPart s).1.map .char ++ (exponentPart s).2 := by
  have none : ∃ exponent : Option Exponent, ([] : List Char) = exponent.elim [] Exponent.chars ∧
      s = ([] : List Char).map .char ++ s := ⟨.none, rfl, rfl⟩
  unfold exponentPart
  split
  · next c r' =>
    obtain ⟨before, sign⟩ := exponentSign_eq r'
    obtain ⟨split, all⟩ := digits_eq (exponentSign r').2
    split
    · next mark =>
      dsimp only
      split
      · exact none
      · next some_digit =>
        refine ⟨some ⟨c, (exponentSign r').1, (digits (exponentSign r').2).1, by simpa using mark, sign,
          by simpa using some_digit, all⟩, rfl, ?_⟩
        simp only [List.cons_append, List.map_cons, List.map_append, List.append_assoc]
        rw [← split, ← before]
    · exact none
  · exact none

/-- A number that is read is one of the grammar. -/
theorem numeral_of_numberParts? {s rest : Symbols} {whole fraction exponent : List Char}
    (h : numberParts? s = some (whole, fraction, exponent, rest)) :
    ∃ n : Numeral, s = n.chars.map .char ++ rest ∧ whole = n.sign ++ n.whole ∧
      fraction = n.fractionChars ∧ exponent = n.exponentChars := by
  obtain ⟨negative, sign, hs⟩ := signPart_eq s
  obtain ⟨hw, digits, zero⟩ := wholePart_eq (signPart s).2
  obtain ⟨ds, ds_digits, point, hf⟩ := fractionPart_eq (wholePart (signPart s).2).2
  obtain ⟨e, mark, he⟩ := exponentPart_eq (fractionPart (wholePart (signPart s).2).2).2
  rw [numberParts?_eq] at h
  dsimp only at h
  split at h
  · cases h
  · next some_digit =>
    cases h
    refine ⟨⟨negative, _, ds, e, by simpa using some_digit, digits, zero, ds_digits⟩, ?_, ?_, point, mark⟩
    · simp only [Numeral.chars, Numeral.sign, Numeral.fractionChars, Numeral.exponentChars,
        List.map_append, List.append_assoc]
      rw [← mark, ← point, ← sign, ← he, ← hf, ← hw, ← hs]
    · rw [sign]
      rfl

/-- Characters that go on with a number. -/
def isMore (c : Char) : Bool := Text.isAsciiDigit c || c == '.' || c == 'e' || c == 'E'

theorem begins_mono {p q : Char → Bool} (h : ∀ c, p c = true → q c = true) {s : Symbols}
    (hs : begins q s = false) : begins p s = false := by
  unfold begins at *
  split
  · next c r =>
    rw [← Bool.not_eq_true] at hs ⊢
    exact mt (h c) hs
  · rfl

theorem fractionPart_append {fraction : List Char} {q : Symbols}
    (h : ∀ c ∈ fraction, Text.isAsciiDigit c = true) (ended : begins Text.isAsciiDigit q = false)
    (no_point : fraction = [] → begins (· == '.') q = false) :
    fractionPart ((if fraction.isEmpty then [] else '.' :: fraction).map .char ++ q) =
      (if fraction.isEmpty then [] else '.' :: fraction, q) := by
  cases fraction with
  | nil =>
    have other := no_point rfl
    change fractionPart q = ([], q)
    unfold fractionPart
    split
    · cases other
    · rfl
  | cons c cs =>
    have read := digits_append h ended
    have point : fractionPart (.char '.' :: ((c :: cs).map .char ++ q)) =
        if (digits ((c :: cs).map .char ++ q)).1.isEmpty then
          ([], .char '.' :: ((c :: cs).map .char ++ q))
        else ('.' :: (digits ((c :: cs).map .char ++ q)).1, (digits ((c :: cs).map .char ++ q)).2) := rfl
    rw [read] at point
    exact point

theorem exponentSign_append (e : Exponent) (q : Symbols) :
    exponentSign ((e.sign ++ e.digits).map .char ++ q) = (e.sign, e.digits.map .char ++ q) := by
  obtain ⟨c, ds, hd⟩ := List.exists_cons_of_ne_nil e.some_digit
  have digit : Text.isAsciiDigit c = true := e.all_digits c (hd ▸ List.mem_cons_self)
  rcases e.is_sign with none | plus | minus
  · rw [none, List.nil_append, hd, List.map_cons, List.cons_append]
    unfold exponentSign
    split
    · next h =>
      cases h
      cases digit
    · next h =>
      cases h
      cases digit
    · rfl
  · rw [plus]
    rfl
  · rw [minus]
    rfl

theorem exponentPart_append (exponent : Option Exponent) {rest : Symbols}
    (ended : begins isMore rest = false) :
    exponentPart ((exponent.elim [] Exponent.chars).map .char ++ rest) =
      (exponent.elim [] Exponent.chars, rest) := by
  cases exponent with
  | none =>
    change exponentPart rest = ([], rest)
    unfold exponentPart
    split
    · next c r =>
      rw [if_neg]
      intro mark
      simp [begins, isMore] at ended mark
      exact mark.elim ended.1.2 ended.2
    · rfl
  | some e =>
    have mark : (decide (e.mark = 'e') || decide (e.mark = 'E')) = true := by simpa using e.is_mark
    have none_more : begins Text.isAsciiDigit rest = false :=
      begins_mono (fun c h => by simp [isMore, h]) ended
    change exponentPart (.char e.mark :: ((e.sign ++ e.digits).map .char ++ rest)) =
      (e.mark :: e.sign ++ e.digits, rest)
    unfold exponentPart
    dsimp only
    rw [if_pos mark, exponentSign_append]
    dsimp only
    rw [digits_append e.all_digits none_more, if_neg (by simpa using e.some_digit)]

/-- What comes after the whole part of a number is no digit, and after the fraction no point. -/
theorem begins_exponent (exponent : Option Exponent) {rest : Symbols}
    (ended : begins isMore rest = false) :
    begins (fun c => Text.isAsciiDigit c || c == '.')
      ((exponent.elim [] Exponent.chars).map .char ++ rest) = false := by
  cases exponent with
  | none => exact begins_mono (fun c h => by simp_all [isMore]) ended
  | some e =>
    have apart : ∀ c, c = 'e' ∨ c = 'E' → (Text.isAsciiDigit c || c == '.') = false := by
      rintro c (rfl | rfl) <;> rfl
    exact apart e.mark e.is_mark

/-- The whole part begins with a digit. -/
theorem Grammar.Numeral.whole_cons (n : Numeral) :
    ∃ c cs, n.whole = c :: cs ∧ Text.isAsciiDigit c = true := by
  obtain ⟨c, cs, hw⟩ := List.exists_cons_of_ne_nil n.some_digit
  exact ⟨c, cs, hw, n.all_digits c (hw ▸ List.mem_cons_self)⟩

theorem signPart_append (n : Numeral) (q : Symbols) :
    signPart (n.sign.map .char ++ (n.whole.map .char ++ q)) = (n.sign, n.whole.map .char ++ q) := by
  unfold Numeral.sign
  cases n.negative with
  | true => rfl
  | false =>
    obtain ⟨c, cs, hw, digit⟩ := n.whole_cons
    rw [hw]
    change signPart (.char c :: (cs.map .char ++ q)) = ([], .char c :: (cs.map .char ++ q))
    unfold signPart
    split
    · next h =>
      cases h
      cases digit
    · rfl

theorem wholePart_append (n : Numeral) {q : Symbols} (ended : begins Text.isAsciiDigit q = false) :
    wholePart (n.whole.map .char ++ q) = (n.whole, q) := by
  obtain ⟨c, cs, hw, -⟩ := n.whole_cons
  by_cases zero : c = '0'
  · have single : n.whole = ['0'] := n.no_leading_zero (by rw [hw, zero]; rfl)
    rw [single]
    rfl
  · have all := digits_append n.all_digits ended
    unfold wholePart
    split
    · next h =>
      rw [hw] at h
      cases h
      exact absurd rfl zero
    · exact all

/-- A number of the grammar is read, if what follows cannot be more of it. -/
theorem numberParts?_numeral (n : Numeral) {rest : Symbols} (ended : begins isMore rest = false) :
    numberParts? (n.chars.map .char ++ rest) =
      some (n.sign ++ n.whole, n.fractionChars, n.exponentChars, rest) := by
  have after_fraction := begins_exponent n.exponent ended
  have after_whole : begins Text.isAsciiDigit
      (n.fractionChars.map .char ++ (n.exponentChars.map .char ++ rest)) = false := by
    unfold Numeral.fractionChars
    split
    · exact begins_mono (fun c h => by simp [h]) after_fraction
    · rfl
  have fraction := fractionPart_append n.fraction_digits
    (begins_mono (fun c h => by simp [h]) after_fraction)
    fun _ => begins_mono (fun c h => by simp_all) after_fraction
  rw [numberParts?_eq]
  simp only [Numeral.chars, List.map_append, List.append_assoc]
  rw [signPart_append]
  dsimp only
  rw [wholePart_append n after_whole]
  dsimp only
  rw [if_neg (by simpa using n.some_digit)]
  unfold Numeral.fractionChars Numeral.exponentChars
  rw [fraction]
  dsimp only
  rw [exponentPart_append n.exponent ended]

end Json

namespace Json.Grammar

open Reading (IsNumeral)

theorem Exponent.isNumeral (e : Exponent) : ∀ c ∈ e.chars, IsNumeral c := by
  have mark : IsNumeral e.mark := by
    rcases e.is_mark with h | h <;> rw [h] <;> exact .inr (by decide)
  have sign : ∀ c ∈ e.sign, IsNumeral c := by
    rcases e.is_sign with h | h | h <;> rw [h] <;> simp [IsNumeral]
  have digits : ∀ c ∈ e.digits, IsNumeral c := fun c hc => .inl (e.all_digits c hc)
  unfold Exponent.chars
  exact List.forall_mem_cons.mpr ⟨mark, List.forall_mem_append.mpr ⟨sign, digits⟩⟩

namespace Numeral

theorem isNumeral (n : Numeral) : ∀ c ∈ n.chars, IsNumeral c := by
  have sign : ∀ c ∈ n.sign, IsNumeral c := by
    unfold sign
    split <;> simp [IsNumeral]
  have whole : ∀ c ∈ n.whole, IsNumeral c := fun c hc => .inl (n.all_digits c hc)
  have fraction : ∀ c ∈ n.fractionChars, IsNumeral c := by
    unfold fractionChars
    split
    · exact List.forall_mem_nil _
    · exact List.forall_mem_cons.mpr ⟨.inr (by decide), fun c hc => .inl (n.fraction_digits c hc)⟩
  have exponent : ∀ c ∈ n.exponentChars, IsNumeral c := by
    unfold exponentChars
    cases n.exponent with
    | none => exact List.forall_mem_nil _
    | some e => exact e.isNumeral
  unfold chars
  simp only [List.forall_mem_append]
  exact ⟨⟨⟨sign, whole⟩, fraction⟩, exponent⟩

theorem splitSign_chars (n : Numeral) (more : List Char) :
    Reading.splitSign (n.sign ++ (n.whole ++ more)) = (n.negative, n.whole ++ more) := by
  obtain ⟨c, cs, hw, digit⟩ := n.whole_cons
  unfold sign
  cases n.negative with
  | true => rfl
  | false =>
    rw [if_neg Bool.false_ne_true, List.nil_append, hw]
    exact Reading.splitSign_digit digit _

/-- A whole number is read unless it has too many digits. -/
theorem int_whole (n : Numeral) : Reading.int (n.sign ++ n.whole) =
    if Reading.maxIntDigits < n.whole.length then .error (.tooLong n.whole.length)
    else .ok (Binary64.signed n.negative (Reading.digitsValue n.whole)) := by
  have numeral : ∀ c ∈ n.sign ++ n.whole, IsNumeral c := by
    intro c hc
    apply n.isNumeral c
    unfold chars
    simp only [List.append_assoc, List.mem_append] at hc ⊢
    exact hc.elim .inl fun h => .inr (.inl h)
  have no_mark : '_' ∉ n.whole := fun h => (numeral '_' (List.mem_append_right _ h)).plain.2.2 rfl
  have run : (n.whole.takeWhile fun c => Text.isAsciiDigit c || c = '_') = n.whole :=
    List.takeWhile_eq_self_iff.mpr fun c hc => by simp [n.all_digits c hc]
  have split := n.splitSign_chars []
  rw [List.append_nil] at split
  unfold Reading.int
  rw [Reading.prepare_numeral numeral, split]
  dsimp only
  rw [run, Reading.dropUnderscores?_none no_mark]
  dsimp only
  rw [if_neg (by simpa using n.some_digit), if_neg (Nat.lt_irrefl _)]

theorem exponent?_chars (exponent : Option Exponent) :
    Reading.exponent? (exponent.elim [] Exponent.chars) = some (exponent.elim 0 Exponent.value) := by
  cases exponent with
  | none => rfl
  | some e =>
    obtain ⟨c, ds, hd⟩ := List.exists_cons_of_ne_nil e.some_digit
    have digit : Text.isAsciiDigit c = true := e.all_digits c (hd ▸ List.mem_cons_self)
    have mark : (decide (e.mark = 'e') || decide (e.mark = 'E')) = true := by simpa using e.is_mark
    have split : Reading.splitSign (e.sign ++ e.digits) = (e.sign == ['-'], e.digits) := by
      rcases e.is_sign with h | h | h
      · rw [h, List.nil_append, hd]
        exact Reading.splitSign_digit digit _
      · rw [h]
        rfl
      · rw [h]
        rfl
    change Reading.exponent? (e.mark :: (e.sign ++ e.digits)) = some e.value
    unfold Reading.exponent?
    dsimp only
    rw [if_pos mark, split]
    dsimp only
    rw [if_neg]
    · rfl
    · simp [e.some_digit, List.all_eq_true.mpr e.all_digits]

theorem head?_exponentChars (n : Numeral) :
    ∀ c ∈ n.exponentChars.head?, Text.isAsciiDigit c = false ∧ c ≠ '.' := by
  unfold exponentChars
  cases n.exponent with
  | none => nofun
  | some e =>
    rintro c ⟨⟩
    rcases e.is_mark with h | h <;> rw [h] <;> decide

/-- The point and the exponent are found where they stand. -/
theorem pointPart_chars (n : Numeral) :
    Reading.pointPart (n.fractionChars ++ n.exponentChars) = (n.fraction, n.exponentChars) := by
  have after_fraction := n.head?_exponentChars
  unfold fractionChars
  split
  · next none =>
    rw [List.nil_append, List.isEmpty_iff.mp none]
    unfold Reading.pointPart
    split
    · next h => exact absurd rfl (after_fraction '.' (by rw [h]; rfl)).2
    · rfl
  · obtain ⟨fraction, rest⟩ := Reading.span_digits n.fraction_digits
      fun c hc => (after_fraction c hc).1
    exact Prod.ext fraction rest

theorem decimal?_chars (n : Numeral) :
    Reading.decimal? n.negative (n.whole ++ (n.fractionChars ++ n.exponentChars)) =
      some (Binary64.ofDecimal n.negative (Reading.digitsValue (n.whole ++ n.fraction))
        (n.exponent.elim 0 Exponent.value - n.fraction.length)) := by
  have some_whole : n.whole.isEmpty = false := by simpa using n.some_digit
  have exponent : Reading.exponent? n.exponentChars = some (n.exponent.elim 0 Exponent.value) :=
    exponent?_chars n.exponent
  have after_whole : ∀ c ∈ (n.fractionChars ++ n.exponentChars).head?, Text.isAsciiDigit c = false := by
    unfold fractionChars
    split
    · exact fun c hc => (n.head?_exponentChars c hc).1
    · rintro c ⟨⟩
      rfl
  obtain ⟨whole, rest⟩ := Reading.span_digits n.all_digits after_whole
  rw [Reading.decimal?_eq]
  dsimp only
  rw [whole, rest, n.pointPart_chars]
  dsimp only
  rw [some_whole, Bool.false_and, if_neg Bool.false_ne_true, exponent]
  rfl

/-- The characters of a number are read as a double, although some words are doubles too. -/
theorem double?_chars (n : Numeral) : Reading.double? n.chars =
    some (Binary64.ofDecimal n.negative (Reading.digitsValue (n.whole ++ n.fraction))
      (n.exponent.elim 0 Exponent.value - n.fraction.length)) := by
  obtain ⟨c, cs, hw, digit⟩ := n.whole_cons
  have no_mark : '_' ∉ n.chars := fun h => (n.isNumeral '_' h).plain.2.2 rfl
  have split : Reading.splitSign n.chars =
      (n.negative, n.whole ++ (n.fractionChars ++ n.exponentChars)) := by
    have nested : n.chars = n.sign ++ (n.whole ++ (n.fractionChars ++ n.exponentChars)) := by
      simp [chars]
    rw [nested, n.splitSign_chars]
  -- the characters begin with a digit, and the words do not
  have no_word : ∀ word : String, word.toList.head?.all (!Text.isAsciiDigit ·) = true →
      String.ofList ((n.whole ++ (n.fractionChars ++ n.exponentChars)).map Reading.asciiLower) ≠ word := by
    rintro word letter rfl
    rw [String.toList_ofList, hw, List.cons_append, List.map_cons, Reading.asciiLower_digit digit] at letter
    simp [digit] at letter
  unfold Reading.double?
  rw [Reading.prepare_numeral n.isNumeral, Reading.dropUnderscores?_none no_mark, Option.bind_some, split]
  dsimp only
  rw [if_neg, if_neg, n.decimal?_chars]
  · exact no_word "nan" rfl
  · exact not_or.mpr ⟨no_word "inf" rfl, no_word "infinity" rfl⟩

/-- What a number of the grammar comes to, unless it is a whole one with too many digits. -/
theorem numberValue_chars (n : Numeral) : numberValue (n.sign ++ n.whole) n.fractionChars n.exponentChars =
    if n.isWhole = true ∧ Reading.maxIntDigits < n.whole.length then
      .error (.fault (.longNumeral n.whole.length))
    else .ok n.value := by
  have parts : (n.fractionChars.isEmpty && n.exponentChars.isEmpty) = n.isWhole := by
    unfold isWhole fractionChars exponentChars
    cases n.fraction <;> cases n.exponent <;> rfl
  unfold numberValue value
  rw [parts]
  cases whole : n.isWhole with
  | true =>
    rw [if_pos rfl, if_pos rfl, n.int_whole]
    by_cases long : Reading.maxIntDigits < n.whole.length
    · rw [if_pos long, if_pos ⟨rfl, long⟩]
    · rw [if_neg long, if_neg fun h => long h.2]
  | false =>
    have rounded := n.double?_chars
    rw [Numeral.chars] at rounded
    rw [if_neg Bool.false_ne_true, if_neg Bool.false_ne_true, if_neg fun h => Bool.false_ne_true h.1, rounded]
    rfl

end Numeral
end Json.Grammar
end BatteryLink
