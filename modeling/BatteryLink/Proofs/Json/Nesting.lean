import BatteryLink.Proofs.Json.Numerals
/-!
How deep a text is nested. That is seen without reading it as a value: strings are passed over, and
outside of them brackets and braces are counted. Whatever is in the grammar ends on the level on
which it began.
-/
namespace BatteryLink.Json

open BatteryLink.Text (Symbol Symbols)

/-- Where a symbol stands: outside of strings, inside of one, or after the mark of an escape. -/
inductive Part where
  | outside
  | inside
  | escaped
  deriving DecidableEq, Repr

def Part.next (p : Part) (x : Symbol) : Part :=
  match p with
  | .outside => if x = .char '"' then .inside else .outside
  | .inside => if x = .char '"' then .outside else if x = .char '\\' then .escaped else .inside
  | .escaped => .inside

def Opens (x : Symbol) : Prop := x = .char '[' ∨ x = .char '\x7b'

def Closes (x : Symbol) : Prop := x = .char ']' ∨ x = .char '\x7d'

instance : DecidablePred Opens := fun _ => inferInstanceAs (Decidable (_ ∨ _))

instance : DecidablePred Closes := fun _ => inferInstanceAs (Decidable (_ ∨ _))

/-- The level after a symbol outside of strings. -/
def level (n : Nat) (x : Symbol) : Nat :=
  if Opens x then n + 1 else if Closes x then n - 1 else n

/-- The highest level that a text gets to if it begins on the level `n`. -/
def peak : Part → Nat → Symbols → Nat
  | _, n, [] => n
  | p, n, x :: r => max n (peak (p.next x) (if p = .outside then level n x else n) r)

def nesting (s : Symbols) : Nat := peak .outside 0 s

/-- How deep the text of some octets is nested. Octets that are no text have no levels. -/
def levels (octets : List UInt8) : Nat :=
  match decodeText octets with
  | .ok s => nesting s
  | .error _ => 0

variable {n room : Nat} {x : Symbol} {s t r : Symbols}

theorem le_peak (p : Part) (n : Nat) (s : Symbols) : n ≤ peak p n s := by
  cases s with
  | nil => exact Nat.le_refl n
  | cons x r => exact Nat.le_max_left _ _

theorem peak_inside (next : Part.inside.next x = .inside) :
    peak .inside n (x :: r) = peak .inside n r := by
  rw [peak, next]
  exact Nat.max_eq_right (le_peak _ _ _)

theorem peak_quote : peak .inside n (.char '"' :: r) = peak .outside n r :=
  Nat.max_eq_right (le_peak _ _ _)

theorem peak_escape : peak .inside n (.char '\\' :: x :: r) = peak .inside n r := by
  have past : peak .escaped n (x :: r) = peak .inside n r := Nat.max_eq_right (le_peak _ _ _)
  rw [← past]
  exact Nat.max_eq_right (le_peak _ _ _)

theorem peak_string : peak .outside n (.char '"' :: r) = peak .inside n r :=
  Nat.max_eq_right (le_peak _ _ _)

/-- A symbol that is neither a mark of a level nor the quote of a string. -/
def Flat (x : Symbol) : Prop := x ≠ .char '"' ∧ ¬ Opens x ∧ ¬ Closes x

instance : DecidablePred Flat := fun _ => inferInstanceAs (Decidable (_ ∧ _))

theorem peak_flat (flat : Flat x) : peak .outside n (x :: r) = peak .outside n r := by
  obtain ⟨quote, opens, closes⟩ := flat
  rw [peak, if_pos rfl, level, if_neg opens, if_neg closes, Part.next, if_neg quote]
  exact Nat.max_eq_right (le_peak _ _ _)

theorem peak_opens (opens : Opens x) : peak .outside n (x :: r) = peak .outside (n + 1) r := by
  have other : x ≠ .char '"' := by
    rcases opens with rfl | rfl <;> decide
  rw [peak, if_pos rfl, level, if_pos opens, Part.next, if_neg other]
  exact Nat.max_eq_right ((Nat.le_succ n).trans (le_peak _ _ _))

theorem peak_closes (closes : Closes x) :
    peak .outside (n + 1) (x :: r) = max (n + 1) (peak .outside n r) := by
  have other : x ≠ .char '"' ∧ ¬ Opens x := by
    rcases closes with rfl | rfl <;> decide
  rw [peak, if_pos rfl, level, if_neg other.2, if_pos closes, Part.next, if_neg other.1]
  rfl

/-- A piece of a text that opens no level. -/
def Even (t : Symbols) : Prop := ∀ n r, peak .outside n (t ++ r) = peak .outside n r

/-- A piece of a text that ends on the level on which it began, without getting below it. -/
def Balanced (t : Symbols) : Prop :=
  ∀ n r, peak .outside n (t ++ r) = max (n + nesting t) (peak .outside n r)

theorem Even.nesting_append (h : Even t) (r : Symbols) : nesting (t ++ r) = nesting r := h 0 r

theorem Even.nesting_eq (h : Even t) : nesting t = 0 := by
  have whole := h.nesting_append []
  rwa [List.append_nil] at whole

theorem Even.nesting_le (h : Even t) : nesting t ≤ room := h.nesting_eq.trans_le (Nat.zero_le room)

theorem Even.balanced (h : Even t) : Balanced t := by
  intro n r
  rw [h, h.nesting_eq]
  exact (Nat.max_eq_right (le_peak _ _ _)).symm

theorem Even.cons (ht : Even t) (flat : Flat x) : Even (x :: t) := by
  intro n r
  rw [List.cons_append, peak_flat flat, ht]

theorem even_of_flat (h : ∀ x ∈ t, Flat x) : Even t := by
  induction t with
  | nil => exact fun _ _ => rfl
  | cons x t ih =>
    obtain ⟨flat, rest⟩ := List.forall_mem_cons.mp h
    exact (ih rest).cons flat

theorem Even.append (hs : Even s) (ht : Even t) : Even (s ++ t) := by
  intro n r
  rw [List.append_assoc, hs, ht]

theorem Balanced.nesting_append (hs : Balanced s) (t : Symbols) :
    nesting (s ++ t) = max (nesting s) (nesting t) := by
  rw [nesting, hs, Nat.zero_add]
  rfl

theorem Balanced.nesting_append_le (hs : Balanced s) :
    nesting (s ++ t) ≤ room ↔ nesting s ≤ room ∧ nesting t ≤ room := by
  rw [hs.nesting_append, Nat.max_le]

theorem Balanced.append (hs : Balanced s) (ht : Balanced t) : Balanced (s ++ t) := by
  intro n r
  rw [List.append_assoc, hs, ht, hs.nesting_append]
  omega

/-- Between its marks a piece is one level further up. -/
theorem Balanced.peak_between (ht : Balanced t) {y : Symbol} (opens : Opens x) (closes : Closes y) (n : Nat)
    (r : Symbols) : peak .outside n (x :: t ++ y :: r) =
      max (n + (nesting t + 1)) (peak .outside n r) := by
  rw [List.cons_append, peak_opens opens, ht, peak_closes closes]
  omega

theorem Balanced.nesting_between (ht : Balanced t) {y : Symbol} (opens : Opens x) (closes : Closes y) :
    nesting (x :: t ++ [y]) = nesting t + 1 := by
  rw [nesting, ht.peak_between opens closes, Nat.zero_add]
  exact Nat.max_eq_left (Nat.zero_le _)

theorem Balanced.between (ht : Balanced t) {y : Symbol} (opens : Opens x) (closes : Closes y) :
    Balanced (x :: t ++ [y]) := by
  intro n r
  rw [ht.nesting_between opens closes, List.append_assoc]
  exact ht.peak_between opens closes n r

theorem Balanced.nesting_between_le (ht : Balanced t) {y : Symbol} (opens : Opens x) (closes : Closes y)
    (fits : nesting t ≤ room) : nesting (x :: t ++ [y]) ≤ room + 1 :=
  (ht.nesting_between opens closes).trans_le (Nat.succ_le_succ fits)

/-- Wherever it begins, a text goes up by more than `room` levels. -/
def Deep (room : Nat) (s : Symbols) : Prop := ∀ n, n + room < peak .outside n s

theorem Deep.append (hr : Deep room r) (balanced : Balanced s) : Deep room (s ++ r) := by
  intro n
  rw [balanced]
  exact Nat.lt_of_lt_of_le (hr n) (Nat.le_max_right _ _)

theorem Deep.opened (hr : Deep room r) (opens : Opens x) : Deep (room + 1) (x :: r) := by
  intro n
  rw [peak_opens opens, Nat.add_comm room, ← Nat.add_assoc]
  exact hr (n + 1)

/-- Without room no level can be opened. -/
theorem deep_zero (opens : Opens x) : Deep 0 (x :: r) := by
  intro n
  rw [peak_opens opens]
  exact le_peak _ _ _

namespace Grammar

theorem flat_of_blank (h : isSpace x = true) : Flat x := by
  cases x with
  | surrogate n => cases h
  | char c =>
    simp only [isSpace, Bool.or_eq_true, decide_eq_true_eq] at h
    rcases h with ((rfl | rfl) | rfl) | rfl <;> decide

theorem Blank.even {b : Symbols} (h : Blank b) : Even b :=
  even_of_flat fun x hx => flat_of_blank (h x hx)

theorem Blank.even_comma {b : Symbols} (h : Blank b) : Even (.char ',' :: b) := h.even.cons (by decide)

/-- A hexadecimal digit is neither a quote nor the mark of an escape. -/
theorem next_hexDigit {d : Nat} (h : hexDigit? x = some d) : Part.inside.next x = .inside := by
  have quote : x ≠ .char '"' := by
    rintro rfl
    cases h
  have mark : x ≠ .char '\\' := by
    rintro rfl
    cases h
  rw [Part.next, if_neg quote, if_neg mark]

theorem Code.peak_eq {e : Symbols} {k : Nat} (h : Code e k) :
    peak .inside n (e ++ r) = peak .inside n r := by
  cases h with
  | digits code =>
    simp only [hexCode?, Option.bind_eq_bind, Option.bind_eq_some_iff] at code
    obtain ⟨_, ha, _, hb, _, hc, _, hd, -⟩ := code
    simp only [List.cons_append, List.nil_append]
    rw [peak_escape, peak_inside (next_hexDigit ha), peak_inside (next_hexDigit hb),
      peak_inside (next_hexDigit hc), peak_inside (next_hexDigit hd)]

theorem Chars.peak_eq (h : Chars s t) : peak .inside n (s ++ r) = peak .inside n r := by
  induction h with
  | nil => rfl
  | plain _ quote mark _ ih =>
    rw [List.cons_append, peak_inside (by rw [Part.next, if_neg quote, if_neg mark]), ih]
  | short _ _ ih => rw [List.cons_append, List.cons_append, peak_escape, ih]
  | pair first _ second _ _ ih =>
    rw [List.append_assoc, List.append_assoc, first.peak_eq, second.peak_eq, ih]
  | code e _ _ ih => rw [List.append_assoc, e.peak_eq, ih]

theorem Chars.even (h : Chars s t) : Even (quoted s) := by
  intro n r
  have split : quoted s ++ r = .char '"' :: (s ++ .char '"' :: r) := by simp [quoted]
  rw [split, peak_string, h.peak_eq, peak_quote]

/-- The name of a member, up to its value. -/
theorem Chars.even_name {b b' : Symbols} (h : Chars s t) (blank : Blank b) (blank' : Blank b') :
    Even (quoted s ++ b ++ .char ':' :: b') :=
  (h.even.append blank.even).append (blank'.even.cons (by decide))

theorem even_word : ∀ w ∈ wordValues, Even (Symbols.ofString w.1) := by
  have flat : ∀ w ∈ wordValues, ∀ x ∈ Symbols.ofString w.1, Flat x := by
    simp only [wordValues, List.forall_mem_cons]
    refine ⟨?_, ?_, ?_, ?_, ?_, ?_, List.forall_mem_nil _⟩ <;> decide
  exact fun w hw => even_of_flat (flat w hw)

theorem Numeral.even (n : Numeral) : Even (n.chars.map .char) := by
  refine even_of_flat (List.forall_mem_map.mpr fun c hc => ?_)
  rcases n.isNumeral c hc with digit | mark
  · have other : ∀ x, Text.isAsciiDigit x = false → Symbol.char c ≠ .char x := by
      rintro x no he
      cases he
      exact Bool.false_ne_true (no.symm.trans digit)
    exact ⟨other _ rfl, not_or.mpr ⟨other _ rfl, other _ rfl⟩, not_or.mpr ⟨other _ rfl, other _ rfl⟩⟩
  · have all : ∀ c ∈ ['-', '+', '.', 'e', 'E'], Flat (.char c) := by
      simp only [List.forall_mem_cons]
      exact ⟨by decide, by decide, by decide, by decide, by decide, List.forall_mem_nil _⟩
    exact all c mark

mutual

/-- The induction is on how the text is built. -/
theorem Denotes.balanced {s : Symbols} {v : Value} : Denotes s v → Balanced s
  | .string chars => chars.even.balanced
  | .word hw => (even_word _ hw).balanced
  | .number n => n.even.balanced
  | .emptyList blank => blank.even.balanced.between (.inl rfl) (.inl rfl)
  | .list blank items => (blank.even.balanced.append items.balanced).between (.inl rfl) (.inl rfl)
  | .dict object => object.balanced

theorem Items.balanced {s : Symbols} {vs : List Value} : Items s vs → Balanced s
  | .last h blank => h.balanced.append blank.even.balanced
  | .more h blank blank' items =>
    ((h.balanced.append blank.even.balanced).append blank'.even_comma.balanced).append items.balanced

theorem Object.balanced {s : Symbols} {ms : List (Symbols × Value)} : Object s ms → Balanced s
  | .empty blank => blank.even.balanced.between (.inr rfl) (.inr rfl)
  | .members blank members =>
    (blank.even.balanced.append members.balanced).between (.inr rfl) (.inr rfl)

theorem Members.balanced {s : Symbols} {ms : List (Symbols × Value)} : Members s ms → Balanced s
  | .last member => member.balanced
  | .more member blank members =>
    (member.balanced.append blank.even_comma.balanced).append members.balanced

theorem Member.balanced {s : Symbols} {m : Symbols × Value} : Member s m → Balanced s
  | .entry chars blank blank' h blank'' =>
    ((chars.even_name blank blank').balanced.append h.balanced).append blank''.even.balanced

end

end Grammar

/-- A piece of a text that has enough room for its levels and is too short for any number in it to be
too long. -/
structure Modest (room : Nat) (t : Symbols) : Prop where
  short : t.length ≤ Reading.maxIntDigits
  fits : nesting t ≤ room

theorem Modest.of_append (h : Modest room (s ++ t)) (balanced : Balanced s) :
    Modest room s ∧ Modest room t := by
  obtain ⟨short, fits⟩ := h
  obtain ⟨first, others⟩ := balanced.nesting_append_le.mp fits
  rw [List.length_append] at short
  exact ⟨⟨by omega, first⟩, ⟨by omega, others⟩⟩

/-- The marks take a level, and one less is left for what is between them. -/
theorem Modest.of_between {y : Symbol} (h : Modest room (x :: t ++ [y])) (balanced : Balanced t)
    (opens : Opens x) (closes : Closes y) : ∃ left, room = left + 1 ∧ Modest left t := by
  obtain ⟨short, fits⟩ := h
  rw [balanced.nesting_between opens closes] at fits
  rw [List.length_append, List.length_cons] at short
  exact ⟨room - 1, by omega, by omega, by omega⟩

/-- Blanks stand after the first mark. -/
theorem Modest.inside {y : Symbol} {b : Symbols} (h : Modest room (x :: b ++ t ++ [y]))
    (blank : Grammar.Blank b) (balanced : Balanced t) (opens : Opens x) (closes : Closes y) :
    ∃ left, room = left + 1 ∧ Modest left t := by
  obtain ⟨left, same, inside⟩ := h.of_between (blank.even.balanced.append balanced) opens closes
  exact ⟨left, same, (inside.of_append blank.even.balanced).2⟩

theorem Modest.of_comma {b : Symbols} (h : Modest room (s ++ .char ',' :: b ++ t)) (balanced : Balanced s)
    (blank : Grammar.Blank b) : Modest room s ∧ Modest room t := by
  obtain ⟨until_comma, after⟩ := h.of_append (balanced.append blank.even_comma.balanced)
  exact ⟨(until_comma.of_append balanced).1, after⟩

theorem Modest.whole {n : Grammar.Numeral} (h : Modest room (n.chars.map .char)) :
    n.whole.length ≤ Reading.maxIntDigits := by
  have short := h.short
  simp only [Grammar.Numeral.chars, List.map_append, List.length_append, List.length_map] at short
  omega

end BatteryLink.Json
