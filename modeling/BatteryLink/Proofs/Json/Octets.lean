import BatteryLink.Json.Encoding
import BatteryLink.Proofs.Stopping
import Mathlib.Data.List.Chain
/-!
Which octets spell which text. An encoding says how a text is written; reading undoes exactly that.
-/
namespace BatteryLink

namespace Text

theorem isHighSurrogate_iff {n : Nat} : isHighSurrogate n = true ↔ 0xD800 ≤ n ∧ n < 0xDC00 := by
  simp only [isHighSurrogate, Bool.and_eq_true, decide_eq_true_eq]
  omega

theorem isLowSurrogate_iff {n : Nat} : isLowSurrogate n = true ↔ 0xDC00 ≤ n ∧ n < 0xE000 := by
  simp only [isLowSurrogate, Bool.and_eq_true, decide_eq_true_eq]
  omega

theorem surrogate_range {n : Nat} (h : isHighSurrogate n = true ∨ isLowSurrogate n = true) :
    0xD800 ≤ n ∧ n < 0xE000 := by
  rw [isHighSurrogate_iff, isLowSurrogate_iff] at h
  omega

theorem not_surrogate_of_valid {n : Nat} (h : n.isValidChar) :
    isHighSurrogate n = false ∧ isLowSurrogate n = false := by
  simp only [Nat.isValidChar] at h
  rw [← Bool.not_eq_true, ← Bool.not_eq_true, isHighSurrogate_iff, isLowSurrogate_iff]
  omega

namespace Symbol

/-- What stands alone is a half of a pair indeed. -/
inductive Proper : Symbol → Prop
  | char (c : Char) : Proper (char c)
  | surrogate {n : Nat} : isHighSurrogate n = true ∨ isLowSurrogate n = true → Proper (surrogate n)

theorem Proper.code_lt {x : Symbol} (h : x.Proper) : x.code < 0x110000 := by
  cases h with
  | char c =>
    have valid : c.toNat < 0xD800 ∨ 0xDFFF < c.toNat ∧ c.toNat < 0x110000 := c.valid
    show c.toNat < _
    omega
  | surrogate half => exact (surrogate_range half).2.trans (by decide)

theorem Proper.ofCode_code {x : Symbol} (h : x.Proper) : ofCode x.code = x := by
  cases h with
  | char c =>
    obtain ⟨high, low⟩ := not_surrogate_of_valid (n := c.toNat) c.valid
    simp only [ofCode, code, high, low, Bool.or_self, Bool.false_eq_true, if_false, Char.ofNat_toNat]
  | surrogate half => exact if_pos (Bool.or_eq_true_iff.mpr half)

theorem proper_ofCode (n : Nat) : (ofCode n).Proper := by
  unfold ofCode
  split
  · next h => exact .surrogate (Bool.or_eq_true_iff.mp h)
  · exact .char _

theorem code_ofCode {n : Nat} (h : n < 0x110000) : (ofCode n).code = n := by
  unfold ofCode
  split
  · rfl
  · next other =>
    have valid : n.isValidChar := by
      rw [Bool.or_eq_true, isHighSurrogate_iff, isLowSurrogate_iff] at other
      simp only [Nat.isValidChar]
      omega
    rw [Char.ofNat, dif_pos valid]
    rfl

end Symbol
end Text

namespace Json

open Text (Symbol Symbols pairCode isHighSurrogate isLowSurrogate isHighSurrogate_iff isLowSurrogate_iff
  units16)

def octets8 (n : Nat) : List UInt8 :=
  if n < 0x80 then [.ofNat n]
  else if n < 0x800 then [.ofNat (0xC0 + n / 0x40), .ofNat (0x80 + n % 0x40)]
  else if n < 0x10000 then
    [.ofNat (0xE0 + n / 0x1000), .ofNat (0x80 + n / 0x40 % 0x40), .ofNat (0x80 + n % 0x40)]
  else
    [.ofNat (0xF0 + n / 0x40000), .ofNat (0x80 + n / 0x1000 % 0x40), .ofNat (0x80 + n / 0x40 % 0x40),
      .ofNat (0x80 + n % 0x40)]

def octets16 (big : Bool) (unit : Nat) : List UInt8 :=
  let low := [.ofNat unit, .ofNat (unit / 0x100)]
  if big then low.reverse else low

def octets32 (big : Bool) (n : Nat) : List UInt8 :=
  let low := [.ofNat n, .ofNat (n / 0x100), .ofNat (n / 0x10000), .ofNat (n / 0x1000000)]
  if big then low.reverse else low

namespace Encoding

/-- The octets of a code point. -/
def octets : Encoding → Nat → List UInt8
  | utf8 | utf8Marked => octets8
  | utf16 big _ => fun n => (units16 n).flatMap (octets16 big)
  | utf32 big _ => octets32 big

/-- The octets of a text, after the mark that the encoding has. -/
def write (e : Encoding) (s : Symbols) : List UInt8 := e.mark ++ s.flatMap fun x => e.octets x.code

/-- Whether the halves of a pair make one character when they are next to each other. -/
def joins : Encoding → Bool
  | utf16 _ _ => true
  | _ => false

end Encoding

/-- No half of a pair is followed by the other half. -/
def Unpaired (s : Symbols) : Prop :=
  s.IsChain fun x y => isHighSurrogate x.code = true → isLowSurrogate y.code = false

/-- Octets that spell a text, in the encoding that they announce. -/
def Spells (octets : List UInt8) (s : Symbols) : Prop :=
  let e := Encoding.detect octets
  octets = e.write s ∧ (∀ x ∈ s, x.Proper) ∧ (e.joins = true → Unpaired s)

theorem isContinuation_iff {b : UInt8} : isContinuation b = true ↔ 0x80 ≤ b.toNat ∧ b.toNat < 0xC0 := by
  simp [isContinuation, UInt8.lt_iff_toNat_lt, UInt8.le_iff_toNat_le]

theorem secondFits_iff {a b : UInt8} : secondFits a b = true ↔ (0x80 ≤ b.toNat ∧ b.toNat < 0xC0) ∧
    (a.toNat = 0xE0 → 0xA0 ≤ b.toNat) ∧ (a.toNat = 0xF0 → 0x90 ≤ b.toNat) ∧
    (a.toNat = 0xF4 → b.toNat < 0x90) := by
  simp [secondFits, isContinuation, UInt8.lt_iff_toNat_lt, UInt8.le_iff_toNat_le, ← UInt8.toNat_inj]
  omega

theorem ofNat_eq {a : UInt8} {n : Nat} (h : n = a.toNat) : UInt8.ofNat n = a := by
  rw [h, UInt8.ofNat_toNat]

/-- The octets of one character, the first and what follows it, and the code point they stand for. -/
inductive Utf8Char : UInt8 → List UInt8 → Nat → Prop
  | one {a : UInt8} : a.toNat < 0x80 → Utf8Char a [] a.toNat
  | two {a b : UInt8} : 0xC2 ≤ a.toNat → a.toNat < 0xE0 → secondFits a b = true →
      Utf8Char a [b] (a.toNat % 32 * 64 + sixBits b)
  | three {a b c : UInt8} : 0xE0 ≤ a.toNat → a.toNat < 0xF0 → secondFits a b = true →
      isContinuation c = true → Utf8Char a [b, c] (a.toNat % 16 * 4096 + sixBits b * 64 + sixBits c)
  | four {a b c d : UInt8} : 0xF0 ≤ a.toNat → a.toNat < 0xF5 → secondFits a b = true →
      isContinuation c = true → isContinuation d = true → Utf8Char a [b, c, d]
        (a.toNat % 8 * 262144 + sixBits b * 4096 + sixBits c * 64 + sixBits d)

namespace Utf8Char

variable {a : UInt8} {u r : List UInt8} {n size : Nat}

theorem unit (h : Utf8Char a u n) (rest : List UInt8) : utf8Unit a (u ++ rest) = .char n (u.length + 1) := by
  unfold utf8Unit
  simp only [UInt8.lt_iff_toNat_lt, UInt8.le_iff_toNat_le, UInt8.reduceToNat]
  cases h with
  | one first => exact if_pos first
  | two first short fits =>
    simp only [List.cons_append, List.nil_append, fits, Bool.not_true, Bool.false_eq_true, if_false]
    rw [if_neg (by omega), if_neg (by omega), if_pos (by omega)]
    rfl
  | three first short fits third =>
    simp only [List.cons_append, List.nil_append, fits, third, Bool.not_true, Bool.false_eq_true, if_false]
    rw [if_neg (by omega), if_neg (by omega), if_neg (by omega), if_pos (by omega)]
    rfl
  | four first short fits third fourth =>
    simp only [List.cons_append, List.nil_append, fits, third, fourth, Bool.not_true, Bool.false_eq_true,
      if_false]
    rw [if_neg (by omega), if_neg (by omega), if_neg (by omega), if_neg (by omega)]
    rfl

/-- What is taken for a character is one. -/
theorem of_unit (h : utf8Unit a r = .char n size) :
    ∃ u r', r = u ++ r' ∧ size = u.length + 1 ∧ Utf8Char a u n := by
  unfold utf8Unit at h
  simp only [UInt8.lt_iff_toNat_lt, UInt8.le_iff_toNat_le, Bool.not_eq_true', UInt8.reduceToNat] at h
  split at h
  · next first =>
    cases h
    exact ⟨[], r, rfl, rfl, .one first⟩
  · split at h
    · cases h
    · split at h
      · cases h
      · next b r =>
        split at h
        · cases h
        · next fits =>
          rw [Bool.not_eq_false] at fits
          split at h
          · cases h
            exact ⟨[b], r, rfl, rfl, .two (by omega) (by omega) fits⟩
          · split at h
            · split at h <;> cases h
            · next c r =>
              split at h
              · cases h
              · next third =>
                rw [Bool.not_eq_false] at third
                split at h
                · cases h
                  exact ⟨[b, c], r, rfl, rfl, .three (by omega) (by omega) fits third⟩
                · split at h
                  · cases h
                  · next d r =>
                    split at h
                    · cases h
                    · next fourth =>
                      rw [Bool.not_eq_false] at fourth
                      cases h
                      exact ⟨[b, c, d], r, rfl, rfl, .four (by omega) (by omega) fits third fourth⟩

theorem octets (h : Utf8Char a u n) : n < 0x110000 ∧ octets8 n = a :: u := by
  unfold octets8
  cases h with
  | one first => exact ⟨by omega, by rw [if_pos first, UInt8.ofNat_toNat]⟩
  | @two b first short fits =>
    obtain ⟨second, -⟩ := secondFits_iff.mp fits
    unfold sixBits
    refine ⟨by omega, ?_⟩
    rw [if_neg (by omega), if_pos (by omega), ofNat_eq (a := a) (by omega), ofNat_eq (a := b) (by omega)]
  | @three b c first short fits third =>
    obtain ⟨second, long, -⟩ := secondFits_iff.mp fits
    rw [isContinuation_iff] at third
    unfold sixBits
    refine ⟨by omega, ?_⟩
    rw [if_neg (by omega), if_neg (by omega), if_pos (by omega), ofNat_eq (a := a) (by omega),
      ofNat_eq (a := b) (by omega), ofNat_eq (a := c) (by omega)]
  | @four b c d first short fits third fourth =>
    obtain ⟨second, -, long, high⟩ := secondFits_iff.mp fits
    rw [isContinuation_iff] at third fourth
    unfold sixBits
    refine ⟨by omega, ?_⟩
    rw [if_neg (by omega), if_neg (by omega), if_neg (by omega), ofNat_eq (a := a) (by omega),
      ofNat_eq (a := b) (by omega), ofNat_eq (a := c) (by omega), ofNat_eq (a := d) (by omega)]

end Utf8Char

theorem exists_octet {n : Nat} (h : n < 0x100) : ∃ a : UInt8, a.toNat = n :=
  ⟨.ofNat n, by rw [UInt8.toNat_ofNat', Nat.mod_eq_of_lt h]⟩

theorem exists_utf8Char {n : Nat} (h : n < 0x110000) : ∃ a u, Utf8Char a u n := by
  obtain ⟨last, hlast⟩ := exists_octet (n := 0x80 + n % 0x40) (by omega)
  obtain ⟨middle, hmiddle⟩ := exists_octet (n := 0x80 + n / 0x40 % 0x40) (by omega)
  have ends : isContinuation last = true := isContinuation_iff.mpr (by omega)
  have goes_on : isContinuation middle = true := isContinuation_iff.mpr (by omega)
  rcases Nat.lt_or_ge n 0x80 with one | more
  · obtain ⟨a, rfl⟩ := exists_octet (n := n) (by omega)
    exact ⟨a, [], .one one⟩
  rcases Nat.lt_or_ge n 0x800 with two | more
  · obtain ⟨a, ha⟩ := exists_octet (n := 0xC0 + n / 0x40) (by omega)
    have code : a.toNat % 32 * 64 + sixBits last = n := by unfold sixBits; omega
    exact ⟨a, [last], code ▸ .two (by omega) (by omega) (secondFits_iff.mpr (by omega))⟩
  rcases Nat.lt_or_ge n 0x10000 with three | more
  · obtain ⟨a, ha⟩ := exists_octet (n := 0xE0 + n / 0x1000) (by omega)
    have code : a.toNat % 16 * 4096 + sixBits middle * 64 + sixBits last = n := by unfold sixBits; omega
    exact ⟨a, [middle, last], code ▸ .three (by omega) (by omega) (secondFits_iff.mpr (by omega)) ends⟩
  · obtain ⟨a, ha⟩ := exists_octet (n := 0xF0 + n / 0x40000) (by omega)
    obtain ⟨b, hb⟩ := exists_octet (n := 0x80 + n / 0x1000 % 0x40) (by omega)
    have code : a.toNat % 8 * 262144 + sixBits b * 4096 + sixBits middle * 64 + sixBits last = n := by
      unfold sixBits
      omega
    exact ⟨a, [b, middle, last],
      code ▸ .four (by omega) (by omega) (secondFits_iff.mpr (by omega)) goes_on ends⟩

theorem decodeUtf8_skip (e : Encoding) (position : Nat) (u r : List UInt8) :
    decodeUtf8 e position u.length (u ++ r) = decodeUtf8 e (position + u.length) 0 r := by
  induction u generalizing position with
  | nil => rfl
  | cons a u ih =>
    rw [List.length_cons, List.cons_append, decodeUtf8, ih, Nat.add_assoc, Nat.add_comm 1]

/-- The induction is on the number of octets: after a character all that it takes is skipped. -/
theorem spelled_of_decodeUtf8 {e : Encoding} {position : Nat} {octets : List UInt8} {s : Symbols}
    (h : decodeUtf8 e position 0 octets = .ok s) :
    octets = s.flatMap (fun x => octets8 x.code) ∧ ∀ x ∈ s, x.Proper := by
  induction hl : octets.length using Nat.strongRecOn generalizing octets position s with
  | ind length ih =>
    cases octets with
    | nil =>
      cases h
      exact ⟨rfl, List.forall_mem_nil _⟩
    | cons a r =>
      rw [decodeUtf8] at h
      split at h
      · cases h
      · next code size unit =>
        obtain ⟨t, ht, he⟩ := bind_eq_ok.mp h
        cases he
        obtain ⟨u, r', rfl, rfl, char⟩ := Utf8Char.of_unit unit
        obtain ⟨range, spelled⟩ := char.octets
        rw [Nat.add_sub_cancel, decodeUtf8_skip] at ht
        simp only [List.length_cons, List.length_append] at hl
        obtain ⟨rest, proper⟩ := ih r'.length (by omega) ht rfl
        refine ⟨?_, List.forall_mem_cons.mpr ⟨Symbol.proper_ofCode code, proper⟩⟩
        rw [List.flatMap_cons, Symbol.code_ofCode range, spelled, ← rest]
        rfl

theorem decodeUtf8_spelled (e : Encoding) (position : Nat) {s : Symbols} (h : ∀ x ∈ s, x.Proper) :
    decodeUtf8 e position 0 (s.flatMap fun x => octets8 x.code) = .ok s := by
  induction s generalizing position with
  | nil => rfl
  | cons x s ih =>
    obtain ⟨proper, rest⟩ := List.forall_mem_cons.mp h
    obtain ⟨a, u, char⟩ := exists_utf8Char proper.code_lt
    rw [List.flatMap_cons, char.octets.2, List.cons_append, decodeUtf8, char.unit]
    dsimp only
    rw [Nat.add_sub_cancel, decodeUtf8_skip, ih _ rest, proper.ofCode_code]
    rfl

theorem decodeUtf8_iff {e : Encoding} {position : Nat} {octets : List UInt8} {s : Symbols} :
    decodeUtf8 e position 0 octets = .ok s ↔
      octets = s.flatMap (fun x => octets8 x.code) ∧ ∀ x ∈ s, x.Proper :=
  ⟨spelled_of_decodeUtf8, fun ⟨he, proper⟩ => he ▸ decodeUtf8_spelled e position proper⟩

/-- The unit of two octets, in the given order. -/
def unit16 (big : Bool) (a b : UInt8) : Nat :=
  if big then a.toNat * 256 + b.toNat else b.toNat * 256 + a.toNat

theorem unit16_lt (big : Bool) (a b : UInt8) : unit16 big a b < 0x10000 := by
  have ha := a.toNat_lt
  have hb := b.toNat_lt
  cases big <;> simp only [unit16, Bool.false_eq_true, if_false, if_true] <;> omega

theorem octets16_unit16 (big : Bool) (a b : UInt8) : octets16 big (unit16 big a b) = [a, b] := by
  have split : ∀ x y : UInt8, UInt8.ofNat (x.toNat * 256 + y.toNat) = y ∧
      UInt8.ofNat ((x.toNat * 256 + y.toNat) / 0x100) = x := by
    intro x y
    have hy := y.toNat_lt
    refine ⟨UInt8.toNat_inj.mp ?_, ofNat_eq (by omega)⟩
    rw [UInt8.toNat_ofNat']
    omega
  cases big with
  | false => simp [octets16, unit16, split b a]
  | true => simp [octets16, unit16, split a b]

theorem unit16_octets16 (big : Bool) {u : Nat} (h : u < 0x10000) :
    ∃ a b, octets16 big u = [a, b] ∧ unit16 big a b = u := by
  have low := UInt8.toNat_ofNat' (n := u)
  have high := UInt8.toNat_ofNat' (n := u / 0x100)
  cases big with
  | false => exact ⟨_, _, rfl, by simp only [unit16, Bool.false_eq_true, if_false]; omega⟩
  | true => exact ⟨_, _, rfl, by simp only [unit16, if_true]; omega⟩

theorem readUnits16_iff {big : Bool} {e : Encoding} {position : Nat} {octets : List UInt8}
    {us : List Nat} : readUnits16 big e position octets = .ok us ↔
      octets = us.flatMap (octets16 big) ∧ ∀ u ∈ us, u < 0x10000 := by
  constructor
  · intro h
    fun_induction readUnits16 big e position octets generalizing us with
    | case1 =>
      cases h
      exact ⟨rfl, List.forall_mem_nil _⟩
    | case2 => cases h
    | case3 position a b r unit =>
      rename_i ih
      obtain ⟨vs, hvs, he⟩ := bind_eq_ok.mp h
      cases he
      obtain ⟨rfl, rest⟩ := ih hvs
      refine ⟨?_, List.forall_mem_cons.mpr ⟨unit16_lt big a b, rest⟩⟩
      exact congrArg (· ++ vs.flatMap (octets16 big)) (octets16_unit16 big a b).symm
  · rintro ⟨rfl, range⟩
    induction us generalizing position with
    | nil => rfl
    | cons u us ih =>
      obtain ⟨first, rest⟩ := List.forall_mem_cons.mp range
      obtain ⟨a, b, spelled, rfl⟩ := unit16_octets16 big first
      rw [List.flatMap_cons, spelled, List.cons_append, List.singleton_append, readUnits16, ih rest]
      rfl

theorem pairCode_range {h l : Nat} (first : isHighSurrogate h = true) (second : isLowSurrogate l = true) :
    0x10000 ≤ pairCode h l ∧ pairCode h l < 0x110000 := by
  rw [isHighSurrogate_iff] at first
  rw [isLowSurrogate_iff] at second
  unfold pairCode
  omega

theorem units16_pairCode {h l : Nat} (first : isHighSurrogate h = true) (second : isLowSurrogate l = true) :
    units16 (pairCode h l) = [h, l] := by
  have range := (pairCode_range first second).1
  rw [isHighSurrogate_iff] at first
  rw [isLowSurrogate_iff] at second
  have high : 0xD800 + (pairCode h l - 0x10000) / 0x400 = h := by unfold pairCode; omega
  have low : 0xDC00 + (pairCode h l - 0x10000) % 0x400 = l := by unfold pairCode; omega
  rw [units16, if_neg (by omega), high, low]

/-- A code point is one unit, or two that are a pair. -/
theorem units16_cases {n : Nat} (h : n < 0x110000) : (n < 0x10000 ∧ units16 n = [n]) ∨
    ∃ a b, units16 n = [a, b] ∧ isHighSurrogate a = true ∧ isLowSurrogate b = true ∧ pairCode a b = n := by
  unfold units16
  split
  · next small => exact .inl ⟨small, rfl⟩
  · refine .inr ⟨_, _, rfl, isHighSurrogate_iff.mpr (by omega), isLowSurrogate_iff.mpr (by omega), ?_⟩
    unfold pairCode
    omega

theorem units16_lt {n : Nat} (h : n < 0x110000) : ∀ u ∈ units16 n, u < 0x10000 := by
  rcases units16_cases h with ⟨small, hu⟩ | ⟨a, b, hu, first, second, -⟩
  · rw [hu]
    exact List.forall_mem_singleton.mpr small
  · rw [isHighSurrogate_iff] at first
    rw [isLowSurrogate_iff] at second
    rw [hu]
    simp only [List.forall_mem_cons]
    exact ⟨by omega, by omega, List.forall_mem_nil _⟩

theorem not_surrogate_pairCode {h l : Nat} (first : isHighSurrogate h = true)
    (second : isLowSurrogate l = true) : isHighSurrogate (pairCode h l) = false ∧
      isLowSurrogate (pairCode h l) = false := by
  have range := pairCode_range first second
  apply Text.not_surrogate_of_valid
  simp only [Nat.isValidChar]
  omega

/-- The second half of a pair comes first in what is joined only if it comes first among the units. -/
theorem low_of_joinPairs {a : Nat} {r : List Nat} (ha : a < 0x10000) {x : Symbol}
    (h : x ∈ (joinPairs (a :: r)).head?) (low : isLowSurrogate x.code = true) :
    isLowSurrogate a = true := by
  unfold joinPairs at h
  split at h
  · next he => cases he
  · next he =>
    cases he
    cases h
    rwa [Symbol.code_ofCode (by omega)] at low
  · next b r he =>
    cases he
    split at h
    · next pair =>
      obtain ⟨first, second⟩ := Bool.and_eq_true_iff.mp pair
      obtain rfl := Option.mem_some.mp h
      rw [Symbol.code_ofCode (pairCode_range first second).2, (not_surrogate_pairCode first second).2] at low
      cases low
    · cases h
      rwa [Symbol.code_ofCode (by omega)] at low

theorem spelled_joinPairs {us : List Nat} (h : ∀ u ∈ us, u < 0x10000) :
    us = (joinPairs us).flatMap (fun x => units16 x.code) ∧ (∀ x ∈ joinPairs us, x.Proper) ∧
      Unpaired (joinPairs us) := by
  have single : ∀ a, a < 0x10000 → (Symbol.ofCode a).code = a ∧ units16 a = [a] := fun a ha =>
    ⟨Symbol.code_ofCode (by omega), if_pos ha⟩
  fun_induction joinPairs us with
  | case1 => exact ⟨rfl, List.forall_mem_nil _, .nil⟩
  | case2 a =>
    obtain ⟨same, one⟩ := single a (h a List.mem_cons_self)
    refine ⟨?_, List.forall_mem_singleton.mpr (Symbol.proper_ofCode a), .singleton _⟩
    rw [List.flatMap_singleton, same, one]
  | case3 a b r pair ih =>
    obtain ⟨first, second⟩ := Bool.and_eq_true_iff.mp pair
    obtain ⟨-, hr⟩ := List.forall_mem_cons.mp h
    obtain ⟨spelled, proper, unpaired⟩ := ih (List.forall_mem_cons.mp hr).2
    have same := Symbol.code_ofCode (pairCode_range first second).2
    refine ⟨?_, List.forall_mem_cons.mpr ⟨Symbol.proper_ofCode (pairCode a b), proper⟩,
      List.isChain_cons.mpr ⟨fun y _ high => ?_, unpaired⟩⟩
    · rw [List.flatMap_cons, same, units16_pairCode first second, ← spelled]
      rfl
    · rw [same, (not_surrogate_pairCode first second).1] at high
      cases high
  | case4 a b r other ih =>
    obtain ⟨ha, hr⟩ := List.forall_mem_cons.mp h
    obtain ⟨same, one⟩ := single a ha
    obtain ⟨spelled, proper, unpaired⟩ := ih hr
    refine ⟨?_, List.forall_mem_cons.mpr ⟨Symbol.proper_ofCode a, proper⟩,
      List.isChain_cons.mpr ⟨fun y hy high => ?_, unpaired⟩⟩
    · rw [List.flatMap_cons, same, one, ← spelled]
      rfl
    · rw [same] at high
      rw [← Bool.not_eq_true]
      intro low
      exact other (Bool.and_eq_true_iff.mpr
        ⟨high, low_of_joinPairs (List.forall_mem_cons.mp hr).1 hy low⟩)

theorem joinPairs_cons {a : Nat} {us : List Nat}
    (apart : isHighSurrogate a = true → ∀ b ∈ us.head?, isLowSurrogate b = false) :
    joinPairs (a :: us) = .ofCode a :: joinPairs us := by
  cases us with
  | nil => rfl
  | cons b r =>
    rw [joinPairs, if_neg]
    intro pair
    obtain ⟨first, second⟩ := Bool.and_eq_true_iff.mp pair
    exact Bool.false_ne_true ((apart first b rfl).symm.trans second)

/-- A text whose first symbol is no second half of a pair does not begin with one when it is written. -/
theorem head_units16 {s : Symbols} (h : ∀ x ∈ s, x.Proper)
    (first : ∀ x ∈ s.head?, isLowSurrogate x.code = false) :
    ∀ b ∈ (s.flatMap fun x => units16 x.code).head?, isLowSurrogate b = false := by
  intro b hb
  cases s with
  | nil => cases hb
  | cons x s =>
    rw [List.flatMap_cons] at hb
    rcases units16_cases (h x List.mem_cons_self).code_lt with ⟨-, one⟩ | ⟨a, c, two, half, -⟩
    · rw [one] at hb
      cases hb
      exact first x rfl
    · rw [two] at hb
      cases hb
      rw [isHighSurrogate_iff] at half
      rw [← Bool.not_eq_true, isLowSurrogate_iff]
      omega

theorem joinPairs_spelled {s : Symbols} (h : ∀ x ∈ s, x.Proper) (unpaired : Unpaired s) :
    joinPairs (s.flatMap fun x => units16 x.code) = s := by
  induction s with
  | nil => rfl
  | cons x s ih =>
    obtain ⟨proper, rest⟩ := List.forall_mem_cons.mp h
    obtain ⟨apart, unpaired⟩ := List.isChain_cons.mp unpaired
    rw [List.flatMap_cons]
    rcases units16_cases proper.code_lt with ⟨-, one⟩ | ⟨a, b, two, first, second, pair⟩
    · have alone := fun half => head_units16 rest fun y hy => apart y hy half
      rw [one, List.singleton_append, joinPairs_cons alone, ih rest unpaired, proper.ofCode_code]
    · rw [two, List.cons_append, List.singleton_append, joinPairs,
        if_pos (Bool.and_eq_true_iff.mpr ⟨first, second⟩), pair, ih rest unpaired, proper.ofCode_code]

theorem decodeUtf16_iff {big : Bool} {e : Encoding} {position : Nat} {octets : List UInt8} {s : Symbols} :
    (do .ok (joinPairs (← readUnits16 big e position octets)) : Except DecodingError Symbols) = .ok s ↔
      octets = s.flatMap (fun x => (units16 x.code).flatMap (octets16 big)) ∧ (∀ x ∈ s, x.Proper) ∧
        Unpaired s := by
  rw [bind_eq_ok]
  constructor
  · rintro ⟨us, hus, he⟩
    cases he
    obtain ⟨rfl, range⟩ := readUnits16_iff.mp hus
    obtain ⟨spelled, proper, unpaired⟩ := spelled_joinPairs range
    refine ⟨?_, proper, unpaired⟩
    rw [← List.flatMap_assoc, ← spelled]
  · rintro ⟨rfl, proper, unpaired⟩
    refine ⟨s.flatMap fun x => units16 x.code, readUnits16_iff.mpr ⟨?_, ?_⟩, ?_⟩
    · rw [List.flatMap_assoc]
    · intro u hu
      obtain ⟨x, hx, hu⟩ := List.mem_flatMap.mp hu
      exact units16_lt (proper x hx).code_lt u hu
    · rw [joinPairs_spelled proper unpaired]

def code32 (big : Bool) (a b c d : UInt8) : Nat :=
  if big then ((a.toNat * 256 + b.toNat) * 256 + c.toNat) * 256 + d.toNat
  else ((d.toNat * 256 + c.toNat) * 256 + b.toNat) * 256 + a.toNat

theorem octets32_code32 (big : Bool) (a b c d : UInt8) : octets32 big (code32 big a b c d) = [a, b, c, d] := by
  have split : ∀ w x y z : UInt8, ∀ n, n = ((w.toNat * 256 + x.toNat) * 256 + y.toNat) * 256 + z.toNat →
      UInt8.ofNat n = z ∧ UInt8.ofNat (n / 0x100) = y ∧ UInt8.ofNat (n / 0x10000) = x ∧
        UInt8.ofNat (n / 0x1000000) = w := by
    intro w x y z n hn
    have hw := w.toNat_lt
    have hx := x.toNat_lt
    have hy := y.toNat_lt
    have hz := z.toNat_lt
    simp only [← UInt8.toNat_inj, UInt8.toNat_ofNat']
    omega
  cases big with
  | false => simp [octets32, code32, split d c b a _ rfl]
  | true => simp [octets32, code32, split a b c d _ rfl]

theorem code32_octets32 (big : Bool) {n : Nat} (h : n < 0x110000) :
    ∃ a b c d, octets32 big n = [a, b, c, d] ∧ code32 big a b c d = n := by
  have octet := fun m => UInt8.toNat_ofNat' (n := m)
  cases big with
  | false =>
    refine ⟨_, _, _, _, rfl, ?_⟩
    simp only [code32, Bool.false_eq_true, if_false, octet]
    omega
  | true =>
    refine ⟨_, _, _, _, rfl, ?_⟩
    simp only [code32, if_true, octet]
    omega

theorem decodeUtf32_step {big : Bool} {a b c d : UInt8} (range : code32 big a b c d < 0x110000)
    (e : Encoding) (position : Nat) (r : List UInt8) :
    decodeUtf32 big e position (a :: b :: c :: d :: r) = (do
      .ok (.ofCode (code32 big a b c d) :: (← decodeUtf32 big e (position + 4) r))) := by
  rw [decodeUtf32]
  exact if_neg (Nat.not_le.mpr range)

theorem decodeUtf32_iff {big : Bool} {e : Encoding} {position : Nat} {octets : List UInt8} {s : Symbols} :
    decodeUtf32 big e position octets = .ok s ↔
      octets = s.flatMap (fun x => octets32 big x.code) ∧ ∀ x ∈ s, x.Proper := by
  constructor
  · intro h
    fun_induction decodeUtf32 big e position octets generalizing s with
    | case1 =>
      cases h
      exact ⟨rfl, List.forall_mem_nil _⟩
    | case2 => cases h
    | case3 position a b c d r code range =>
      rename_i ih
      obtain ⟨t, ht, he⟩ := bind_eq_ok.mp h
      cases he
      obtain ⟨rfl, rest⟩ := ih ht
      refine ⟨?_, List.forall_mem_cons.mpr ⟨Symbol.proper_ofCode _, rest⟩⟩
      rw [List.flatMap_cons, Symbol.code_ofCode (Nat.not_le.mp range)]
      exact congrArg (· ++ t.flatMap fun x => octets32 big x.code) (octets32_code32 big a b c d).symm
    | case4 => cases h
  · rintro ⟨rfl, proper⟩
    induction s generalizing position with
    | nil => rfl
    | cons x s ih =>
      obtain ⟨first, rest⟩ := List.forall_mem_cons.mp proper
      obtain ⟨a, b, c, d, spelled, code⟩ := code32_octets32 big first.code_lt
      rw [List.flatMap_cons, spelled]
      simp only [List.cons_append, List.nil_append]
      rw [decodeUtf32_step (code ▸ first.code_lt), ih rest, code, first.ofCode_code]
      rfl

theorem mark_unmarked (octets : List UInt8) : (Encoding.unmarked octets).mark = [] := by
  unfold Encoding.unmarked
  repeat' split
  all_goals rfl

/-- The octets begin with the mark of the encoding that they announce. -/
theorem mark_drop (octets : List UInt8) :
    octets = (Encoding.detect octets).mark ++ octets.drop (Encoding.detect octets).mark.length := by
  unfold Encoding.detect
  cases h : Encoding.marked.find? fun e => e.mark.isPrefixOf octets with
  | some e =>
    have announced := List.find?_some (p := fun e : Encoding => e.mark.isPrefixOf octets) h
    obtain ⟨t, rfl⟩ := List.isPrefixOf_iff_prefix.mp announced
    rw [Option.getD_some, List.drop_left]
  | none => rw [Option.getD_none, mark_unmarked, List.length_nil, List.drop_zero, List.nil_append]

theorem eq_mark_append_iff {octets body : List UInt8} :
    octets = (Encoding.detect octets).mark ++ body ↔
      octets.drop (Encoding.detect octets).mark.length = body := by
  refine ⟨fun h => ?_, fun h => h ▸ mark_drop octets⟩
  exact List.append_cancel_left ((mark_drop octets).symm.trans h)

/-- Octets are read as a text exactly if they spell it. -/
theorem decodeText_iff {octets : List UInt8} {s : Symbols} :
    decodeText octets = .ok s ↔ Spells octets s := by
  unfold decodeText Spells Encoding.write
  dsimp only
  rw [eq_mark_append_iff]
  cases Encoding.detect octets with
  | utf8 => simpa [Encoding.octets, Encoding.mark, Encoding.joins] using decodeUtf8_iff
  | utf8Marked =>
    have three : Encoding.utf8Marked.mark.length = 3 := rfl
    rw [three]
    simpa [Encoding.octets, Encoding.joins] using decodeUtf8_iff
  | utf16 big marked =>
    have same : (Encoding.utf16 big marked).mark.length = if marked then 2 else 0 := by
      cases marked <;> cases big <;> rfl
    rw [same]
    simpa [Encoding.octets, Encoding.joins] using decodeUtf16_iff
  | utf32 big marked =>
    have same : (Encoding.utf32 big marked).mark.length = if marked then 4 else 0 := by
      cases marked <;> cases big <;> rfl
    rw [same]
    simpa [Encoding.octets, Encoding.joins] using decodeUtf32_iff

theorem Encoding.octets_ne_nil (e : Encoding) (n : Nat) : e.octets n ≠ [] := by
  cases e with
  | utf8 | utf8Marked =>
    simp only [octets, octets8]
    repeat' split
    all_goals exact List.cons_ne_nil _ _
  | utf16 big marked =>
    simp only [octets, units16]
    split <;> cases big <;> exact List.cons_ne_nil _ _
  | utf32 big marked => cases big <;> exact List.cons_ne_nil _ _

theorem length_le_flatMap {f : Symbol → List UInt8} (h : ∀ x, f x ≠ []) (s : Symbols) :
    s.length ≤ (s.flatMap f).length := by
  induction s with
  | nil => exact Nat.le_refl _
  | cons x s ih =>
    have first := List.length_pos_iff.mpr (h x)
    rw [List.flatMap_cons, List.length_append, List.length_cons]
    omega

/-- A text has no more symbols than the octets that spell it. -/
theorem Spells.length_le {octets : List UInt8} {s : Symbols} (h : Spells octets s) :
    s.length ≤ octets.length := by
  obtain ⟨spelled, -, -⟩ := h
  rw [spelled, Encoding.write, List.length_append]
  exact Nat.le_add_left_of_le (length_le_flatMap (fun x => Encoding.octets_ne_nil _ x.code) s)

/-- Characters that take one octet in UTF-8, and are not zero. -/
def IsAscii (x : Symbol) : Prop := 0 < x.code ∧ x.code < 0x80

theorem IsAscii.octet {x : Symbol} (h : IsAscii x) : ∃ a : UInt8, .ofNat x.code = a ∧ a ≠ 0 ∧
    a ≠ 0xEF ∧ a ≠ 0xFE ∧ a ≠ 0xFF ∧ octets8 x.code = [a] ∧
    (∀ big, octets16 big x.code = if big then [0, a] else [a, 0]) ∧
    ∀ big, octets32 big x.code = if big then [0, 0, 0, a] else [a, 0, 0, 0] := by
  obtain ⟨some_bit, small⟩ := h
  have octet : (UInt8.ofNat x.code).toNat = x.code := by
    rw [UInt8.toNat_ofNat', Nat.mod_eq_of_lt (by omega)]
  have zero : x.code / 0x100 = 0 ∧ x.code / 0x10000 = 0 ∧ x.code / 0x1000000 = 0 := by omega
  refine ⟨_, rfl, ?_, ?_, ?_, ?_, if_pos small, fun big => ?_, fun big => ?_⟩
  · rw [Ne, ← UInt8.toNat_inj, octet]
    exact Nat.ne_of_gt some_bit
  · rw [Ne, ← UInt8.toNat_inj, octet]
    exact fun h => absurd (h ▸ small) (by decide)
  · rw [Ne, ← UInt8.toNat_inj, octet]
    exact fun h => absurd (h ▸ small) (by decide)
  · rw [Ne, ← UInt8.toNat_inj, octet]
    exact fun h => absurd (h ▸ small) (by decide)
  · cases big <;> simp [octets16, zero]
  · cases big <;> simp [octets32, zero]

/-- The marks one after the other. -/
theorem Encoding.detect_eq (octets : List UInt8) : detect octets =
    if [0x00, 0x00, 0xfe, 0xff].isPrefixOf octets then utf32 true true
    else if [0xff, 0xfe, 0x00, 0x00].isPrefixOf octets then utf32 false true
    else if [0xfe, 0xff].isPrefixOf octets then utf16 true true
    else if [0xff, 0xfe].isPrefixOf octets then utf16 false true
    else if [0xef, 0xbb, 0xbf].isPrefixOf octets then utf8Marked
    else unmarked octets := by
  have find : ∀ (e : Encoding) (es : List Encoding) (other : Encoding),
      ((e :: es).find? fun e => e.mark.isPrefixOf octets).getD other =
        if e.mark.isPrefixOf octets then e else (es.find? fun e => e.mark.isPrefixOf octets).getD other := by
    intro e es other
    rw [List.find?_cons]
    split <;> simp_all
  unfold detect marked
  rw [find, find, find, find, find]
  rfl

/-- The encoding of a text that begins with two characters of ASCII is recognised. -/
theorem detect_write {x y : Symbol} {s : Symbols} (hx : IsAscii x) (hy : IsAscii y) (e : Encoding) :
    Encoding.detect (e.write (x :: y :: s)) = e := by
  obtain ⟨a, -, a0, aEF, aFE, aFF, x8, x16, x32⟩ := hx.octet
  obtain ⟨b, -, b0, -, -, -, y8, y16, y32⟩ := hy.octet
  have single : ∀ n, n < 0x80 → Text.units16 n = [n] := fun n h => if_pos (by omega)
  rw [Encoding.detect_eq]
  cases e with
  | utf8 =>
    simp only [Encoding.write, Encoding.mark, Encoding.octets, List.flatMap_cons, x8, y8,
      List.nil_append, List.singleton_append]
    generalize List.flatMap _ s = r
    rcases r with _ | ⟨c, _ | ⟨d, t⟩⟩ <;>
      simp [Encoding.unmarked, a0.symm, aEF.symm, aFE.symm, aFF.symm, a0, b0]
  | utf8Marked => rfl
  | utf16 big marked =>
    cases big <;> cases marked <;>
      simp [Encoding.write, Encoding.octets, single _ hx.2, single _ hy.2, x16, y16,
        Encoding.mark, Encoding.unmarked, a0, b0, a0.symm, aEF.symm, aFE.symm, aFF.symm]
  | utf32 big marked =>
    cases big <;> cases marked <;>
      simp [Encoding.write, Encoding.octets, x32, y32, Encoding.mark, Encoding.unmarked, a0, a0.symm,
        aEF.symm, aFE.symm, aFF.symm]

/-- What is written in an encoding that is recognised spells the text. -/
theorem spells_write {s : Symbols} {e : Encoding} (announced : Encoding.detect (e.write s) = e)
    (proper : ∀ x ∈ s, x.Proper) (apart : e.joins = true → Unpaired s) : Spells (e.write s) s := by
  unfold Spells
  rw [announced]
  exact ⟨rfl, proper, apart⟩

end Json
end BatteryLink
