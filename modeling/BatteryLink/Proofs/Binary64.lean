import BatteryLink.Number.Binary64
import Mathlib.Tactic.GCongr
import Mathlib.Tactic.Ring
import Mathlib.Tactic.SplitIfs
/-!
The order of doubles, and where they come to an end.
-/
namespace BatteryLink

namespace Binary64

theorem ratio_pos (m : Nat) (e : Int) : 0 < (ratio m e).2 := by
  unfold ratio
  split
  · exact Nat.pow_pos (by decide)
  · exact Nat.one_pos

theorem lt_irrefl (x : Binary64) : x.lt x = false := by
  cases x with
  | finite s m e => simp [lt]
  | infinite s => cases s <;> rfl
  | nan => rfl

/-- Fractions with positive denominators are in order. -/
theorem fraction_trans {a b c : Int} {p q r : Nat} (hp : 0 < p) (hr : 0 < r)
    (hab : a * q < b * p) (hbc : b * r < c * q) : a * r < c * p := by
  have scaled : a * r * q < c * p * q := by
    calc a * r * q = a * q * r := by ring
      _ < b * p * r := Int.mul_lt_mul_of_pos_right hab (Int.natCast_pos.mpr hr)
      _ = b * r * p := by ring
      _ < c * q * p := Int.mul_lt_mul_of_pos_right hbc (Int.natCast_pos.mpr hp)
      _ = c * p * q := by ring
  exact Int.lt_of_mul_lt_mul_right scaled (Int.natCast_nonneg q)

theorem lt_trans {x y z : Binary64} (hxy : x.lt y = true) (hyz : y.lt z = true) : x.lt z = true := by
  cases x with
  | nan => cases y <;> cases hxy
  | infinite s =>
    cases y with
    | nan => cases hxy
    | infinite t => cases s <;> cases t <;> cases z <;> simp_all [lt]
    | finite t k f => cases s <;> cases z <;> simp_all [lt]
  | finite s m e =>
    cases y with
    | nan => cases hxy
    | infinite t => cases t <;> cases z <;> simp_all [lt]
    | finite t k f =>
      cases z with
      | nan => cases hyz
      | infinite u => exact hyz
      | finite u l g =>
        have hxy := of_decide_eq_true hxy
        have hyz := of_decide_eq_true hyz
        exact decide_eq_true (fraction_trans (ratio_pos m e) (ratio_pos l g) hxy hyz)

theorem lt_asymm {x y : Binary64} (h : x.lt y = true) : y.lt x = false := by
  by_contra back
  have := lt_trans h (Bool.eq_true_of_not_eq_false back)
  rw [lt_irrefl] at this
  cases this

theorem lt_nan (x : Binary64) : x.lt nan = false := by cases x <;> rfl

theorem le_nan (x : Binary64) : x.le nan = false := by cases x <;> rfl

theorem nan_le (x : Binary64) : nan.le x = false := by cases x <;> rfl

theorem add_nan (x : Binary64) : nan.add x = nan := by cases x <;> rfl

/-- Two numbers can be compared. -/
theorem lt_or_le {x y : Binary64} (hx : x ≠ nan) (hy : y ≠ nan) : x.lt y = true ∨ y.le x = true := by
  cases x with
  | nan => exact absurd rfl hx
  | infinite s =>
    cases y with
    | nan => exact absurd rfl hy
    | infinite t => cases s <;> cases t <;> simp [lt, le, sameNumber]
    | finite t k f => cases s <;> simp [lt, le]
  | finite s m e =>
    cases y with
    | nan => exact absurd rfl hy
    | infinite t => cases t <;> simp [lt, le]
    | finite t k f =>
      simp only [lt, le, sameNumber, Bool.or_eq_true, decide_eq_true_eq, beq_iff_eq]
      omega

theorem le_self {x : Binary64} (hx : x ≠ nan) : x.le x = true :=
  (lt_or_le hx hx).resolve_left (by rw [lt_irrefl]; exact Bool.false_ne_true)

theorem exponentFor_le (num : Nat) : exponentFor num 1 ≤ max (num.log2 : Int) (-1074) := by
  have unit : Nat.log2 1 = 0 := by decide
  unfold exponentFor
  rw [unit]
  dsimp only
  refine max_le_max ?_ le_rfl
  split
  · omega
  · split <;> omega

theorem roundDiv_pos {num den : Nat} (hd : 0 < den) (h : den ≤ num) : 0 < roundDiv num den := by
  have whole : 0 < num / den := Nat.div_pos h hd
  unfold roundDiv
  dsimp only
  split
  · exact whole
  · split
    · exact Nat.succ_pos _
    · split
      · exact whole
      · exact Nat.succ_pos _

theorem rescale_le {num : Nat} (h : 0 < num) : 0 < (rescale num 1 (exponentFor num 1)).2 ∧
    (rescale num 1 (exponentFor num 1)).2 ≤ (rescale num 1 (exponentFor num 1)).1 := by
  have small := exponentFor_le num
  generalize exponentFor num 1 = e at small
  unfold rescale
  split
  · exact ⟨Nat.one_pos, Nat.mul_pos h (Nat.pow_pos (by decide))⟩
  · refine ⟨Nat.mul_pos Nat.one_pos (Nat.pow_pos (by decide)), ?_⟩
    have digits : e.toNat ≤ num.log2 := by omega
    calc 1 * 2 ^ e.toNat = 2 ^ e.toNat := Nat.one_mul _
      _ ≤ 2 ^ num.log2 := Nat.pow_le_pow_right (by decide) digits
      _ ≤ num := Nat.log2_self_le (Nat.pos_iff_ne_zero.mp h)

/-- A positive whole number does not become nothing. -/
theorem leInt_ofInt? {n : Int} (h : 0 < n) {d : Binary64} (hd : ofInt? n = some d) : d.leInt 0 = false := by
  have sign : decide (n < 0) = false := decide_eq_false (by omega)
  have size : 0 < n.natAbs := Int.natAbs_pos.mpr (by omega)
  obtain ⟨positive, below⟩ := rescale_le size
  have rounded := roundDiv_pos positive below
  unfold ofInt? ofRatio at hd
  rw [if_neg (Nat.pos_iff_ne_zero.mp size), sign] at hd
  dsimp only at hd
  generalize roundDiv _ _ = m at hd rounded
  have some_finite : ∃ m e, 0 < m ∧ d = finite false m e := by
    split at hd
    · next s m' e' hm =>
      cases hd
      split at hm
      · split at hm
        · cases hm
        · cases hm
          exact ⟨_, _, Nat.pow_pos (by decide), rfl⟩
      · split at hm
        · cases hm
        · cases hm
          exact ⟨_, _, rounded, rfl⟩
    · cases hd
  obtain ⟨m, e, positive, rfl⟩ := some_finite
  have counts : 0 < (ratio m e).1 := by
    unfold ratio
    split
    · exact positive
    · exact Nat.mul_pos positive (Nat.pow_pos (by decide))
  unfold leInt signed
  dsimp only
  rw [decide_eq_false]
  rw [if_neg Bool.false_ne_true, Int.zero_mul]
  omega

/-- A quotient lies between powers of two that are known from the lengths of its parts. -/
theorem quotient_between {num den k : Nat} (hn : 0 < num) (hd : 0 < den)
    (h : num.log2 = den.log2 + 52 + k) :
    2 ^ 51 * (den * 2 ^ k) ≤ num ∧ num < 2 ^ 53 * (den * 2 ^ k) := by
  have num_low := Nat.log2_self_le (Nat.pos_iff_ne_zero.mp hn)
  have num_high := Nat.lt_log2_self (n := num)
  have den_low := Nat.log2_self_le (Nat.pos_iff_ne_zero.mp hd)
  have den_high := Nat.lt_log2_self (n := den)
  rw [h] at num_low num_high
  constructor
  · calc 2 ^ 51 * (den * 2 ^ k) ≤ 2 ^ 51 * (2 ^ (den.log2 + 1) * 2 ^ k) := by gcongr
      _ = 2 ^ (den.log2 + 52 + k) := by ring
      _ ≤ num := num_low
  · calc num < 2 ^ (den.log2 + 52 + k + 1) := num_high
      _ = 2 ^ 53 * (2 ^ den.log2 * 2 ^ k) := by ring
      _ ≤ 2 ^ 53 * (den * 2 ^ k) := by gcongr

theorem rescale_natCast (num den k : Nat) : rescale num den k = (num, den * 2 ^ k) := by
  unfold rescale
  rw [if_neg (by omega), Int.toNat_natCast]

/-- An exponent that is not negative leaves a quotient of 53 binary digits. -/
theorem exponentFor_scales {num den e : Nat} (hn : 0 < num) (hd : 0 < den)
    (h : exponentFor num den = e) : 2 ^ 52 * (den * 2 ^ e) ≤ num ∧ num < 2 ^ 53 * (den * 2 ^ e) := by
  unfold exponentFor at h
  dsimp only at h
  by_cases long : den.log2 + 52 ≤ num.log2
  · obtain ⟨k, hk⟩ := Nat.exists_eq_add_of_le long
    have guess : (num.log2 : Int) - den.log2 - 52 = k := by omega
    obtain ⟨low, high⟩ := quotient_between hn hd hk
    have pos : 0 < den * 2 ^ k := Nat.mul_pos hd (Nat.two_pow_pos k)
    rw [guess, rescale_natCast] at h
    dsimp only at h
    simp only [Nat.div_lt_iff_lt_mul pos, Nat.le_div_iff_mul_le pos] at h
    split_ifs at h with short raised
    · -- the guess was too high by one
      obtain rfl : k = e + 1 := by omega
      have doubled : den * 2 ^ (e + 1) = 2 * (den * 2 ^ e) := by ring
      rw [doubled] at low short
      omega
    · omega
    · obtain rfl : k = e := by omega
      omega
  · -- only a guess that is raised from -1 comes to be 0, and it would not be raised
    have num_high := Nat.lt_log2_self (n := num)
    have den_low := Nat.log2_self_le (Nat.pos_iff_ne_zero.mp hd)
    split_ifs at h with short raised
    · omega
    · have guess : (num.log2 : Int) - den.log2 - 52 = -1 := by omega
      rw [guess] at raised
      have last : num.log2 + 1 = den.log2 + 52 := by omega
      rw [last, Nat.pow_add] at num_high
      have doubled : 2 ^ 53 * den ≤ num * 2 := (Nat.le_div_iff_mul_le hd).mp raised
      omega
    · omega

/-- A quotient that rounds to the end of its binade is less than half a unit below it. -/
theorem roundDiv_eq_iff {num den top : Nat} (hd : 0 < den) (even : top % 2 = 0)
    (h : num < top * den) : roundDiv num den = top ↔ (2 * top - 1) * den ≤ 2 * num := by
  have divided := Nat.div_add_mod num den
  have rest := Nat.mod_lt num hd
  have below : num / den < top := (Nat.div_lt_iff_lt_mul hd).mpr h
  unfold roundDiv
  dsimp only
  generalize num / den = q at *
  generalize num % den = r at *
  subst divided
  by_cases last : q + 1 = top
  · subst last
    have half : (2 * (q + 1) - 1) * den ≤ 2 * (den * q + r) ↔ den ≤ 2 * r := by
      have sum : (2 * (q + 1) - 1) * den = 2 * (den * q) + den := by
        rw [show 2 * (q + 1) - 1 = 2 * q + 1 by omega]
        ring
      omega
    rw [half]
    split_ifs <;> omega
  · have far : 2 * (den * q + r) < (2 * top - 1) * den := by
      have sum : (2 * q + 3) * den = 2 * (den * q) + 3 * den := by ring
      calc 2 * (den * q + r) < (2 * q + 3) * den := by omega
        _ ≤ (2 * top - 1) * den := Nat.mul_le_mul_right den (by omega)
    refine iff_of_false ?_ (Nat.not_le.mpr far)
    split_ifs <;> omega

/-- A quotient of more than 53 binary digits loses some. -/
theorem exponentFor_nonneg {num den : Nat} (hd : 0 < den) (h : 2 ^ 53 * den ≤ num) :
    0 ≤ exponentFor num den := by
  have den_low := Nat.log2_self_le (Nat.pos_iff_ne_zero.mp hd)
  have num_high := Nat.lt_log2_self (n := num)
  have long : den.log2 + 53 < num.log2 + 1 := by
    rw [← Nat.pow_lt_pow_iff_right Nat.one_lt_two]
    calc 2 ^ (den.log2 + 53) = 2 ^ 53 * 2 ^ den.log2 := by ring
      _ ≤ 2 ^ 53 * den := Nat.mul_le_mul_left _ den_low
      _ ≤ num := h
      _ < 2 ^ (num.log2 + 1) := num_high
  unfold exponentFor
  dsimp only
  split_ifs <;> omega

/-- A scale lies below a power of two, or is twice it, or at least four times it. -/
theorem scale_cases (den e k : Nat) : e ≤ k ∧ den * 2 ^ e ≤ 2 ^ k * den ∨
    e = k + 1 ∧ den * 2 ^ e = 2 * (2 ^ k * den) ∨ k + 2 ≤ e ∧ 4 * (2 ^ k * den) ≤ den * 2 ^ e := by
  rcases Nat.lt_trichotomy e (k + 1) with below | rfl | above
  · refine .inl ⟨Nat.le_of_lt_succ below, ?_⟩
    rw [Nat.mul_comm]
    exact Nat.mul_le_mul_right den (Nat.pow_le_pow_right Nat.two_pos (Nat.le_of_lt_succ below))
  · exact .inr (.inl ⟨rfl, by ring⟩)
  · refine .inr (.inr ⟨above, ?_⟩)
    calc 4 * (2 ^ k * den) = den * 2 ^ (k + 2) := by ring
      _ ≤ den * 2 ^ e := Nat.mul_le_mul_left den (Nat.pow_le_pow_right Nat.two_pos above)

/-- What is too large for a double: half a unit below `2 ^ 1024` is rounded up to it. -/
theorem ofRatio_infinite_iff (negative : Bool) {num den : Nat} (hd : 0 < den) :
    ofRatio negative num den = infinite negative ↔ (2 ^ 54 - 1) * (2 ^ 970 * den) ≤ num := by
  have base (k : Nat) : den ≤ 2 ^ k * den := Nat.le_mul_of_pos_left den (Nat.two_pow_pos k)
  have base := base 970
  have scales := (scale_cases den · 970)
  generalize 2 ^ 970 * den = unit at base scales ⊢
  rcases Nat.eq_zero_or_pos num with rfl | hn
  · exact iff_of_false (by simp [ofRatio]) (by omega)
  unfold ofRatio
  rw [if_neg (Nat.pos_iff_ne_zero.mp hn)]
  dsimp only
  by_cases negligible : exponentFor num den < 0
  · refine iff_of_false ?_ fun large => ?_
    · split_ifs <;> first | omega | simp
    · exact absurd (exponentFor_nonneg hd (by omega)) (Int.not_le.mpr negligible)
  · obtain ⟨e, he⟩ := Int.eq_ofNat_of_zero_le (Int.not_lt.mp negligible)
    obtain ⟨low, high⟩ := exponentFor_scales hn hd he
    have top := roundDiv_eq_iff (Nat.mul_pos hd (Nat.two_pow_pos e)) (by decide) high
    rw [he, rescale_natCast]
    dsimp only
    have scale_e := scales e
    generalize den * 2 ^ e = scale at low high top scale_e ⊢
    rcases scale_e with ⟨small, below⟩ | ⟨last, twice⟩ | ⟨large, above⟩
    · refine iff_of_false ?_ (by omega)
      split_ifs <;> first | omega | simp
    · -- in the last binade, what is not rounded up to its end is finite
      have rounded : (2 ^ 54 - 1) * unit ≤ num ↔ roundDiv num scale = 2 ^ 53 := by omega
      rw [rounded]
      by_cases whole : roundDiv num scale = 2 ^ 53
      · rw [if_pos whole, if_pos (by omega)]
        exact iff_of_true rfl whole
      · rw [if_neg whole, if_neg (by omega)]
        exact iff_of_false nofun whole
    · refine iff_of_true ?_ (by omega)
      split_ifs <;> first | omega | rfl

/-- A quotient keeps its sign, and is a number or too large for one. -/
theorem ofRatio_cases (negative : Bool) (num den : Nat) :
    (∃ m e, ofRatio negative num den = finite negative m e) ∨
      ofRatio negative num den = infinite negative := by
  unfold ofRatio
  dsimp only
  split_ifs
  · exact .inl ⟨0, -1074, rfl⟩
  · exact .inr rfl
  · exact .inl ⟨_, _, rfl⟩
  · exact .inr rfl
  · exact .inl ⟨_, _, rfl⟩

end Binary64

end BatteryLink
