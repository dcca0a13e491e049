import BatteryLink.Proofs.Channel
import BatteryLink.TimeOfDay
/-!
Times of day once they are padded. Padding keeps the hour and the minute, so what it gives is a time
again.
-/
namespace BatteryLink

namespace Text

variable {sep : Char} {s : List Char}

theorem splitOn_eq (sep : Char) (s : List Char) : splitOn sep s = s.splitOn sep := by
  induction s with
  | nil => rfl
  | cons c s ih =>
    rw [List.splitOn_cons_eq_if_modifyHead, splitOn, ih]
    by_cases hc : c = sep
    · simp [hc]
    · cases hs : s.splitOn sep with
      | nil => exact absurd hs (List.splitOn_ne_nil _ _)
      | cons p ps => simp [hc]

theorem not_mem_of_splitOn {p : List Char} (h : p ∈ splitOn sep s) : sep ∉ p := by
  induction s generalizing p with
  | nil =>
    cases List.mem_singleton.mp h
    exact List.not_mem_nil
  | cons c s ih =>
    rw [splitOn_eq, List.splitOn_cons_eq_if_modifyHead, ← splitOn_eq] at h
    split at h
    · rcases List.mem_cons.mp h with rfl | h
      · exact List.not_mem_nil
      · exact ih h
    · next other =>
      have hc : c ≠ sep := by simpa using other
      cases hs : splitOn sep s with
      | nil =>
        rw [hs] at h
        cases h
      | cons q qs =>
        rw [hs] at h
        rcases List.mem_cons.mp h with rfl | h
        · have whole := ih (hs ▸ List.mem_cons_self)
          simp [whole, Ne.symm hc]
        · exact ih (hs ▸ List.mem_cons_of_mem q h)

end Text

namespace TimeOfDay

open Text (decimalValue? decimalValue?_lt)

variable {s t : List Char} {n : Nat}

theorem hour?_lt (h : hour? s = some n) : n < 24 := by
  unfold hour? at h
  split at h
  · have := (decimalValue?_lt h).1
    omega
  · split at h
    · have := (decimalValue?_lt h).1
      omega
    · split at h
      · obtain ⟨d, hd, rfl⟩ := Option.map_eq_some_iff.mp h
        have := (decimalValue?_lt hd).1
        omega
      · split at h
        · next b _ _ hb =>
          -- the digit after a two is at most a three
          obtain ⟨d, hd, rfl⟩ := Option.map_eq_some_iff.mp h
          have low : 48 ≤ b.toNat := hb.2.1
          have high : b.toNat ≤ 51 := hb.2.2
          have ascii : Text.isAsciiDigit b = true := by
            simp only [Text.isAsciiDigit, Bool.and_eq_true, decide_eq_true_eq]
            exact ⟨hb.2.1, Nat.le_trans high (by decide)⟩
          cases hd.symm.trans (Text.decimalValue?_ascii ascii)
          omega
        · cases h
  · cases h

theorem hour?_twoDigits (h : n < 24) : hour? (twoDigits n) = some n ∧ ':' ∉ twoDigits n := by
  have : ∀ n : Fin 24, hour? (twoDigits n) = some n.val ∧ ':' ∉ twoDigits n := by decide
  exact this ⟨n, h⟩

/-- Padding keeps the hour and the minute. -/
theorem parts?_of_padded? (h : padded? s = some t) :
    ∃ time, parts? s = some time ∧ parts? t = some time := by
  unfold padded? at h
  split at h
  · next hours minutes hs =>
    obtain ⟨hour, hh, h⟩ := Option.bind_eq_some_iff.mp h
    obtain ⟨minute, hm, h⟩ := Option.bind_eq_some_iff.mp h
    cases h
    obtain ⟨same, apart⟩ := hour?_twoDigits (hour?_lt hh)
    have whole : ':' ∉ minutes := by
      apply Text.not_mem_of_splitOn (s := s)
      rw [hs]
      exact List.mem_cons_of_mem _ List.mem_cons_self
    refine ⟨(hour, minute), ?_, ?_⟩
    · simp [parts?, hs, hh, hm]
    · simp [parts?, Text.splitOn_eq, List.splitOn_append_cons_self_of_not_mem apart,
        List.splitOn_eq_singleton whole, same, hm]
  · cases h

/-- A time that was padded is a time. -/
theorem accepts_of_normalize {v : Value} {field t : String} (h : normalize v field = .ok t) :
    accepts t.toList = true := by
  unfold normalize at h
  split at h
  · cases h
  · split at h
    · next padded hp =>
      cases h
      obtain ⟨time, -, ht⟩ := parts?_of_padded? hp
      simp [accepts, ht]
    · cases h

end TimeOfDay
end BatteryLink
