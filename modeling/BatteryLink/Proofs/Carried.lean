import BatteryLink.Proofs.Stopping
import BatteryLink.Reply
import Mathlib.Data.List.TakeWhile
/-!
What a JSON text can carry. Whatever the text, the whole numbers in it are short enough to be
written out again.
-/
namespace BatteryLink

theorem Binary64.natAbs_signed (negative : Bool) (n : Nat) : (signed negative n).natAbs = n := by
  cases negative <;> simp [signed]

namespace Reading

open Text

theorem foldl_digits_lt {s : List Char} (h : ∀ c ∈ s, isAsciiDigit c = true) (n : Nat) :
    s.foldl (fun n c => 10 * n + (c.toNat - 48)) n < (n + 1) * 10 ^ s.length := by
  induction s generalizing n with
  | nil => simp
  | cons c s ih =>
    obtain ⟨digit, rest⟩ := List.forall_mem_cons.mp h
    have small : c.toNat ≤ 57 := by
      simp only [isAsciiDigit, Bool.and_eq_true, decide_eq_true_eq] at digit
      exact digit.2
    calc s.foldl (fun n c => 10 * n + (c.toNat - 48)) (10 * n + (c.toNat - 48))
      _ < (10 * n + (c.toNat - 48) + 1) * 10 ^ s.length := ih rest _
      _ ≤ ((n + 1) * 10) * 10 ^ s.length := Nat.mul_le_mul_right _ (by omega)
      _ = (n + 1) * 10 ^ (c :: s).length := by
        rw [List.length_cons, Nat.pow_succ, Nat.mul_comm (10 ^ s.length), Nat.mul_assoc]

theorem digitsValue_lt {s : List Char} (h : ∀ c ∈ s, isAsciiDigit c = true) :
    digitsValue s < 10 ^ s.length := by
  simpa [digitsValue] using foldl_digits_lt h 0

theorem digits_of_dropUnderscores? {b : Bool} {s t : List Char} (h : dropUnderscores? b s = some t)
    (hs : ∀ c ∈ s, isAsciiDigit c = true ∨ c = '_') : ∀ c ∈ t, isAsciiDigit c = true := by
  fun_induction dropUnderscores? b s generalizing t with
  | case1 =>
    cases h
    exact List.forall_mem_nil _
  | case2 b c r hc ih =>
    obtain ⟨u, hu, rfl⟩ := Option.map_eq_some_iff.mp h
    obtain ⟨-, hr⟩ := List.forall_mem_cons.mp hs
    exact List.forall_mem_cons.mpr
      ⟨(Bool.and_eq_true_iff.mp hc).2, ih hu (List.forall_mem_cons.mp hr).2⟩
  | case3 => cases h
  | case4 => cases h
  | case5 b c r _ _ ih =>
    obtain ⟨u, hu, rfl⟩ := Option.map_eq_some_iff.mp h
    obtain ⟨hc, hr⟩ := List.forall_mem_cons.mp hs
    refine List.forall_mem_cons.mpr ⟨hc.resolve_right ?_, ih hu hr⟩
    rintro rfl
    cases r <;> simp_all

/-- A whole number that is read has no more digits than one that is written. -/
theorem natAbs_int_lt {s : List Char} {i : Int} (h : int s = .ok i) :
    i.natAbs < 10 ^ maxIntDigits := by
  unfold int at h
  dsimp only at h
  split at h
  · cases h
  · next digits hd =>
    split at h
    · cases h
    · split at h
      · cases h
      · next short =>
        split at h
        · cases h
        · cases h
          -- once the underscores are dropped, what is left of the run of digits is digits only
          have run : ∀ c ∈ ((splitSign (prepare s)).2.takeWhile fun c => isAsciiDigit c || c = '_'),
              isAsciiDigit c = true ∨ c = '_' := by
            intro c hc
            simpa using List.mem_takeWhile_imp hc
          have bound := digitsValue_lt (digits_of_dropUnderscores? hd run)
          have le : (10 : Nat) ^ digits.length ≤ 10 ^ maxIntDigits :=
            Nat.pow_le_pow_right (by decide) (Nat.not_lt.mp short)
          rw [Binary64.natAbs_signed]
          exact Nat.lt_of_lt_of_le bound le

end Reading

/-- An entry after one was added or replaced: it was there before, or has the new value. -/
theorem Value.mem_insert {key v : Value} {entries : List (Value × Value)} {e : Value × Value}
    (h : e ∈ insert key v entries) : e ∈ entries ∨ e.2 = v ∧ (e.1 = key ∨ ∃ w, (e.1, w) ∈ entries) := by
  induction entries with
  | nil =>
    cases List.mem_singleton.mp h
    exact .inr ⟨rfl, .inl rfl⟩
  | cons first entries ih =>
    unfold Value.insert at h
    split at h
    · rcases List.mem_cons.mp h with rfl | h
      · exact .inr ⟨rfl, .inr ⟨first.2, List.mem_cons_self⟩⟩
      · exact .inl (List.mem_cons_of_mem _ h)
    · rcases List.mem_cons.mp h with rfl | h
      · exact .inl List.mem_cons_self
      · rcases ih h with h | ⟨he, rfl | ⟨w, h⟩⟩
        · exact .inl (List.mem_cons_of_mem _ h)
        · exact .inr ⟨he, .inl rfl⟩
        · exact .inr ⟨he, .inr ⟨w, List.mem_cons_of_mem _ h⟩⟩

namespace Json

/-- Values that a JSON text can carry. -/
inductive Carries : Value → Prop
  | none : Carries .none
  | bool (b : Bool) : Carries (.bool b)
  | int {i : Int} : i.natAbs < 10 ^ Reading.maxIntDigits → Carries (.int i)
  | float (f : Binary64) : Carries (.float f)
  | text (s : String) : Carries (.text s)
  | broken (s : Text.Symbols) : Carries (.broken s)
  | list {items : List Value} : (∀ v ∈ items, Carries v) → Carries (.list items)
  | dict {entries : List (Value × Value)} : (∀ e ∈ entries, Carries e.2) → Carries (.dict entries)

theorem carries_ofSymbols (s : Text.Symbols) : Carries (.ofSymbols s) := by
  unfold Value.ofSymbols
  split
  · exact .text _
  · exact .broken _

theorem carries_insert (key : Value) {v : Value} {entries : List (Value × Value)} (hv : Carries v)
    (h : ∀ e ∈ entries, Carries e.2) : ∀ e ∈ Value.insert key v entries, Carries e.2 := by
  intro e he
  rcases Value.mem_insert he with he | ⟨he, -⟩
  · exact h e he
  · rw [he]
    exact hv

theorem carries_numberValue {whole fraction exponent : List Char} {v : Value}
    (h : numberValue whole fraction exponent = .ok v) : Carries v := by
  unfold numberValue at h
  split at h
  · split at h
    · next i hi =>
      cases h
      exact .int (Reading.natAbs_int_lt hi)
    · cases h
    · cases h
  · cases h
    exact .float _

theorem carries_wordValues : ∀ w ∈ wordValues, Carries w.2 := by
  simp only [wordValues, List.forall_mem_cons]
  exact ⟨.none, .bool _, .bool _, .float _, .float _, .float _, List.forall_mem_nil _⟩

theorem carries_scalar {s rest : Text.Symbols} {v : Value} (h : scalar s = .ok (v, rest)) :
    Carries v := by
  unfold scalar at h
  split at h
  · next r hr =>
    cases h
    obtain ⟨w, hw, hv⟩ := List.exists_of_findSome?_eq_some hr
    obtain ⟨t, -, ht⟩ := Option.map_eq_some_iff.mp hv
    cases ht
    exact carries_wordValues w hw
  · split at h
    · cases h
    · obtain ⟨u, hu, he⟩ := bind_eq_ok.mp h
      cases he
      exact carries_numberValue hu

theorem carries_nested (fuel : Nat) :
    (∀ room s v rest, value fuel room s = .ok (v, rest) → Carries v) ∧
    (∀ room s items rest, elements fuel room s = .ok (items, rest) → ∀ v ∈ items, Carries v) ∧
    (∀ room es s entries rest, (∀ e ∈ es, Carries e.2) →
      members fuel room es s = .ok (entries, rest) → ∀ e ∈ entries, Carries e.2) := by
  -- values, elements and members call each other, each with one less of the same fuel
  induction fuel with
  | zero =>
    refine ⟨fun room s v rest h => ?_, fun room s items rest h => ?_,
      fun room es s entries rest _ h => ?_⟩
    · unfold value at h; cases h
    · unfold elements at h; cases h
    · unfold members at h; cases h
  | succ fuel ih =>
    obtain ⟨hv, hi, hm⟩ := ih
    refine ⟨fun room s v rest h => ?_, fun room s items rest h => ?_,
      fun room es s entries rest hes h => ?_⟩
    · unfold value at h
      split at h
      · obtain ⟨⟨t, r⟩, -, he⟩ := bind_eq_ok.mp h
        cases he
        exact carries_ofSymbols t
      · split at h
        · cases h
        · split at h
          · cases h
            exact .list (List.forall_mem_nil _)
          · obtain ⟨⟨items, r⟩, hitems, he⟩ := bind_eq_ok.mp h
            cases he
            exact .list (hi _ _ _ _ hitems)
      · split at h
        · cases h
        · split at h
          · cases h
            exact .dict (List.forall_mem_nil _)
          · obtain ⟨⟨entries, r⟩, hentries, he⟩ := bind_eq_ok.mp h
            cases he
            exact .dict (hm _ _ _ _ _ (List.forall_mem_nil _) hentries)
      · exact carries_scalar h
    · unfold elements at h
      obtain ⟨⟨v, r⟩, hv', h⟩ := bind_eq_ok.mp h
      have first := hv _ _ _ _ hv'
      dsimp only at h
      split at h
      · cases h
        exact List.forall_mem_singleton.mpr first
      · obtain ⟨⟨vs, r'⟩, hvs, he⟩ := bind_eq_ok.mp h
        cases he
        exact List.forall_mem_cons.mpr ⟨first, hi _ _ _ _ hvs⟩
      · cases h
    · unfold members at h
      split at h
      · obtain ⟨⟨name, r⟩, -, h⟩ := bind_eq_ok.mp h
        dsimp only at h
        split at h
        · obtain ⟨⟨v, r'⟩, hv', h⟩ := bind_eq_ok.mp h
          have more := carries_insert (.ofSymbols name) (hv _ _ _ _ hv') hes
          dsimp only at h
          split at h
          · cases h
            exact more
          · exact hm _ _ _ _ _ more h
          · cases h
        · cases h
      · cases h

theorem carries_read {octets : List UInt8} {v : Value} (h : read octets = .ok v) : Carries v := by
  unfold read at h
  split at h
  · cases h
  · split at h
    · next w hw =>
      cases h
      obtain ⟨⟨u, rest⟩, hu, he⟩ := bind_eq_ok.mp hw
      dsimp only at he
      split at he
      · cases he
        exact (carries_nested _).1 _ _ _ _ hu
      · cases he
    · cases h
    · cases h

end Json

theorem Value.mem_of_get? {key : String} {entries : List (Value × Value)} {v : Value}
    (h : get? key entries = some v) : ∃ k, (k, v) ∈ entries := by
  obtain ⟨e, he, rfl⟩ := Option.map_eq_some_iff.mp h
  exact ⟨e.1, List.mem_of_find?_eq_some he⟩

theorem Value.get?_of_get {key : String} {entries : List (Value × Value)} {v : Value}
    (h : get key entries = v) (hv : v ≠ .none) : get? key entries = some v := by
  unfold get at h
  cases hg : get? key entries with
  | none =>
    rw [hg] at h
    exact absurd h.symm hv
  | some w =>
    rw [hg] at h
    exact congrArg some h

/-- The result of a reply carries only what a JSON text can. -/
theorem Reply.carries_decode {payload : List UInt8} {r : Entries} (h : decode payload = .ok r) :
    ∀ e ∈ r, Json.Carries e.2 := by
  unfold decode at h
  split at h
  · cases h
  · cases h
  · next members hread =>
    unfold result at h
    split at h
    · split at h
      · next hr =>
        cases h
        obtain ⟨k, hk⟩ := Value.mem_of_get? (Value.get?_of_get hr nofun)
        cases Json.carries_read hread with
        | dict h =>
          cases h _ hk with
          | dict h => exact h
      · cases h
    · obtain ⟨_, -, h⟩ := bind_eq_ok.mp h
      cases h
  · cases h

end BatteryLink
