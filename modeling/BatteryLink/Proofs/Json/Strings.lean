import BatteryLink.Proofs.Json.Grammar
import BatteryLink.Proofs.Foreign
/-!
Strings are read as the grammar has them. The reader keeps back the first half of a surrogate pair
until it has seen what follows; so what it reads from some point on depends on what it keeps back.
-/
namespace BatteryLink.Json

open BatteryLink.Text (Symbol Symbols pairCode isHighSurrogate isLowSurrogate)

namespace Grammar

theorem not_opensLow_nil : ¬ OpensLow [] := by
  rintro ⟨e, n, r, ⟨⟩, -, h⟩
  cases h

theorem not_opensLow_of_ne {x : Symbol} {s : Symbols} (h : x ≠ .char '\\') : ¬ OpensLow (x :: s) := by
  rintro ⟨e, n, r, ⟨⟩, -, he⟩
  exact h (List.cons.inj he).1

theorem not_opensLow_short {x : Symbol} {c : Char} {s : Symbols} (h : shortEscape? x = some c) :
    ¬ OpensLow (.char '\\' :: x :: s) := by
  rintro ⟨e, n, r, ⟨⟩, -, he⟩
  cases (List.cons.inj (List.cons.inj he).2).1
  cases h

/-- The code unit of an escape is one of its own. -/
theorem opensLow_append {e s : Symbols} {n : Nat} (h : Code e n) :
    OpensLow (e ++ s) ↔ isLowSurrogate n = true := by
  constructor
  · rintro ⟨f, l, r, ⟨hf⟩, low, he⟩
    cases h with
    | digits he' =>
      simp only [List.cons_append, List.nil_append, List.cons.injEq, true_and] at he
      obtain ⟨rfl, rfl, rfl, rfl, -⟩ := he
      cases he'.symm.trans hf
      exact low
  · exact fun low => ⟨e, n, s, h, low, rfl⟩

theorem not_low_of_high {n : Nat} (h : isHighSurrogate n = true) : isLowSurrogate n = false := by
  simp only [isHighSurrogate, isLowSurrogate, Bool.and_eq_true, decide_eq_true_eq,
    Bool.and_eq_false_iff, decide_eq_false_iff_not] at *
  omega

/-- What stands between here and the quote, and the text that it means, if `high` is the first half
of a pair that was read just before. -/
inductive Continues : Option Nat → Symbols → Symbols → Prop
  | fresh {s t : Symbols} : Chars s t → Continues none s t
  | alone {s t : Symbols} (h : Nat) : ¬ OpensLow s → Chars s t → Continues (some h) s (.ofCode h :: t)
  | joined {e s t : Symbols} (h : Nat) {n : Nat} : Code e n → isLowSurrogate n = true → Chars s t →
      Continues (some h) (e ++ s) (.ofCode (pairCode h n) :: t)

namespace Continues

variable {s t : Symbols}

theorem of_alone (high : Option Nat) (h : ¬ OpensLow s) (chars : Chars s t) :
    Continues high s (stringTail.flush high ++ t) := by
  cases high with
  | none => exact .fresh chars
  | some n => exact .alone n h chars

/-- The first half of a pair with its own escape before it. -/
theorem chars {e : Symbols} {n : Nat} (he : Code e n) (high : isHighSurrogate n = true)
    (h : Continues (some n) s t) : Chars (e ++ s) t := by
  cases h with
  | alone _ other chars => exact .code he (fun _ => other) chars
  | joined _ hf low chars =>
    rw [← List.append_assoc]
    exact .pair he high hf low chars

end Continues
end Grammar

open Grammar

theorem continues_of_stringTail {opening : Nat} {high : Option Nat} {s t rest : Symbols}
    (h : stringTail opening high s = .ok (t, rest)) :
    ∃ body, s = body ++ .char '"' :: rest ∧ Continues high body t := by
  fun_induction stringTail opening high s generalizing t rest with
  | case1 => cases h
  | case2 high r =>
    cases h
    exact ⟨[], rfl, by simpa using Continues.of_alone high not_opensLow_nil .nil⟩
  | case3 => cases h
  | case4 => cases h
  | case5 a b c d e r n code first low ih =>
    obtain ⟨⟨t', rest'⟩, hr, he⟩ := bind_eq_ok.mp h
    cases he
    obtain ⟨body, split, ⟨chars⟩⟩ := ih hr
    exact ⟨[_, _, a, b, c, d] ++ body, by rw [split]; rfl, .joined first (.digits code) low chars⟩
  | case6 a b c d e r n code first other high ih =>
    obtain ⟨⟨t', rest'⟩, hr, he⟩ := bind_eq_ok.mp h
    cases he
    obtain ⟨body, split, more⟩ := ih hr
    refine ⟨[_, _, a, b, c, d] ++ body, by rw [split]; rfl, .alone first ?_ ?_⟩
    · rwa [opensLow_append (.digits code)]
    · exact more.chars (.digits code) high
  | case7 a b c d e r n code first other high ih =>
    obtain ⟨⟨t', rest'⟩, hr, he⟩ := bind_eq_ok.mp h
    cases he
    obtain ⟨body, split, ⟨chars⟩⟩ := ih hr
    refine ⟨[_, _, a, b, c, d] ++ body, by rw [split]; rfl, .alone first ?_ ?_⟩
    · rwa [opensLow_append (.digits code)]
    · exact .code (.digits code) (fun h => absurd h high) chars
  | case8 a b c d e r n code high ih =>
    obtain ⟨body, split, more⟩ := ih h
    exact ⟨[_, _, a, b, c, d] ++ body, by rw [split]; rfl, .fresh (more.chars (.digits code) high)⟩
  | case9 a b c d e r n code other ih =>
    obtain ⟨⟨t', rest'⟩, hr, he⟩ := bind_eq_ok.mp h
    cases he
    obtain ⟨body, split, ⟨chars⟩⟩ := ih hr
    exact ⟨[_, _, a, b, c, d] ++ body, by rw [split]; rfl,
      .fresh (.code (.digits code) (fun h => absurd h other) chars)⟩
  | case10 => cases h
  | case11 => cases h
  | case12 high x r _ _ e short ih =>
    obtain ⟨⟨t', rest'⟩, hr, he⟩ := bind_eq_ok.mp h
    cases he
    obtain ⟨body, rfl, ⟨chars⟩⟩ := ih hr
    exact ⟨_ :: x :: body, rfl, .of_alone high (not_opensLow_short short) (.short short chars)⟩
  | case13 high x r quote alone _ _ more plain ih =>
    obtain ⟨⟨t', rest'⟩, hr, he⟩ := bind_eq_ok.mp h
    cases he
    obtain ⟨body, rfl, ⟨chars⟩⟩ := ih hr
    have other : x ≠ .char '\\' := fun mark => by
      cases hr' : body ++ .char '"' :: rest with
      | nil => exact alone mark hr'
      | cons y r => exact more y r mark hr'
    exact ⟨x :: body, rfl, .of_alone high (not_opensLow_of_ne other) (.plain plain quote other chars)⟩
  | case14 => cases h

section
variable {opening : Nat} {high : Option Nat} {e q s t rest : Symbols} {n : Nat}

theorem stringTail_plain {x : Symbol} (plain : isPlain x = true) (quote : x ≠ .char '"')
    (mark : x ≠ .char '\\') (h : stringTail opening none q = .ok (t, rest)) :
    stringTail opening high (x :: q) = .ok (stringTail.flush high ++ x :: t, rest) := by
  rw [stringTail, if_pos plain, h]
  · rfl
  · exact quote
  · exact fun hx _ => mark hx
  · exact fun _ _ _ _ _ _ hx _ => mark hx
  · exact fun _ hx _ => mark hx
  · exact fun _ _ hx _ => mark hx

theorem stringTail_short {x : Symbol} {c : Char} (short : shortEscape? x = some c)
    (h : stringTail opening none q = .ok (t, rest)) :
    stringTail opening high (.char '\\' :: x :: q) = .ok (stringTail.flush high ++ .char c :: t, rest) := by
  have other : x ≠ .char 'u' := by
    rintro rfl
    cases short
  rw [stringTail, short]
  · dsimp only
    rw [h]
    rfl
  · exact fun _ _ _ _ _ _ hx _ => other hx
  · exact other

/-- The first half of a pair is kept back; one that was kept back before stands alone. -/
theorem stringTail_first (he : Code e n) (first : isHighSurrogate n = true) (some_more : q ≠ [])
    (h : stringTail opening (some n) q = .ok (t, rest)) :
    stringTail opening high (e ++ q) = .ok (stringTail.flush high ++ t, rest) := by
  obtain ⟨x, r, rfl⟩ := List.exists_cons_of_ne_nil some_more
  cases he with
  | digits code =>
    simp only [List.cons_append, List.nil_append]
    rw [stringTail, code]
    cases high with
    | none => simpa [first, stringTail.flush] using h
    | some k => simp [not_low_of_high first, first, h, bind, Except.bind, stringTail.flush]

theorem stringTail_second (he : Code e n) (low : isLowSurrogate n = true) (some_more : q ≠ []) {k : Nat}
    (h : stringTail opening none q = .ok (t, rest)) :
    stringTail opening (some k) (e ++ q) = .ok (.ofCode (pairCode k n) :: t, rest) := by
  obtain ⟨x, r, rfl⟩ := List.exists_cons_of_ne_nil some_more
  cases he with
  | digits code =>
    simp only [List.cons_append, List.nil_append]
    rw [stringTail, code]
    simp [low, h, bind, Except.bind]

theorem stringTail_single (he : Code e n) (first : isHighSurrogate n = false)
    (second : high ≠ none → isLowSurrogate n = false) (some_more : q ≠ [])
    (h : stringTail opening none q = .ok (t, rest)) :
    stringTail opening high (e ++ q) = .ok (stringTail.flush high ++ .ofCode n :: t, rest) := by
  obtain ⟨x, r, rfl⟩ := List.exists_cons_of_ne_nil some_more
  cases he with
  | digits code =>
    simp only [List.cons_append, List.nil_append]
    rw [stringTail, code]
    cases high with
    | none => simp [first, h, bind, Except.bind, stringTail.flush]
    | some k => simp [first, second nofun, h, bind, Except.bind, stringTail.flush]

/-- A half that was kept back stands alone, unless the other one comes next. -/
theorem stringTail_of_chars (h : Chars s t) (alone : high ≠ none → ¬ OpensLow s) :
    stringTail opening high (s ++ .char '"' :: rest) = .ok (stringTail.flush high ++ t, rest) := by
  have some_more : ∀ r : Symbols, r ++ .char '"' :: rest ≠ [] := by simp
  induction h generalizing high with
  | nil => simp [stringTail]
  | plain plain quote mark _ ih => exact stringTail_plain plain quote mark (ih fun h => absurd rfl h)
  | short short _ ih => exact stringTail_short short (ih fun h => absurd rfl h)
  | @pair e f s t h l he first hf low _ ih =>
    have second := stringTail_second hf low (some_more s) (k := h) (ih fun h => absurd rfl h)
    rw [← List.append_assoc] at second
    rw [List.append_assoc, List.append_assoc]
    refine stringTail_first he first (by simp) ?_
    rwa [List.append_assoc] at second
  | @code e s t n he half _ ih =>
    rw [List.append_assoc]
    cases first : isHighSurrogate n with
    | true => exact stringTail_first he first (some_more s) (ih fun _ => half first)
    | false =>
      refine stringTail_single he first (fun kept => ?_) (some_more s) (ih fun h => absurd rfl h)
      rw [← Bool.not_eq_true]
      exact mt (opensLow_append he).mpr (alone kept)

/-- A string is read up to its first quote that is not escaped, and no other way. -/
theorem stringTail_iff :
    stringTail opening none s = .ok (t, rest) ↔ ∃ body, s = body ++ .char '"' :: rest ∧ Chars body t := by
  constructor
  · intro h
    obtain ⟨body, split, ⟨chars⟩⟩ := continues_of_stringTail h
    exact ⟨body, split, chars⟩
  · rintro ⟨body, rfl, chars⟩
    exact stringTail_of_chars chars fun h => absurd rfl h

end

end BatteryLink.Json
