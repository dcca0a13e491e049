import BatteryLink.Proofs.Config
import BatteryLink.Text.WordChar
/-!
Texts as words. A text may be cut at any blank, and words that are set apart by single spaces are the
words of the text that comes of it.
-/
namespace BatteryLink

namespace Text

def letterRanges : CharRanges := [(65, 90), (97, 122)]

theorem letterRanges_contains {c : Char} (h : c.isAlpha = true) : letterRanges.contains c = true := by
  refine CharRanges.contains_iff.mpr ?_
  change (decide (65 ≤ c.toNat ∧ c.toNat ≤ 90) || (decide (97 ≤ c.toNat) && decide (c.toNat ≤ 122))) = true at h
  rw [Bool.or_eq_true, Bool.and_eq_true, decide_eq_true_iff, decide_eq_true_iff, decide_eq_true_iff] at h
  rcases h with ⟨low, high⟩ | ⟨low, high⟩
  · exact ⟨(65, 90), by decide, low, high⟩
  · exact ⟨(97, 122), by decide, low, high⟩

theorem isBlank_of_isAlpha {c : Char} (h : c.isAlpha = true) : isBlank c = false := by
  have apart : letterRanges.Disjoint blankRanges := by unfold CharRanges.Disjoint; decide
  exact apart.contains (letterRanges_contains h)

theorem isDecimal_of_isAlpha {c : Char} (h : c.isAlpha = true) : isDecimal c = false := by
  have apart : letterRanges.Disjoint decimalRanges := by unfold CharRanges.Disjoint; decide
  rw [Bool.eq_false_iff]
  intro decimal
  obtain ⟨d, hd⟩ := Option.isSome_iff_exists.mp decimal
  have letter := apart.contains (letterRanges_contains h)
  exact Bool.false_ne_true (letter.symm.trans (decimalValue?_lt hd).2)

theorem isWordChar_of_isBlank {c : Char} (h : isBlank c = true) : isWordChar c = false := by
  unfold isWordChar
  split
  · next ascii =>
    have few : ∀ n < 128, blankRanges.contains (Char.ofNat n) = true →
        ((Char.ofNat n).isAlphanum || Char.ofNat n = '_') = false := by decide +kernel
    have same := few c.toNat ascii
    rw [Char.ofNat_toNat] at same
    exact same h
  · -- The tables are long, and the kernel is quick only with comparisons that it has built in.
    have apart : (blankRanges.all fun r => wordRanges.all fun b =>
        Nat.blt r.2 b.1 || Nat.blt b.2 r.1) = true := by decide +kernel
    have disjoint : blankRanges.Disjoint wordRanges := by
      intro r hr b hb
      simpa only [Bool.or_eq_true, Nat.blt_eq] using List.all_eq_true.mp (List.all_eq_true.mp apart r hr) b hb
    exact disjoint.contains h

theorem isWordChar_of_isDecimal {c : Char} (h : isDecimal c = true) : isWordChar c = true := by
  obtain ⟨d, hd⟩ := Option.isSome_iff_exists.mp h
  obtain ⟨r, hr, low, high⟩ := CharRanges.contains_iff.mp (decimalValue?_lt hd).2
  have within : (decimalRanges.all fun r => r == (48, 57) || Nat.ble 128 r.1 &&
      wordRanges.any fun b => Nat.ble b.1 r.1 && Nat.ble r.2 b.2) = true := by decide +kernel
  simp only [List.all_eq_true, List.any_eq_true, Bool.or_eq_true, Bool.and_eq_true, beq_iff_eq,
    Nat.ble_eq] at within
  unfold isWordChar
  rcases within r hr with rfl | ⟨beyond, b, hb, low', high'⟩
  · have digits : ∀ n < 58, 48 ≤ n → (Char.ofNat n).isAlphanum = true := by decide
    have digit := digits c.toNat (Nat.lt_succ_of_le high) low
    rw [Char.ofNat_toNat] at digit
    rw [if_pos (Nat.lt_of_le_of_lt high (by decide)), digit, Bool.true_or]
  · rw [if_neg (Nat.not_lt.mpr (beyond.trans low))]
    exact CharRanges.contains_iff.mpr ⟨b, hb, low'.trans low, high.trans high'⟩

/-- A word: a piece of text that is not empty and in which nothing is blank. -/
structure Token (w : List Char) : Prop where
  filled : w ≠ []
  whole : ∀ c ∈ w, isBlank c = false

instance (w : List Char) : Decidable (Token w) :=
  decidable_of_iff (w ≠ [] ∧ w.all (fun c => !isBlank c) = true)
    ⟨fun h => ⟨h.1, by simpa using h.2⟩, fun h => ⟨h.filled, by simpa using h.whole⟩⟩

variable {a b s w : List Char} {c : Char}

theorem words_nil : words [] = [] := rfl

theorem wordsFrom_append_blank (h : isBlank c = true) (word : List Char) :
    wordsFrom word (a ++ c :: b) = wordsFrom word a ++ words b := by
  induction a generalizing word with
  | nil => cases word <;> simp [wordsFrom, words, h]
  | cons d a ih =>
    rw [List.cons_append, wordsFrom, wordsFrom]
    split
    · split
      · exact ih []
      · rw [ih, List.cons_append]
    · exact ih (d :: word)

/-- All that there is to cutting a text into words: it may be cut at any blank. -/
theorem words_append_blank (h : isBlank c = true) : words (a ++ c :: b) = words a ++ words b :=
  wordsFrom_append_blank h []

theorem words_cons_blank (h : isBlank c = true) : words (c :: b) = words b :=
  words_append_blank (a := []) h

theorem wordsFrom_whole (h : ∀ c ∈ w, isBlank c = false) (word : List Char) :
    wordsFrom word w = if word.isEmpty ∧ w.isEmpty then [] else [word.reverse ++ w] := by
  induction w generalizing word with
  | nil => cases word <;> simp [wordsFrom]
  | cons d w ih =>
    obtain ⟨first, rest⟩ := List.forall_mem_cons.mp h
    rw [wordsFrom, if_neg (by simp [first]), ih rest]
    simp

theorem Token.words (h : Token w) : words w = [w] := by
  rw [Text.words, wordsFrom_whole h.whole, if_neg (by simp [h.filled])]
  rfl

theorem words_blanks (h : ∀ c ∈ s, isBlank c = true) : words s = [] := by
  induction s with
  | nil => rfl
  | cons c s ih =>
    obtain ⟨first, rest⟩ := List.forall_mem_cons.mp h
    rw [words_cons_blank first, ih rest]

/-- Every text is cut into words at its first blank. -/
theorem cut_at_blank (s : List Char) : (∀ c ∈ s, isBlank c = false) ∨
    ∃ a c b, s = a ++ c :: b ∧ isBlank c = true ∧ ∀ d ∈ a, isBlank d = false := by
  induction s with
  | nil => exact .inl (List.forall_mem_nil _)
  | cons d s ih =>
    cases hd : isBlank d with
    | true => exact .inr ⟨[], d, s, rfl, hd, List.forall_mem_nil _⟩
    | false =>
      rcases ih with whole | ⟨a, c, b, rfl, hc, ha⟩
      · exact .inl (List.forall_mem_cons.mpr ⟨hd, whole⟩)
      · exact .inr ⟨d :: a, c, b, rfl, hc, List.forall_mem_cons.mpr ⟨hd, ha⟩⟩

theorem token_of_mem_words (h : w ∈ words s) : Token w := by
  suffices key : ∀ word : List Char, (∀ c ∈ word, isBlank c = false) → ∀ w ∈ wordsFrom word s, Token w from
    key [] (List.forall_mem_nil _) w h
  clear h
  intro word
  induction s generalizing word with
  | nil =>
    intro whole w hw
    rw [wordsFrom] at hw
    split at hw
    · cases hw
    · next filled =>
      cases List.mem_singleton.mp hw
      exact ⟨by simpa using filled, by simpa using whole⟩
  | cons c s ih =>
    intro whole w hw
    rw [wordsFrom] at hw
    split at hw
    · split at hw
      · exact ih [] (List.forall_mem_nil _) w hw
      · next filled =>
        rcases List.mem_cons.mp hw with rfl | later
        · exact ⟨by simpa using filled, by simpa using whole⟩
        · exact ih [] (List.forall_mem_nil _) w later
    · next solid =>
      exact ih (c :: word) (List.forall_mem_cons.mpr ⟨by simpa using solid, whole⟩) w hw

theorem words_dropWhile (s : List Char) : words (s.dropWhile isBlank) = words s := by
  induction s with
  | nil => rfl
  | cons c s ih =>
    cases hc : isBlank c with
    | true => rw [List.dropWhile_cons_of_pos hc, ih, words_cons_blank hc]
    | false => rw [List.dropWhile_cons_of_neg (by simp [hc])]

/-- A text without the blanks at its end. -/
def trimEnd (s : List Char) : List Char := (s.reverse.dropWhile isBlank).reverse

theorem exists_trimEnd (s : List Char) : ∃ gap, s = trimEnd s ++ gap ∧ ∀ c ∈ gap, isBlank c = true := by
  refine ⟨(s.reverse.takeWhile isBlank).reverse, ?_, ?_⟩
  · unfold trimEnd
    rw [← List.reverse_append, List.takeWhile_append_dropWhile, List.reverse_reverse]
  · intro c hc
    exact List.mem_takeWhile_imp (List.mem_reverse.mp hc)

theorem words_append_blanks (h : ∀ c ∈ b, isBlank c = true) : words (a ++ b) = words a := by
  cases b with
  | nil => rw [List.append_nil]
  | cons c b =>
    obtain ⟨first, rest⟩ := List.forall_mem_cons.mp h
    rw [words_append_blank first, words_blanks rest, List.append_nil]

theorem words_trimEnd (s : List Char) : words (trimEnd s) = words s := by
  obtain ⟨gap, whole, blank⟩ := exists_trimEnd s
  conv_rhs => rw [whole, words_append_blanks blank]

theorem words_trimChars (s : List Char) : words (trimChars s) = words s :=
  (words_trimEnd _).trans (words_dropWhile s)

/-- A text that begins with a word goes on with its other words. -/
theorem words_cons_solid (h : isBlank c = false) (s : List Char) : words (c :: s) =
    (c :: s.takeWhile fun d => !isBlank d) :: words (s.dropWhile fun d => !isBlank d) := by
  rcases cut_at_blank s with whole | ⟨a, d, b, rfl, hd, ha⟩
  · have solid : ∀ e ∈ s, (!isBlank e) = true := by simpa using whole
    have token : Token (c :: s) := ⟨List.cons_ne_nil _ _, List.forall_mem_cons.mpr ⟨h, whole⟩⟩
    rw [token.words, List.takeWhile_eq_self_iff.mpr solid, List.dropWhile_eq_nil_iff.mpr solid]
    rfl
  · have solid : ∀ e ∈ a, (!isBlank e) = true := by simpa using ha
    have token : Token (c :: a) := ⟨List.cons_ne_nil _ _, List.forall_mem_cons.mpr ⟨h, ha⟩⟩
    rw [List.takeWhile_append_of_pos solid, List.dropWhile_append_of_pos solid,
      List.takeWhile_cons_of_neg (by simp [hd]), List.dropWhile_cons_of_neg (by simp [hd]),
      List.append_nil, words_cons_blank hd, ← List.cons_append, words_append_blank hd, token.words]
    rfl

theorem words_ne_nil (filled : s ≠ []) (h : ∀ c ∈ s.head?, isBlank c = false) : words s ≠ [] := by
  cases s with
  | nil => exact absurd rfl filled
  | cons c s =>
    rw [words_cons_solid (h c rfl)]
    exact List.cons_ne_nil _ _

theorem mem_intercalate {ws : List (List Char)} {sep : Char} (h : c ∈ [sep].intercalate ws) :
    c = sep ∨ ∃ w ∈ ws, c ∈ w := by
  induction ws with
  | nil => cases h
  | cons w ws ih =>
    cases ws with
    | nil => exact .inr ⟨w, List.mem_cons_self, by simpa [List.intercalate] using h⟩
    | cons v ws =>
      rw [List.intercalate_cons_cons, List.append_assoc] at h
      rcases List.mem_append.mp h with first | later
      · exact .inr ⟨w, List.mem_cons_self, first⟩
      · rcases List.mem_cons.mp later with same | rest
        · exact .inl same
        · exact (ih rest).imp_right fun ⟨x, hx, hc⟩ => ⟨x, List.mem_cons_of_mem w hx, hc⟩

theorem intercalate_concat {ws : List (List Char)} (some : ws ≠ []) (sep w : List Char) :
    sep.intercalate (ws ++ [w]) = sep.intercalate ws ++ (sep ++ w) := by
  induction ws with
  | nil => exact absurd rfl some
  | cons v ws ih =>
    cases ws with
    | nil => simp [List.intercalate]
    | cons u ws =>
      have rest := ih (List.cons_ne_nil u ws)
      rw [List.cons_append] at rest
      rw [List.cons_append, List.cons_append, List.intercalate_cons_cons, rest,
        List.intercalate_cons_cons, List.append_assoc, List.append_assoc, List.append_assoc]

/-- Words set apart by single spaces. -/
theorem words_intercalate {ws : List (List Char)} (h : ∀ w ∈ ws, Token w) :
    words ([' '].intercalate ws) = ws := by
  induction ws with
  | nil => rfl
  | cons w ws ih =>
    obtain ⟨first, rest⟩ := List.forall_mem_cons.mp h
    cases ws with
    | nil => simpa [List.intercalate] using first.words
    | cons v ws =>
      rw [List.intercalate_cons_cons, List.append_assoc, List.singleton_append,
        words_append_blank (by decide), first.words, ih rest, List.singleton_append]

/-- A text in which no blank is idle: it has none at its ends, no two in a row, and none but spaces. -/
structure Neat (s : List Char) : Prop where
  filled : s ≠ []
  trimmed : Trimmed s
  single : s.IsChain fun c d => isBlank c = true → isBlank d = false
  spaces : ∀ c ∈ s, isBlank c = true → c = ' '

theorem Token.neat (h : Token w) : Neat w where
  filled := h.filled
  trimmed := by
    rintro c (first | last)
    · exact h.whole c (List.mem_of_mem_head? first)
    · exact h.whole c (List.mem_of_mem_getLast? last)
  single := List.Pairwise.isChain (List.pairwise_of_forall_mem_list fun _ _ d hd _ => h.whole d hd)
  spaces := fun c hc blank => absurd (h.whole c hc) (by simp [blank])

/-- A neat text goes on with a space and another one. -/
theorem Neat.append (ha : Neat a) (hb : Neat b) : Neat (a ++ [' '] ++ b) where
  filled := by simp
  trimmed := by
    rintro c (first | last)
    · rw [List.append_assoc, List.head?_append_of_ne_nil _ ha.filled] at first
      exact ha.trimmed c (.inl first)
    · rw [List.getLast?_append_of_ne_nil _ hb.filled] at last
      exact hb.trimmed c (.inr last)
  single := by
    rw [List.append_assoc, List.singleton_append, List.isChain_append, List.isChain_cons]
    refine ⟨ha.single, ⟨fun d hd _ => hb.trimmed d (.inl hd), hb.single⟩, fun c hc d _ blank => ?_⟩
    exact absurd (ha.trimmed c (.inr hc)) (by simp [blank])
  spaces := by
    intro c hc blank
    rw [List.append_assoc] at hc
    rcases List.mem_append.mp hc with first | later
    · exact ha.spaces c first blank
    · rcases List.mem_cons.mp later with same | rest
      · exact same
      · exact hb.spaces c rest blank

theorem neat_intercalate {ws : List (List Char)} (some : ws ≠ []) (h : ∀ w ∈ ws, Token w) :
    Neat ([' '].intercalate ws) := by
  induction ws with
  | nil => exact absurd rfl some
  | cons w ws ih =>
    obtain ⟨first, rest⟩ := List.forall_mem_cons.mp h
    cases ws with
    | nil => simpa [List.intercalate] using first.neat
    | cons v ws =>
      rw [List.intercalate_cons_cons]
      exact first.neat.append (ih (List.cons_ne_nil v ws) rest)

end Text
end BatteryLink
