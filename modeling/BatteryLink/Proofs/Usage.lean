import BatteryLink.CommandLine.Program
import BatteryLink.Proofs.Stopping
/-!
What a command line that is understood is known to say: every word that was expected is there, and
where only some words are allowed it is one of them.
-/
namespace BatteryLink.CommandLine

variable {g : Grammar} {f f' : Found} {r : WordRule} {rs : List WordRule} {ts : List Token}

/-- Whether a word may stand where a rule expects one. -/
def WordRule.Allows (r : WordRule) (s : String) : Prop := r.choices = [] ∨ s ∈ r.choices

namespace Grammar

/-- What was found, and the words that are still expected: each rule of the grammar is accounted for,
and what was found is allowed. -/
structure Fits (g : Grammar) (f : Found) (expected : List WordRule) : Prop where
  allowed : ∀ p ∈ f.words, ∃ r ∈ g.words, r.name = p.1 ∧ r.Allows p.2
  known : expected ⊆ g.words
  covered : ∀ r ∈ g.words, r ∈ expected ∨ ∃ p ∈ f.words, p.1 = r.name

theorem fits_start (g : Grammar) : g.Fits {} g.words where
  allowed := List.forall_mem_nil _
  known := List.Subset.refl _
  covered := fun _ hr => .inl hr

theorem Fits.of_words {expected : List WordRule} (h : g.Fits f expected) (same : f'.words = f.words) :
    g.Fits f' expected where
  allowed := same ▸ h.allowed
  known := h.known
  covered := same ▸ h.covered

theorem takeOption_words {o : OptionRule} {v : Option String} (h : takeOption g f o v = .ok f') :
    f'.words = f.words := by
  unfold takeOption at h
  split at h
  · cases h
  · dsimp only at h
    split at h
    · cases h
      rfl
    · split at h
      · cases h
        rfl
      · cases h

theorem takeOptions_words {os : List (OptionRule × Option String)}
    (h : takeOptions g f os = .ok f') : f'.words = f.words := by
  induction os generalizing f with
  | nil =>
    cases h
    rfl
  | cons p os ih =>
    obtain ⟨f₁, first, rest⟩ := bind_eq_ok.mp h
    exact (ih rest).trans (takeOption_words first)

/-- Where a rule takes something, there is a word. -/
theorem exists_word_of_wordLength (h : wordLength r ts ≠ 0) :
    ∃ s, Token.word s ∈ ts.take (wordLength r ts) := by
  have le_length := (ts.takeWhile_prefix Token.isMark).length_le
  unfold wordLength at h ⊢
  dsimp only at h ⊢
  split at h
  · next s after there =>
    refine ⟨s, ?_⟩
    have at_marks : ts[(ts.takeWhile Token.isMark).length]? = some (.word s) := by
      rw [← List.head?_drop, there]
      rfl
    have within : ∀ n, (ts.takeWhile Token.isMark).length < n → Token.word s ∈ ts.take n := fun n hn =>
      List.mem_of_getElem? ((List.getElem?_take_of_lt hn).trans at_marks)
    split
    · exact within _ (List.getElem?_eq_some_iff.mp at_marks).1
    · exact within _ (by omega)
  · exact absurd rfl h

/-- A rule that takes something finds a word that it allows. -/
theorem takeWord_fits (h : g.Fits f (r :: rs)) {s : String} (there : Token.word s ∈ ts)
    (took : takeWord g f r ts = .ok f') : g.Fits f' rs := by
  have here : r ∈ g.words := h.known List.mem_cons_self
  unfold takeWord at took
  dsimp only at took
  split at took
  · next none =>
    exfalso
    rw [List.map_eq_nil_iff] at none
    split at none
    · rw [none] at there
      cases there
    · exact absurd rfl (List.filter_eq_nil_iff.mp none _ there)
  · next s rest _ =>
    split at took
    · next choice =>
      cases took
      have allows : r.Allows s := by
        simpa [WordRule.Allows] using choice
      refine ⟨List.forall_mem_cons.mpr ⟨⟨r, here, rfl, allows⟩, h.allowed⟩,
        fun q hq => h.known (List.mem_cons_of_mem _ hq), fun q hq => ?_⟩
      rcases h.covered q hq with expected | ⟨p, hp, name⟩
      · rcases List.mem_cons.mp expected with rfl | later
        · exact .inr ⟨(q.name, s), List.mem_cons_self, rfl⟩
        · exact .inl later
      · exact .inr ⟨p, List.mem_cons_of_mem _ hp, name⟩
    · cases took

theorem takeWords_fits (h : g.Fits f rs) {left : List WordRule} {after : List Token}
    (took : takeWords g f rs ts = .ok (f', left, after)) : g.Fits f' left := by
  induction rs generalizing f ts with
  | nil =>
    cases took
    exact h
  | cons r rs ih =>
    unfold takeWords at took
    split at took
    · cases took
      exact h
    · next n some =>
      obtain ⟨s, there⟩ := exists_word_of_wordLength some
      obtain ⟨f₁, first, rest⟩ := bind_eq_ok.mp took
      exact ih (takeWord_fits h there first) rest

theorem readTokens_fits {fuel : Nat} {x y : Reading} (h : g.Fits x.found x.expected)
    (read : readTokens g fuel x ts = .ok y) : g.Fits y.found y.expected := by
  induction fuel generalizing x ts with
  | zero =>
    cases read
    exact h
  | succ fuel ih =>
    unfold readTokens at read
    split at read
    · split at read
      · refine ih ?_ read
        exact h
      · obtain ⟨⟨e, takes⟩, -, read⟩ := bind_eq_ok.mp read
        obtain ⟨found, took, read⟩ := bind_eq_ok.mp read
        refine ih ?_ read
        exact h.of_words (takeOptions_words took)
      · obtain ⟨⟨found, expected, after⟩, took, read⟩ := bind_eq_ok.mp read
        dsimp only at read
        split at read
        · refine ih ?_ read
          exact takeWords_fits h took
        · refine ih ?_ read
          exact h
    · obtain ⟨⟨found, expected, after⟩, took, read⟩ := bind_eq_ok.mp read
      cases read
      exact takeWords_fits h took

theorem read_fits {words extras : List String} (h : g.read words = .ok (f, extras)) : g.Fits f [] := by
  obtain ⟨ts, -, h⟩ := bind_eq_ok.mp h
  obtain ⟨x, tokens, h⟩ := bind_eq_ok.mp h
  have fits := readTokens_fits (fits_start g) tokens
  split at h
  · next none =>
    cases h
    rw [none] at fits
    exact fits
  · cases h

/-- The word for a rule is one that the rule allows. -/
theorem Fits.word_allowed (h : g.Fits f []) (hr : r ∈ g.words)
    (alone : ∀ q ∈ g.words, q.name = r.name → q = r) : r.Allows (f.word r.name) := by
  obtain ⟨p, hp, name⟩ := (h.covered r hr).resolve_left List.not_mem_nil
  obtain ⟨q, hq⟩ : ∃ q, f.words.find? (·.1 == r.name) = some q :=
    Option.isSome_iff_exists.mp (List.find?_isSome.mpr ⟨p, hp, by simp [name]⟩)
  obtain ⟨rule, known, same, allows⟩ := h.allowed q (List.mem_of_find?_eq_some hq)
  have found : f.word r.name = q.2 := by
    unfold Found.word
    rw [hq]
    rfl
  have named : q.1 = r.name := by simpa using List.find?_some hq
  rw [found, ← alone rule known (same.trans named)]
  exact allows

end Grammar

namespace Command

variable {words : List String} {host mode : String} {port : Int}

/-- Only modes that can be selected are understood. -/
theorem mode_selectable (h : parse words = .ok (.setMode host port mode)) :
    mode ∈ Request.selectableModes := by
  obtain ⟨⟨found, extras⟩, outer, h⟩ := bind_eq_ok.mp h
  obtain ⟨⟨ofCommand, more⟩, inner, h⟩ := bind_eq_ok.mp h
  have name : (found.word "command") ∈ ["probe", "poll", "set-mode"] :=
    ((Grammar.read_fits outer).word_allowed (List.mem_singleton_self _) (by simp [grammar])).resolve_left
      (by simp)
  dsimp only at h inner
  split at h
  · have said : ofFound (found.word "command") ofCommand = .setMode host port mode := Except.ok.inj h
    rcases List.mem_cons.mp name with probe | name
    · rw [probe] at said
      cases said
    rcases List.mem_cons.mp name with poll | name
    · rw [poll] at said
      cases said
    rw [List.mem_singleton.mp name] at said inner
    have allowed := (Grammar.read_fits inner).word_allowed (r := modeWord) (by simp [grammarOf])
      (by simp [grammarOf, hostWord, modeWord])
    cases said
    exact allowed.resolve_left (by decide)
  · cases h

end Command
end BatteryLink.CommandLine
