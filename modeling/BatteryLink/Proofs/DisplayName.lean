import BatteryLink.Identity
import BatteryLink.Proofs.TimeOfDay
import BatteryLink.Proofs.Words
/-!
The names that devices are shown under. A name is made of the words of the device type: a version at
its end goes into parentheses, and the letter of a model is set apart from the word before it. What
comes of it has nothing left to be done to it.
-/
namespace BatteryLink

namespace Identity

open Text (Token Trimmed isBlank isDecimal isWordChar trimChars trimEnd words)

variable {a b n r s v w : List Char} {c : Char} {us vs ws : List (List Char)}

/-- The number of a version: groups of digits with points between them. -/
def Numbering (n : List Char) : Prop :=
  ∃ groups, groups ≠ [] ∧ (∀ g ∈ groups, g ≠ [] ∧ ∀ c ∈ g, isDecimal c = true) ∧
    n = ['.'].intercalate groups

theorem isVersionNumber_iff : isVersionNumber n = true ↔ Numbering n := by
  unfold isVersionNumber
  rw [List.all_eq_true]
  constructor
  · intro h
    refine ⟨n.splitOn '.', List.splitOn_ne_nil _ _, fun g hg => ?_, (List.intercalate_splitOn '.').symm⟩
    have digits := h g (by rwa [Text.splitOn_eq])
    simpa [List.isEmpty_eq_false_iff] using digits
  · rintro ⟨groups, some, digits, rfl⟩ g hg
    have apart : ∀ g ∈ groups, '.' ∉ g := fun g hg point =>
      absurd ((digits g hg).2 '.' point) (by decide)
    rw [Text.splitOn_eq, List.splitOn_intercalate '.' apart some] at hg
    simpa [List.isEmpty_eq_false_iff] using digits g hg

/-- A number begins with a digit. -/
theorem Numbering.head (h : Numbering n) : ∃ c r, n = c :: r ∧ isDecimal c = true := by
  obtain ⟨groups, some, digits, rfl⟩ := h
  cases groups with
  | nil => exact absurd rfl some
  | cons g gs =>
    obtain ⟨filled, decimal⟩ := digits g List.mem_cons_self
    cases g with
    | nil => exact absurd rfl filled
    | cons c g =>
      refine ⟨c, ?_⟩
      cases gs with
      | nil => exact ⟨g, by simp [List.intercalate], decimal c List.mem_cons_self⟩
      | cons f fs =>
        rw [List.intercalate_cons_cons]
        exact ⟨g ++ ['.'] ++ ['.'].intercalate (f :: fs), by simp, decimal c List.mem_cons_self⟩

theorem Numbering.solid (h : Numbering n) : ∀ c ∈ n, isBlank c = false := by
  obtain ⟨groups, -, digits, rfl⟩ := h
  intro c hc
  rcases Text.mem_intercalate hc with rfl | ⟨g, hg, hc⟩
  · decide
  · exact Text.isBlank_of_isDigit (Bool.or_eq_true_iff.mpr (.inl ((digits g hg).2 c hc)))

/-- A word that gives a version, and the number of the version. -/
inductive Version : List Char → List Char → Prop
  | bare {n : List Char} : Numbering n → Version n n
  | marked {mark : Char} {n : List Char} : mark = 'v' ∨ mark = 'V' → Numbering n → Version (mark :: n) n

theorem Version.numbering (h : Version w n) : Numbering n := by
  cases h with
  | bare h => exact h
  | marked _ h => exact h

theorem version_iff : Version w n ↔ dropVersionMark w = n ∧ isVersionNumber n = true := by
  rw [isVersionNumber_iff]
  constructor
  · rintro (h | ⟨rfl | rfl, h⟩)
    · obtain ⟨c, r, rfl, decimal⟩ := h.head
      refine ⟨?_, h⟩
      unfold dropVersionMark
      split
      · next same =>
        cases same
        exact absurd decimal (by decide)
      · next same =>
        cases same
        exact absurd decimal (by decide)
      · rfl
    · exact ⟨rfl, h⟩
    · exact ⟨rfl, h⟩
  · rintro ⟨rfl, h⟩
    revert h
    fun_cases dropVersionMark w with
    | case1 r => exact .marked (.inl rfl)
    | case2 r => exact .marked (.inr rfl)
    | case3 => exact .bare

theorem Version.unique {m : List Char} (h : Version w n) (h' : Version w m) : n = m :=
  (version_iff.mp h).1.symm.trans (version_iff.mp h').1

theorem splitLastWord_append (hc : isBlank c = true) (hw : ∀ d ∈ w, isBlank d = false) :
    splitLastWord (b ++ c :: w) = (trimEnd b, w) := by
  have word : ∀ d ∈ w.reverse, (!isBlank d) = true := by simpa using hw
  unfold splitLastWord trimEnd
  rw [List.reverse_append, List.reverse_cons, List.append_assoc,
    List.takeWhile_append_of_pos word, List.dropWhile_append_of_pos word]
  simp [hc]

theorem splitLastWord_token (hw : ∀ d ∈ w, isBlank d = false) : splitLastWord w = ([], w) := by
  have word : ∀ d ∈ w.reverse, (!isBlank d) = true := by simpa using hw
  unfold splitLastWord
  rw [List.takeWhile_eq_self_iff.mpr word, List.dropWhile_eq_nil_iff.mpr word]
  simp

theorem splitVersion?_token (hw : ∀ d ∈ w, isBlank d = false) : splitVersion? w = none := by
  unfold splitVersion?
  rw [splitLastWord_token hw]
  rfl

theorem splitVersion?_append (hc : isBlank c = true) (hw : ∀ d ∈ w, isBlank d = false) :
    splitVersion? (b ++ c :: w) = some (a, n) ↔
      trimEnd b = a ∧ a ≠ [] ∧ '\n' ∉ a ∧ Version w n := by
  unfold splitVersion?
  rw [splitLastWord_append hc hw, version_iff]
  dsimp only
  rw [Option.ite_none_right_eq_some]
  simp only [Bool.and_eq_true, Bool.not_eq_true', List.isEmpty_eq_false_iff, Option.some.injEq,
    Prod.mk.injEq, List.contains_eq_mem, decide_eq_false_iff_not]
  constructor
  · rintro ⟨⟨⟨filled, noFeed⟩, number⟩, rfl, rfl⟩
    exact ⟨rfl, filled, noFeed, rfl, number⟩
  · rintro ⟨rfl, filled, noFeed, rfl, number⟩
    exact ⟨⟨⟨filled, noFeed⟩, number⟩, rfl, rfl⟩

/-- What stands before the last word of a trimmed text is not blank throughout. -/
theorem cut_at_last (h : Trimmed s) : (∀ c ∈ s, isBlank c = false) ∨ ∃ b c w, s = b ++ c :: w ∧
    isBlank c = true ∧ Token w ∧ trimEnd b ≠ [] := by
  rcases Text.cut_at_blank s.reverse with whole | ⟨w, c, b, cut, hc, hw⟩
  · exact .inl (by simpa using whole)
  · have same : s = b.reverse ++ c :: w.reverse := by
      rw [← List.reverse_reverse s, cut]
      simp
    refine .inr ⟨b.reverse, c, w.reverse, same, hc, ⟨?_, by simpa using hw⟩, ?_⟩
    · intro empty
      have last : c ∈ s.getLast? := by
        rw [same, empty]
        simp
      exact Bool.false_ne_true ((h c (.inr last)).symm.trans hc)
    · intro blank
      obtain ⟨gap, whole, blanks⟩ := Text.exists_trimEnd b.reverse
      rw [blank, List.nil_append] at whole
      rw [whole] at same
      cases gap with
      | nil => exact Bool.false_ne_true ((h c (.inl (by rw [same]; rfl))).symm.trans hc)
      | cons d gap =>
        have first := h d (.inl (by rw [same]; rfl))
        exact Bool.false_ne_true (first.symm.trans (blanks d List.mem_cons_self))

theorem mem_trimEnd (h : c ∈ trimEnd s) : c ∈ s := by
  obtain ⟨gap, whole, -⟩ := Text.exists_trimEnd s
  rw [whole]
  exact List.mem_append_left gap h

/-- Words and texts that begin with `Venus`, one letter and the end of a word. -/
def Leads (s : List Char) (c : Char) (r : List Char) : Prop :=
  s = "Venus".toList ++ c :: r ∧ c.isAlpha = true ∧ ∀ d ∈ r.head?, isWordChar d = false

/-- The letter of a model set apart. -/
inductive Spaced : List (List Char) → List (List Char) → Prop
  | apart {w r : List Char} {c : Char} (ws : List (List Char)) : Leads w c r →
      Spaced (w :: ws) ("Venus".toList :: (c :: r) :: ws)
  | same {ws : List (List Char)} : (∀ w ∈ ws.head?, ∀ c r, ¬ Leads w c r) → Spaced ws ws

theorem Spaced.unique (h : Spaced ws us) (h' : Spaced ws vs) : us = vs := by
  cases h with
  | apart ws leads =>
    cases h' with
    | apart _ leads' =>
      obtain ⟨rfl, -, -⟩ := leads
      obtain ⟨same, -, -⟩ := leads'
      rw [List.append_cancel_left same]
    | same plain => exact absurd leads (plain _ rfl _ _)
  | same plain =>
    cases h' with
    | apart _ leads => exact absurd leads (plain _ rfl _ _)
    | same _ => rfl

theorem spaceModel_leads (h : Leads s c r) : spaceModel s = "Venus".toList ++ ' ' :: c :: r := by
  obtain ⟨rfl, letter, ends⟩ := h
  have head : r.head?.any isWordChar = false := by
    cases r with
    | nil => rfl
    | cons d r => exact ends d rfl
  change (if c.isAlpha && !(r.head?.any isWordChar) then _ else _) = _
  rw [letter, head]
  rfl

theorem spaceModel_plain (h : ∀ c r, ¬ Leads s c r) : spaceModel s = s := by
  revert h
  fun_cases spaceModel s with
  | case1 c r cond =>
    intro h
    obtain ⟨letter, ends⟩ := Bool.and_eq_true_iff.mp cond
    refine absurd ⟨rfl, letter, fun d hd => ?_⟩ (h c r)
    rw [Option.mem_def.mp hd] at ends
    simpa using ends
  | case2 => exact fun _ => rfl
  | case3 => exact fun _ => rfl

/-- Setting the letter apart in a text does to its words what it does to words. -/
theorem spaced_words (h : ∀ c ∈ s.head?, isBlank c = false) : Spaced (words s) (words (spaceModel s)) := by
  by_cases leads : ∃ c r, Leads s c r
  · obtain ⟨c, r, leads⟩ := leads
    rw [spaceModel_leads leads]
    obtain ⟨rfl, letter, ends⟩ := leads
    have solid := Text.isBlank_of_isAlpha letter
    have venus : Token "Venus".toList := by decide
    have begins : ∀ d ∈ ['e', 'n', 'u', 's', c], (!isBlank d) = true := by
      simp only [List.forall_mem_cons, solid, List.not_mem_nil, false_implies, implies_true]
      decide
    have first : words ("Venus".toList ++ c :: r) = ("Venus".toList ++ c :: r.takeWhile fun d => !isBlank d) ::
        words (r.dropWhile fun d => !isBlank d) := by
      change words ('V' :: (['e', 'n', 'u', 's', c] ++ r)) = _
      rw [Text.words_cons_solid (by decide), List.takeWhile_append_of_pos begins,
        List.dropWhile_append_of_pos begins]
      rfl
    rw [first, Text.words_append_blank (by decide), venus.words, Text.words_cons_solid solid]
    refine .apart _ ⟨rfl, letter, fun d hd => ends d ?_⟩
    rw [List.head?_takeWhile, Option.mem_def, Option.filter_eq_some_iff] at hd
    exact hd.1
  · rw [spaceModel_plain fun c r hl => leads ⟨c, r, hl⟩]
    refine .same fun w hw c r hl => leads ?_
    cases s with
    | nil => cases hw
    | cons d s =>
      rw [Text.words_cons_solid (h d rfl)] at hw
      cases Option.mem_some_iff.mp hw
      obtain ⟨same, letter, ends⟩ := hl
      refine ⟨c, r ++ s.dropWhile fun d => !isBlank d, ?_, letter, ?_⟩
      · rw [← List.cons_append, ← List.append_assoc, ← same, List.cons_append,
          List.takeWhile_append_dropWhile]
      · intro e he
        cases r with
        | cons f r => exact ends e he
        | nil =>
          rw [List.nil_append] at he
          have stops := List.head?_dropWhile_not (fun d => !isBlank d) s
          rw [Option.mem_def.mp he] at stops
          exact Text.isWordChar_of_isBlank (by simpa using stops)

/-- The words of the name that a device is shown under, from those of its type. -/
inductive Shown : List (List Char) → List (List Char) → Prop
  | blank : Shown [] ["Device".toList]
  | version {ws us : List (List Char)} {w n : List Char} : ws ≠ [] → Version w n → Spaced ws us →
      Shown (ws ++ [w]) (us ++ ['(' :: (n ++ [')'])])
  | plain {ws us : List (List Char)} : ws ≠ [] →
      (∀ vs w n, ws = vs ++ [w] → vs ≠ [] → ¬ Version w n) → Spaced ws us → Shown ws us

theorem Shown.unique (h : Shown ws us) (h' : Shown ws vs) : us = vs := by
  generalize hw : ws = ws' at h'
  cases h with
  | blank =>
    subst hw
    generalize hn : ([] : List (List Char)) = none at h'
    cases h' with
    | blank => rfl
    | version some _ _ => simp at hn
    | plain some _ _ => exact absurd hn.symm some
  | @version ws us w n some version spaced =>
    cases h' with
    | blank => simp at hw
    | version _ version' spaced' =>
      obtain ⟨rfl, same⟩ := List.append_inj' hw rfl
      cases same
      rw [spaced.unique spaced', version.unique version']
    | plain _ other _ => exact absurd version (other ws w n hw.symm some)
  | plain some other spaced =>
    cases h' with
    | blank => exact absurd hw some
    | version some' version' _ => exact absurd version' (other _ _ _ hw some')
    | plain _ _ spaced' =>
      subst hw
      exact spaced.unique spaced'

/-- A word in parentheses is no version. -/
theorem not_version_parenthesis {m : List Char} : ¬ Version ('(' :: w) m := by
  rintro (h | ⟨mark, -⟩)
  · obtain ⟨c, r, same, decimal⟩ := h.head
    cases same
    exact absurd decimal (by decide)
  · rcases mark with same | same <;> cases same

/-- The letter of a model is no version, whatever comes after it. -/
theorem Leads.not_version (h : Leads w c r) : ¬ Version (c :: r) n := by
  obtain ⟨-, letter, ends⟩ := h
  rintro (h | ⟨-, h⟩)
  · obtain ⟨d, r, same, decimal⟩ := h.head
    cases same
    exact Bool.false_ne_true ((Text.isDecimal_of_isAlpha letter).symm.trans decimal)
  · obtain ⟨d, r, rfl, decimal⟩ := h.head
    exact Bool.false_ne_true ((ends d rfl).symm.trans (Text.isWordChar_of_isDecimal decimal))

theorem Leads.not_venus : ¬ Leads "Venus".toList c r := by
  rintro ⟨same, -, -⟩
  have short := congrArg List.length same
  simp at short

theorem Spaced.ne_nil (h : Spaced ws us) (some : ws ≠ []) : us ≠ [] := by
  cases h with
  | apart _ _ => exact List.cons_ne_nil _ _
  | same _ => exact some

/-- Where the letter of a model is set apart there is none left to be set apart. -/
theorem Spaced.again (h : Spaced ws us) (some : ws ≠ []) (more : List (List Char)) :
    Spaced (us ++ more) (us ++ more) := by
  cases h with
  | apart ws leads =>
    refine .same fun w hw c r => ?_
    cases hw
    exact Leads.not_venus
  | same plain =>
    refine .same fun w hw => plain w ?_
    rwa [List.head?_append_of_ne_nil _ some] at hw

/-- The words of a name are those of its own name. -/
theorem Shown.again (h : Shown ws us) : Shown us us := by
  cases h with
  | blank =>
    refine .plain (List.cons_ne_nil _ _) (fun vs w n whole some => ?_) (.same ?_)
    · have short := congrArg List.length whole
      simp [some] at short
    · rintro w hw c r ⟨same, -, -⟩
      cases hw
      cases same
  | @version ws us w n some version spaced =>
    refine .plain (by simp) (fun vs v m whole _ => ?_) (spaced.again some _)
    obtain ⟨-, last⟩ := List.append_inj' whole rfl
    cases last
    exact not_version_parenthesis
  | plain some other spaced =>
    have again := spaced.again some []
    rw [List.append_nil] at again
    refine .plain (spaced.ne_nil some) (fun vs w n whole more => ?_) again
    cases spaced with
    | same _ => exact other vs w n whole more
    | @apart v r c rest leads =>
      rcases List.eq_nil_or_concat' rest with rfl | ⟨rest, u, rfl⟩
      · have whole : ["Venus".toList] ++ [c :: r] = vs ++ [w] := whole
        cases (List.append_inj' whole rfl).2
        exact leads.not_version
      · have whole : ("Venus".toList :: (c :: r) :: rest) ++ [u] = vs ++ [w] := whole
        cases (List.append_inj' whole rfl).2
        exact other (v :: rest) w n rfl (List.cons_ne_nil _ _)

theorem filled_of_trimmed (h : Trimmed s) (filled : s ≠ []) : words s ≠ [] :=
  Text.words_ne_nil filled fun c hc => h c (.inl hc)

/-- Without a version to be found, the last word is none or nothing stands before it. -/
theorem plain_of_splitVersion? (h : Trimmed s) (noFeed : '\n' ∉ s) (none : splitVersion? s = none)
    (whole : words s = vs ++ [w]) (some : vs ≠ []) : ¬ Version w n := by
  intro version
  rcases cut_at_last h with solid | ⟨b, c, v, rfl, hc, token, filled⟩
  · cases s with
    | nil => simp [Text.words_nil] at whole
    | cons c s =>
      have token : Token (c :: s) := ⟨List.cons_ne_nil c s, solid⟩
      have whole : [] ++ [c :: s] = vs ++ [w] := token.words.symm.trans whole
      exact some (List.append_inj' whole rfl).1.symm
  · rw [Text.words_append_blank hc, token.words] at whole
    obtain ⟨-, same⟩ := List.append_inj' whole rfl
    cases same
    have feed : '\n' ∉ trimEnd b := fun feed => noFeed (List.mem_append_left _ (mem_trimEnd feed))
    have found := (splitVersion?_append hc token.whole).mpr ⟨rfl, filled, feed, version⟩
    rw [none] at found
    cases found

/-- The words of a name that has a version at its end. -/
theorem words_of_splitVersion? (h : Trimmed s) (found : splitVersion? s = some (a, n)) :
    ∃ w, Version w n ∧ words s = words a ++ [w] ∧ a ≠ [] ∧ ∀ c ∈ a.head?, isBlank c = false := by
  rcases cut_at_last h with solid | ⟨b, c, w, rfl, hc, token, filled⟩
  · rw [splitVersion?_token solid] at found
    cases found
  · obtain ⟨rfl, -, -, version⟩ := (splitVersion?_append hc token.whole).mp found
    refine ⟨w, version, ?_, filled, fun d hd => h d (.inl ?_)⟩
    · rw [Text.words_append_blank hc, token.words, Text.words_trimEnd]
    · obtain ⟨gap, whole, -⟩ := Text.exists_trimEnd b
      rw [whole, List.append_assoc, List.head?_append_of_ne_nil _ filled]
      exact hd

/-- A name is made of words, and they are the right ones. -/
theorem exists_shown (noFeed : '\n' ∉ trimChars s) : ∃ us, Shown (words s) us ∧
    (∀ u ∈ us, Token u) ∧ us ≠ [] ∧ displayName (String.ofList s) = String.ofList (joinWords us) := by
  have trimmed := Text.trimmed_trimChars s
  unfold displayName
  rw [String.toList_ofList, ← Text.words_trimChars s]
  generalize trimChars s = raw at noFeed trimmed ⊢
  dsimp only
  by_cases blank : raw = []
  · subst blank
    have token : Token "Device".toList := by decide
    exact ⟨["Device".toList], .blank, List.forall_mem_singleton.mpr token, List.cons_ne_nil _ _, rfl⟩
  · rw [if_neg (by simpa using blank)]
    cases found : splitVersion? raw with
    | none =>
      have spaced := spaced_words fun c hc => trimmed c (.inl hc)
      have filled := filled_of_trimmed trimmed blank
      exact ⟨words (spaceModel raw),
        .plain filled (fun vs w n => plain_of_splitVersion? trimmed noFeed found) spaced,
        fun u => Text.token_of_mem_words, spaced.ne_nil filled, rfl⟩
    | some p =>
      obtain ⟨a, n⟩ := p
      obtain ⟨w, version, whole, some, head⟩ := words_of_splitVersion? trimmed found
      have spaced := spaced_words head
      have filled := Text.words_ne_nil some head
      rw [whole]
      refine ⟨_, .version filled version spaced, ?_, by simp, ?_⟩
      · rw [List.forall_mem_append, List.forall_mem_singleton]
        refine ⟨fun u => Text.token_of_mem_words, List.cons_ne_nil _ _, ?_⟩
        rw [List.forall_mem_cons, List.forall_mem_append, List.forall_mem_singleton]
        exact ⟨by decide, version.numbering.solid, by decide⟩
      · dsimp only
        unfold joinWords
        rw [Text.intercalate_concat (spaced.ne_nil filled)]
        congr 1
        simp

/-- The name of a type in which no line feed stands between other characters. Its words are the words
of the type: a version at the end goes into parentheses without its mark, and the letter of a model is
set apart. Nothing in it is idle, and it is its own name. -/
theorem displayName_shown {s : String} (noFeed : '\n' ∉ trimChars s.toList) :
    (∃ us, (∀ vs, Shown (words s.toList) vs ↔ vs = us) ∧
      (displayName s).toList = [' '].intercalate us) ∧
    ((∀ c ∈ s.toList, isBlank c = true) → displayName s = "Device") ∧
    Text.Neat (displayName s).toList ∧
    displayName (displayName s) = displayName s := by
  obtain ⟨us, shown, tokens, filled, name⟩ := exists_shown noFeed
  rw [String.ofList_toList] at name
  have text : (displayName s).toList = [' '].intercalate us := by
    rw [name, String.toList_ofList, joinWords]
  have neat := Text.neat_intercalate filled tokens
  refine ⟨⟨us, fun vs => ⟨fun h => h.unique shown, fun same => same ▸ shown⟩, text⟩, fun blank => ?_,
    text ▸ neat, ?_⟩
  · rw [Text.words_blanks blank] at shown
    rw [name, shown.unique .blank]
    rfl
  · have calm : '\n' ∉ trimChars (displayName s).toList := by
      rw [text, neat.trimmed.trimChars]
      exact fun feed => absurd (neat.spaces '\n' feed (by decide)) (by decide)
    obtain ⟨vs, shown', -, -, name'⟩ := exists_shown calm
    rw [text, Text.words_intercalate tokens] at shown'
    rw [String.ofList_toList, shown'.unique shown.again, ← name] at name'
    exact name'

/-- A model with a version, spread out. -/
theorem displayName_shown_venus : '\n' ∉ trimChars "\tVenusA \r v3.0\n".toList ∧
    displayName "\tVenusA \r v3.0\n" = "Venus A (3.0)" ∧
    displayName "Venus A (3.0)" = "Venus A (3.0)" := by
  have noFeed : '\n' ∉ trimChars "\tVenusA \r v3.0\n".toList := by decide +kernel
  have name : displayName "\tVenusA \r v3.0\n" = "Venus A (3.0)" := by decide +kernel
  obtain ⟨-, -, -, again⟩ := displayName_shown noFeed
  rw [name] at again
  exact ⟨noFeed, name, again⟩

end Identity
end BatteryLink
