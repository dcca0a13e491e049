import BatteryLink.Proofs.Json.Octets
import BatteryLink.Proofs.Json.Values
/-!
Whole texts. A text that is short enough is read as the grammar has it, unless it is nested too deep.
No other fault arises on the way: the only one that could is about a whole number that is too long.
-/
namespace BatteryLink.Json

open BatteryLink.Text (Symbol Symbols)
open Grammar

/-- A reading that comes to its end, tells what is wrong with the text, or finds that it is too deep,
which is so only if `deep` holds. -/
def Judges {α : Type} (deep : Prop) (x : Except ReadError α) : Prop :=
  ∀ f, x = .error (.fault f) → deep ∧ ∃ doing, f = .tooDeep doing

namespace Judges

variable {α β : Type} {deep : Prop}

theorem ok (a : α) : Judges deep (.ok a : Except ReadError α) := nofun

theorem problem (p : Problem) (left : Nat) :
    Judges deep (.error (.problem p left) : Except ReadError α) := nofun

theorem fail (p : Problem) (rest : Symbols) : Judges deep (Json.fail p rest : Except ReadError α) :=
  problem p _

theorem tooDeep (h : deep) (kind : String) : Judges deep (Json.tooDeep kind : Except ReadError α) := by
  rintro _ ⟨⟩
  exact ⟨h, _, rfl⟩

theorem imp {deeper : Prop} {x : Except ReadError α} (hx : Judges deeper x) (h : deeper → deep) :
    Judges deep x :=
  fun f hf => (hx f hf).imp_left h

theorem bind {x : Except ReadError α} {g : α → Except ReadError β} (hx : Judges deep x)
    (hg : ∀ a, x = .ok a → Judges deep (g a)) : Judges deep (x >>= g) := by
  intro f h
  rcases bind_eq_error.mp h with h | ⟨a, ha, h⟩
  · exact hx f h
  · exact hg a ha f h

end Judges

theorem judges_stringTail (deep : Prop) (opening : Nat) (high : Option Nat) (s : Symbols) :
    Judges deep (stringTail opening high s) := by
  fun_induction stringTail opening high s <;>
    first
      | exact .ok _
      | exact .fail _ _
      | exact .problem _ _
      | assumption
      | exact Judges.bind (by assumption) fun _ _ => .ok _

theorem judges_scalar {deep : Prop} {s : Symbols} (short : s.length ≤ Reading.maxIntDigits) :
    Judges deep (scalar s) := by
  unfold scalar
  split
  · exact .ok _
  · split
    · exact .fail _ _
    · next whole fraction exponent rest hp =>
      obtain ⟨n, rfl, rfl, rfl, rfl⟩ := numeral_of_numberParts? hp
      have le : n.whole.length ≤ Reading.maxIntDigits := by
        simp only [Numeral.chars, List.length_append, List.length_map] at short
        omega
      rw [n.numberValue_chars, if_neg fun h => Nat.not_lt.mpr le h.2]
      exact .ok _

theorem length_lt_of_skipSpace {s q : Symbols} {x : Symbol} (h : skipSpace s = x :: q) :
    (skipSpace q).length < s.length := by
  have skipped := skipSpace_length_le s
  rw [h, List.length_cons] at skipped
  exact Nat.lt_of_le_of_lt (skipSpace_length_le q) skipped

/-- What is left after a value is no longer than the text, and the text is as deep as what is left,
since the value is in the grammar. -/
theorem after_value {fuel room : Nat} {s rest : Symbols} {v : Value}
    (h : value fuel room s = .ok (v, rest)) :
    rest.length ≤ s.length ∧ ∀ {room}, Deep room rest → Deep room s := by
  obtain ⟨t, rfl, denotes, -⟩ := (sound_nested fuel).value h
  exact ⟨by simp, fun deep => deep.append denotes.balanced⟩

theorem Deep.skipped {room : Nat} {s : Symbols} (h : Deep room (skipSpace s)) : Deep room s := by
  obtain ⟨b, blank, split⟩ := skipSpace_eq s
  rw [split]
  exact h.append blank.even.balanced

/-- What comes after a comma or a colon. -/
theorem Deep.marked {room : Nat} {s r : Symbols} {x : Symbol} (h : Deep room (skipSpace r))
    (split : skipSpace s = x :: r) (flat : Flat x) : Deep room s := by
  have mark : Even [x] := even_of_flat (List.forall_mem_singleton.mpr flat)
  exact (split ▸ h.skipped.append mark.balanced : Deep room (skipSpace s)).skipped

/-- With some fuel short texts are read without a fault, unless they are deeper than there is room. -/
structure Judging (fuel : Nat) : Prop where
  value : ∀ {room} {s : Symbols}, s.length ≤ Reading.maxIntDigits →
    Judges (Deep room s) (Json.value fuel room s)
  elements : ∀ {room} {s : Symbols}, s.length ≤ Reading.maxIntDigits →
    Judges (Deep room s) (Json.elements fuel room s)
  members : ∀ {room es s}, s.length ≤ Reading.maxIntDigits →
    Judges (Deep room s) (Json.members fuel room es s)

namespace Judging

variable {fuel room : Nat} {s : Symbols}

theorem next_value (ih : Judging fuel) (short : s.length ≤ Reading.maxIntDigits) :
    Judges (Deep room s) (Json.value (fuel + 1) room s) := by
  unfold Json.value
  split
  · exact (judges_stringTail _ _ _ _).bind fun _ _ => .ok _
  · next r =>
    have skipped := skipSpace_length_le r
    rw [List.length_cons] at short
    split
    · exact .tooDeep (deep_zero (.inl rfl)) _
    · split
      · exact .ok _
      · refine Judges.bind (.imp (ih.elements (by omega)) fun deep => ?_) fun _ _ => .ok _
        exact deep.skipped.opened (.inl rfl)
  · next r =>
    have skipped := skipSpace_length_le r
    rw [List.length_cons] at short
    split
    · exact .tooDeep (deep_zero (.inr rfl)) _
    · split
      · exact .ok _
      · refine Judges.bind (.imp (ih.members (by omega)) fun deep => ?_) fun _ _ => .ok _
        exact deep.skipped.opened (.inr rfl)
  · exact judges_scalar short

theorem next_elements (ih : Judging fuel) (short : s.length ≤ Reading.maxIntDigits) :
    Judges (Deep room s) (Json.elements (fuel + 1) room s) := by
  unfold Json.elements
  refine (ih.value short).bind fun p hp => ?_
  obtain ⟨v, r⟩ := p
  obtain ⟨after, above⟩ := after_value hp
  dsimp only
  split
  · exact .ok _
  · next comma =>
    have skipped := length_lt_of_skipSpace comma
    refine Judges.bind (.imp (ih.elements (by omega)) fun deep => ?_) fun _ _ => .ok _
    exact above (deep.marked comma (by decide))
  · exact .fail _ _

theorem next_members (ih : Judging fuel) {es : List (Value × Value)}
    (short : s.length ≤ Reading.maxIntDigits) :
    Judges (Deep room s) (Json.members (fuel + 1) room es s) := by
  unfold Json.members
  split
  · refine (judges_stringTail _ _ _ _).bind fun p hp => ?_
    obtain ⟨name, r⟩ := p
    obtain ⟨body, rfl, chars⟩ := stringTail_iff.mp hp
    have named : ∀ {room}, Deep room r → Deep room (.char '"' :: (body ++ .char '"' :: r)) := by
      intro room deep
      simpa [quoted] using deep.append chars.even.balanced
    simp only [List.length_cons, List.length_append] at short
    dsimp only
    split
    · next colon =>
      have skipped := length_lt_of_skipSpace colon
      refine Judges.bind (.imp (ih.value (by omega)) fun deep => ?_) fun q hq => ?_
      · exact named (deep.marked colon (by decide))
      obtain ⟨v, r'⟩ := q
      obtain ⟨after, above⟩ := after_value hq
      dsimp only
      split
      · exact .ok _
      · next comma =>
        have skipped := length_lt_of_skipSpace comma
        refine .imp (ih.members (by omega)) fun deep => ?_
        exact named ((above (deep.marked comma (by decide))).marked colon (by decide))
      · exact .fail _ _
    · exact .fail _ _
  · exact .fail _ _

end Judging

/-- The induction is on the fuel that values, elements and members share. -/
theorem judges_nested (fuel : Nat) : Judging fuel := by
  induction fuel with
  | zero =>
    refine ⟨fun _ => ?_, fun _ => ?_, fun _ => ?_⟩
    · unfold value; exact .fail _ _
    · unfold elements; exact .fail _ _
    · unfold members; exact .fail _ _
  | succ fuel ih => exact ⟨ih.next_value, ih.next_elements, ih.next_members⟩

theorem judges_readSymbols {s : Symbols} (short : s.length ≤ Reading.maxIntDigits) :
    Judges (Value.maxDepth < nesting s) (readSymbols s) := by
  have whole : Deep Value.maxDepth (skipSpace s) → Value.maxDepth < nesting s := fun deep =>
    (Nat.zero_add _).symm.trans_lt (deep.skipped 0)
  unfold readSymbols
  have first := ((judges_nested (2 * s.length + 2)).value ((skipSpace_length_le s).trans short)).imp whole
  refine first.bind fun p _ => ?_
  obtain ⟨v, rest⟩ := p
  dsimp only
  split
  · exact .ok _
  · exact .fail _ _

theorem skipSpace_eq_nil {s : Symbols} : skipSpace s = [] ↔ Blank s := by
  simp [skipSpace, Blank]

theorem Reads.framed {b t b' : Symbols} {v : Value} (h : Reads Value.maxDepth t v) (blank : Blank b)
    (blank' : Blank b') : readSymbols (b ++ t ++ b') = .ok v := by
  obtain ⟨x, r, ht, leads⟩ := h.leads
  have skipped := skipSpace_leads blank (s := t ++ b') (by rw [ht]; rfl) leads
  have ended : begins isMore b' = false := by
    have none : begins isMore [] = false := rfl
    simpa using begins_blank blank' none
  have read : Json.value (2 * (b ++ t ++ b').length + 2) Value.maxDepth (t ++ b') = .ok (v, b') :=
    h.value ended (by simp only [List.length_append]; omega)
  unfold readSymbols
  rw [List.append_assoc, skipped, ← List.append_assoc, read]
  simp only [bind, Except.bind, skipSpace_eq_nil.mpr blank']

/-- With blanks around it a value is nested as deep as it is. -/
theorem nesting_framed {b t b' : Symbols} (blank : Blank b) (balanced : Balanced t) (blank' : Blank b') :
    nesting (b ++ t ++ b') = nesting t := by
  rw [List.append_assoc, blank.even.nesting_append, balanced.nesting_append, blank'.even.nesting_eq]
  exact Nat.max_eq_left (Nat.zero_le _)

/-- A text is read as a value exactly if the grammar says so and it is not nested too deep. -/
theorem readSymbols_iff {s : Symbols} (short : s.length ≤ Reading.maxIntDigits) {v : Value} :
    readSymbols s = .ok v ↔ Framed Denotes s v ∧ nesting s ≤ Value.maxDepth := by
  constructor
  · intro h
    obtain ⟨⟨u, rest⟩, hu, he⟩ := bind_eq_ok.mp h
    dsimp only at he
    split at he
    · next ended =>
      cases he
      obtain ⟨b, blank, split⟩ := skipSpace_eq s
      obtain ⟨t, inside, denotes, fits⟩ := (sound_nested _).value hu
      have blank' := skipSpace_eq_nil.mp ended
      rw [inside, ← List.append_assoc] at split
      refine ⟨⟨b, t, rest, blank, denotes, blank', split⟩, ?_⟩
      rwa [split, nesting_framed blank denotes.balanced blank']
    · cases he
  · rintro ⟨⟨b, t, b', blank, denotes, blank', rfl⟩, fits⟩
    rw [nesting_framed blank denotes.balanced blank'] at fits
    simp only [List.length_append] at short
    exact (denotes.reads ⟨by omega, fits⟩).framed blank blank'

theorem ofSymbols_ne_dict (s : Symbols) (entries : List (Value × Value)) :
    Value.ofSymbols s ≠ .dict entries := by
  unfold Value.ofSymbols
  split <;> exact nofun

theorem Grammar.Numeral.value_ne_dict (n : Numeral) (entries : List (Value × Value)) :
    n.value ≠ .dict entries := by
  unfold Numeral.value
  split <;> exact nofun

theorem word_ne_dict (entries : List (Value × Value)) : ∀ p ∈ wordValues, p.2 ≠ .dict entries := by
  intro p hp he
  simp only [wordValues, List.mem_cons, List.not_mem_nil, or_false] at hp
  rcases hp with rfl | rfl | rfl | rfl | rfl | rfl <;> cases he

theorem Grammar.Denotes.dict_iff {s : Symbols} {entries : List (Value × Value)} :
    Denotes s (.dict entries) ↔ ∃ ms, Object s ms ∧ entries = extend [] ms := by
  refine ⟨fun h => ?_, fun ⟨ms, object, he⟩ => he ▸ .dict object⟩
  generalize hv : Value.dict entries = v at h
  cases h with
  | string _ => exact absurd hv.symm (ofSymbols_ne_dict _ _)
  | word hw => exact absurd hv.symm (word_ne_dict entries _ hw)
  | number n => exact absurd hv.symm (n.value_ne_dict _)
  | emptyList _ => cases hv
  | list _ _ => cases hv
  | dict object =>
    cases hv
    exact ⟨_, object, rfl⟩

/-- A text is read as a dictionary exactly if it is an object of the grammar and not nested too deep. -/
theorem readSymbols_dict_iff {s : Symbols} (short : s.length ≤ Reading.maxIntDigits)
    {entries : List (Value × Value)} :
    readSymbols s = .ok (.dict entries) ↔
      (∃ ms, Framed Object s ms ∧ entries = extend [] ms) ∧ nesting s ≤ Value.maxDepth := by
  rw [readSymbols_iff short]
  refine and_congr_left' ⟨?_, ?_⟩
  · rintro ⟨b, t, b', blank, denotes, blank', split⟩
    obtain ⟨ms, object, he⟩ := Denotes.dict_iff.mp denotes
    exact ⟨ms, ⟨b, t, b', blank, object, blank', split⟩, he⟩
  · rintro ⟨ms, ⟨b, t, b', blank, object, blank', split⟩, he⟩
    exact ⟨b, t, b', blank, Denotes.dict_iff.mpr ⟨ms, object, he⟩, blank', split⟩

theorem levels_eq {octets : List UInt8} {s : Symbols} (h : Spells octets s) : levels octets = nesting s := by
  rw [levels, decodeText_iff.mpr h]

section
variable {octets : List UInt8} (short : octets.length ≤ Reading.maxIntDigits)
include short

theorem read_dict_iff {entries : List (Value × Value)} : read octets = .ok (.dict entries) ↔
    (∃ s ms, Spells octets s ∧ Framed Object s ms ∧ entries = extend [] ms) ∧
      levels octets ≤ Value.maxDepth := by
  unfold read
  constructor
  · intro h
    split at h
    · cases h
    · next s hs =>
      have spells := decodeText_iff.mp hs
      split at h
      · next hv =>
        cases h
        obtain ⟨⟨ms, object, he⟩, fits⟩ :=
          (readSymbols_dict_iff (spells.length_le.trans short)).mp hv
        exact ⟨⟨s, ms, spells, object, he⟩, levels_eq spells ▸ fits⟩
      · cases h
      · cases h
  · rintro ⟨⟨s, ms, spells, object, he⟩, fits⟩
    rw [levels_eq spells] at fits
    rw [decodeText_iff.mpr spells]
    dsimp only
    rw [(readSymbols_dict_iff (spells.length_le.trans short)).mpr ⟨⟨ms, object, he⟩, fits⟩]

/-- The only fault in reading is that the text is nested too deep. -/
theorem read_fault {f : Fault} (h : read octets = .error (.fault f)) :
    Value.maxDepth < levels octets ∧ ∃ doing, f = .tooDeep doing := by
  unfold read at h
  split at h
  · cases h
  · next s hs =>
    have spells := decodeText_iff.mp hs
    rw [levels_eq spells]
    split at h
    · cases h
    · next hf =>
      cases h
      exact judges_readSymbols (spells.length_le.trans short) _ hf
    · cases h

end

end BatteryLink.Json
