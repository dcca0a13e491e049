import BatteryLink.Proofs.Json.Nesting
import BatteryLink.Proofs.Json.Strings
/-!
Texts are read exactly as the grammar has them, as long as no whole number in them is too long to be
read at all and there is room for their levels.
-/
namespace BatteryLink.Json

open BatteryLink.Text (Symbol Symbols)
open Grammar

theorem skipSpace_append {b : Symbols} (h : Blank b) (s : Symbols) :
    skipSpace (b ++ s) = skipSpace s :=
  List.dropWhile_append_of_pos h

theorem skipSpace_cons {x : Symbol} (h : isSpace x = false) (s : Symbols) :
    skipSpace (x :: s) = x :: s :=
  List.dropWhile_cons_of_neg (by simp [h])

/-- What is skipped is blank. -/
theorem skipSpace_eq (s : Symbols) : ∃ b, Blank b ∧ s = b ++ skipSpace s :=
  ⟨s.takeWhile isSpace, fun _ hx => List.mem_takeWhile_imp hx, List.takeWhile_append_dropWhile.symm⟩

theorem skipSpace_length_le (s : Symbols) : (skipSpace s).length ≤ s.length :=
  (List.dropWhile_suffix isSpace).length_le

theorem afterWord?_eq_some {w : String} {s rest : Symbols} (h : afterWord? w s = some rest) :
    s = Symbols.ofString w ++ rest := by
  unfold afterWord? at h
  split at h
  · next pre =>
    obtain ⟨t, rfl⟩ := List.isPrefixOf_iff_prefix.mp pre
    have length : (Symbols.ofString w).length = w.length := by
      rw [Symbols.ofString, List.length_map, String.length_toList]
    cases h
    rw [← length, List.drop_left]
  · cases h

theorem denotes_of_scalar {s rest : Symbols} {v : Value} (h : scalar s = .ok (v, rest)) :
    ∃ t, s = t ++ rest ∧ Denotes t v ∧ Even t := by
  unfold scalar at h
  split at h
  · next r hr =>
    cases h
    obtain ⟨⟨w, u⟩, hw, hv⟩ := List.exists_of_findSome?_eq_some hr
    obtain ⟨t, ht, he⟩ := Option.map_eq_some_iff.mp hv
    cases he
    exact ⟨_, afterWord?_eq_some ht, .word hw, even_word _ hw⟩
  · split at h
    · cases h
    · next whole fraction exponent r hp =>
      obtain ⟨u, hu, he⟩ := bind_eq_ok.mp h
      cases he
      obtain ⟨n, split, rfl, rfl, rfl⟩ := numeral_of_numberParts? hp
      rw [n.numberValue_chars] at hu
      split at hu
      · cases hu
      · cases hu
        exact ⟨_, split, .number n, n.even⟩

/-- What values, elements and members come to with some fuel is in the grammar, and fits in the room
that there was. -/
structure Sound (fuel : Nat) : Prop where
  value : ∀ {room s v rest}, Json.value fuel room s = .ok (v, rest) →
    ∃ t, s = t ++ rest ∧ Denotes t v ∧ nesting t ≤ room
  elements : ∀ {room s vs rest}, Json.elements fuel room s = .ok (vs, rest) →
    ∃ t, s = t ++ .char ']' :: rest ∧ Items t vs ∧ nesting t ≤ room
  members : ∀ {room es s entries rest}, Json.members fuel room es s = .ok (entries, rest) →
    ∃ t ms, s = t ++ .char '\x7d' :: rest ∧ Members t ms ∧ entries = extend es ms ∧ nesting t ≤ room

namespace Sound

variable {fuel room : Nat} {s rest : Symbols}

theorem next_value (ih : Sound fuel) {v : Value} (h : Json.value (fuel + 1) room s = .ok (v, rest)) :
    ∃ t, s = t ++ rest ∧ Denotes t v ∧ nesting t ≤ room := by
  unfold Json.value at h
  split at h
  · obtain ⟨⟨t, r⟩, ht, he⟩ := bind_eq_ok.mp h
    cases he
    obtain ⟨body, rfl, chars⟩ := stringTail_iff.mp ht
    exact ⟨quoted body, by simp [quoted], .string chars, chars.even.nesting_le⟩
  · next r =>
    cases room with
    | zero => cases h
    | succ room =>
      obtain ⟨b, blank, split⟩ := skipSpace_eq r
      dsimp only at h
      split at h
      · next hs =>
        cases h
        rw [hs] at split
        exact ⟨.char '[' :: b ++ [.char ']'], by rw [split]; simp, .emptyList blank,
          blank.even.balanced.nesting_between_le (.inl rfl) (.inl rfl) blank.even.nesting_le⟩
      · obtain ⟨⟨items, r'⟩, hitems, he⟩ := bind_eq_ok.mp h
        cases he
        obtain ⟨body, inside, items, fits⟩ := ih.elements hitems
        rw [inside] at split
        exact ⟨.char '[' :: (b ++ body) ++ [.char ']'], by rw [split]; simp, .list blank items,
          (blank.even.balanced.append items.balanced).nesting_between_le (.inl rfl) (.inl rfl)
            ((blank.even.nesting_append _).trans_le fits)⟩
  · next r =>
    cases room with
    | zero => cases h
    | succ room =>
      obtain ⟨b, blank, split⟩ := skipSpace_eq r
      dsimp only at h
      split at h
      · next hs =>
        cases h
        rw [hs] at split
        exact ⟨.char '\x7b' :: b ++ [.char '\x7d'], by rw [split]; simp, .dict (.empty blank),
          blank.even.balanced.nesting_between_le (.inr rfl) (.inr rfl) blank.even.nesting_le⟩
      · obtain ⟨⟨entries, r'⟩, hentries, he⟩ := bind_eq_ok.mp h
        cases he
        obtain ⟨body, ms, inside, members, rfl, fits⟩ := ih.members hentries
        rw [inside] at split
        exact ⟨.char '\x7b' :: (b ++ body) ++ [.char '\x7d'], by rw [split]; simp,
          .dict (.members blank members),
          (blank.even.balanced.append members.balanced).nesting_between_le (.inr rfl) (.inr rfl)
            ((blank.even.nesting_append _).trans_le fits)⟩
  · obtain ⟨t, split, denotes, even⟩ := denotes_of_scalar h
    exact ⟨t, split, denotes, even.nesting_le⟩

theorem next_elements (ih : Sound fuel) {vs : List Value}
    (h : Json.elements (fuel + 1) room s = .ok (vs, rest)) :
    ∃ t, s = t ++ .char ']' :: rest ∧ Items t vs ∧ nesting t ≤ room := by
  unfold Json.elements at h
  obtain ⟨⟨v, r⟩, hv, goes⟩ := bind_eq_ok.mp h
  obtain ⟨t, rfl, denotes, fits⟩ := ih.value hv
  obtain ⟨b, blank, split⟩ := skipSpace_eq r
  have before := denotes.balanced.append blank.even.balanced
  have first : nesting (t ++ b) ≤ room :=
    denotes.balanced.nesting_append_le.mpr ⟨fits, blank.even.nesting_le⟩
  dsimp only at goes
  split at goes
  · next hs =>
    cases goes
    rw [hs] at split
    exact ⟨t ++ b, by rw [split]; simp, .last denotes blank, first⟩
  · next r' hs =>
    obtain ⟨⟨vs, r''⟩, hvs, he⟩ := bind_eq_ok.mp goes
    cases he
    obtain ⟨b', blank', split'⟩ := skipSpace_eq r'
    obtain ⟨body, more, items, others⟩ := ih.elements hvs
    have comma : Even (.char ',' :: b') := blank'.even_comma
    have until_comma : nesting (t ++ b ++ .char ',' :: b') ≤ room :=
      before.nesting_append_le.mpr ⟨first, comma.nesting_le⟩
    rw [hs, split', more] at split
    exact ⟨t ++ b ++ .char ',' :: b' ++ body, by rw [split]; simp, .more denotes blank blank' items,
      (before.append comma.balanced).nesting_append_le.mpr ⟨until_comma, others⟩⟩
  · cases goes

theorem next_members (ih : Sound fuel) {es entries : List (Value × Value)}
    (h : Json.members (fuel + 1) room es s = .ok (entries, rest)) :
    ∃ t ms, s = t ++ .char '\x7d' :: rest ∧ Members t ms ∧ entries = extend es ms ∧ nesting t ≤ room := by
  unfold Json.members at h
  split at h
  · obtain ⟨⟨name, r⟩, hname, named⟩ := bind_eq_ok.mp h
    obtain ⟨k, rfl, chars⟩ := stringTail_iff.mp hname
    obtain ⟨b, blank, split⟩ := skipSpace_eq r
    dsimp only at named
    split at named
    · next r' hs =>
      obtain ⟨⟨v, q⟩, hv, goes⟩ := bind_eq_ok.mp named
      obtain ⟨b', blank', split'⟩ := skipSpace_eq r'
      obtain ⟨t, inside, denotes, fits⟩ := ih.value hv
      obtain ⟨b'', blank'', split''⟩ := skipSpace_eq q
      have member : Member (quoted k ++ b ++ .char ':' :: b' ++ t ++ b'') (name, v) :=
        .entry chars blank blank' denotes blank''
      have colon : Even (quoted k ++ b ++ .char ':' :: b') := chars.even_name blank blank'
      have first : nesting (quoted k ++ b ++ .char ':' :: b' ++ t ++ b'') ≤ room :=
        (colon.balanced.append denotes.balanced).nesting_append_le.mpr
          ⟨(colon.nesting_append t).trans_le fits, blank''.even.nesting_le⟩
      rw [hs, split', inside] at split
      dsimp only at goes
      split at goes
      · next hs' =>
        cases goes
        rw [hs'] at split''
        refine ⟨_, _, ?_, .last member, rfl, first⟩
        rw [split, split'']
        simp [quoted]
      · next q' hs' =>
        obtain ⟨b₃, blank₃, split₃⟩ := skipSpace_eq q'
        obtain ⟨body, ms, more, members, rfl, others⟩ := ih.members goes
        have comma : Even (.char ',' :: b₃) := blank₃.even_comma
        rw [hs', split₃, more] at split''
        refine ⟨_, _, ?_, .more member blank₃ members, rfl,
          (member.balanced.append comma.balanced).nesting_append_le.mpr
            ⟨member.balanced.nesting_append_le.mpr ⟨first, comma.nesting_le⟩, others⟩⟩
        rw [split, split'']
        simp [quoted]
      · cases goes
    · cases named
  · cases h

end Sound

/-- The induction is on the fuel that values, elements and members share. -/
theorem sound_nested (fuel : Nat) : Sound fuel := by
  induction fuel with
  | zero =>
    refine ⟨fun h => ?_, fun h => ?_, fun h => ?_⟩
    · unfold value at h; cases h
    · unfold elements at h; cases h
    · unfold members at h; cases h
  | succ fuel ih => exact ⟨ih.next_value, ih.next_elements, ih.next_members⟩

theorem wordValue?_word {w : String} {v : Value} (h : (w, v) ∈ wordValues) (rest : Symbols) :
    wordValue? (Symbols.ofString w ++ rest) = some (v, rest) := by
  have all : ∀ p ∈ wordValues, wordValue? (Symbols.ofString p.1 ++ rest) = some (p.2, rest) := by
    simp only [wordValues, List.forall_mem_cons]
    exact ⟨rfl, rfl, rfl, rfl, rfl, rfl, List.forall_mem_nil _⟩
  exact all (w, v) h

/-- A number begins with a digit, after a minus perhaps. -/
theorem Grammar.Numeral.head (n : Numeral) (rest : Symbols) :
    ∃ c r, Text.isAsciiDigit c = true ∧ (n.chars.map .char ++ rest = .char c :: r ∨
      n.chars.map .char ++ rest = .char '-' :: .char c :: r) := by
  obtain ⟨c, cs, hw, digit⟩ := n.whole_cons
  refine ⟨c, (cs ++ n.fractionChars ++ n.exponentChars).map .char ++ rest, digit, ?_⟩
  unfold Numeral.chars Numeral.sign
  rw [hw]
  cases n.negative with
  | true => exact .inr (by simp)
  | false => exact .inl (by simp)

theorem ne_of_digit {c x : Char} (digit : Text.isAsciiDigit c = true)
    (other : Text.isAsciiDigit x = false) : c ≠ x := by
  rintro rfl
  exact Bool.false_ne_true (other.symm.trans digit)

theorem wordValue?_number {c : Char} {s r : Symbols} (digit : Text.isAsciiDigit c = true)
    (h : s = .char c :: r ∨ s = .char '-' :: .char c :: r) : wordValue? s = none := by
  have n := (ne_of_digit (x := 'n') digit rfl).symm
  have t := (ne_of_digit (x := 't') digit rfl).symm
  have f := (ne_of_digit (x := 'f') digit rfl).symm
  have N := (ne_of_digit (x := 'N') digit rfl).symm
  have I := (ne_of_digit (x := 'I') digit rfl).symm
  have minus := (ne_of_digit (x := '-') digit rfl).symm
  rcases h with rfl | rfl <;>
    simp [wordValue?, wordValues, afterWord?, Symbols.ofString, n, t, f, N, I, minus]

theorem scalar_word {w : String} {v : Value} (h : (w, v) ∈ wordValues) (rest : Symbols) :
    scalar (Symbols.ofString w ++ rest) = .ok (v, rest) := by
  unfold scalar
  rw [wordValue?_word h]

theorem scalar_number (n : Numeral) {rest : Symbols} (ended : begins isMore rest = false)
    (short : n.whole.length ≤ Reading.maxIntDigits) :
    scalar (n.chars.map .char ++ rest) = .ok (n.value, rest) := by
  obtain ⟨c, r, digit, head⟩ := n.head rest
  unfold scalar
  rw [wordValue?_number digit head, numberParts?_numeral n ended]
  dsimp only
  rw [n.numberValue_chars, if_neg fun h => Nat.not_lt.mpr short h.2]
  rfl

/-- Symbols that a value begins with which is neither a word nor a number. -/
def opensNested : Symbol → Bool
  | .char c => c == '"' || c == '[' || c == '\x7b'
  | .surrogate _ => false

theorem value_scalar {x : Symbol} {s : Symbols} (h : opensNested x = false) (fuel room : Nat) :
    value (fuel + 1) room (x :: s) = scalar (x :: s) := by
  unfold value
  split
  · next hs => cases hs; cases h
  · next hs => cases hs; cases h
  · next hs => cases hs; cases h
  · rfl

/-- A symbol that a value may begin with. -/
def Leads (x : Symbol) : Prop := isSpace x = false ∧ x ≠ .char ']'

theorem leads_digit {c : Char} (digit : Text.isAsciiDigit c = true) :
    Leads (.char c) ∧ opensNested (.char c) = false := by
  have other : ∀ x, Text.isAsciiDigit x = false → c ≠ x := fun x => ne_of_digit digit
  refine ⟨⟨?_, fun h => other ']' rfl (by cases h; rfl)⟩, ?_⟩
  · simp [isSpace, other ' ' rfl, other '\t' rfl, other '\n' rfl, other '\r' rfl]
  · simp [opensNested, other '"' rfl, other '[' rfl, other '\x7b' rfl]

theorem words_lead : ∀ p ∈ wordValues, ∃ x r, Symbols.ofString p.1 = x :: r ∧ Leads x ∧
    opensNested x = false := by
  intro p hp
  simp only [wordValues, List.mem_cons, List.not_mem_nil, or_false] at hp
  rcases hp with rfl | rfl | rfl | rfl | rfl | rfl <;> exact ⟨_, _, rfl, ⟨rfl, by decide⟩, rfl⟩

theorem Grammar.Numeral.leads (n : Numeral) : ∃ x r, n.chars.map .char = x :: r ∧ Leads x ∧
    opensNested x = false := by
  obtain ⟨c, r, digit, head⟩ := n.head []
  rw [List.append_nil] at head
  rcases head with h | h
  · exact ⟨_, _, h, leads_digit digit⟩
  · exact ⟨_, _, h, ⟨rfl, nofun⟩, rfl⟩

theorem Grammar.Denotes.leads {t : Symbols} {v : Value} (h : Denotes t v) :
    ∃ x r, t = x :: r ∧ Leads x := by
  cases h with
  | string _ => exact ⟨_, _, rfl, rfl, nofun⟩
  | word hw =>
    obtain ⟨x, r, h, leads, -⟩ := words_lead _ hw
    exact ⟨x, r, h, leads⟩
  | number n =>
    obtain ⟨x, r, h, leads, -⟩ := n.leads
    exact ⟨x, r, h, leads⟩
  | emptyList _ => exact ⟨_, _, rfl, rfl, nofun⟩
  | list _ _ => exact ⟨_, _, rfl, rfl, nofun⟩
  | dict h => cases h <;> exact ⟨_, _, rfl, rfl, nofun⟩

theorem Grammar.Members.leads {t : Symbols} {ms : List (Symbols × Value)} (h : Members t ms) :
    ∃ r, t = .char '"' :: r := by
  cases h with
  | last member | more member _ _ =>
    cases member
    exact ⟨_, rfl⟩

theorem skipSpace_leads {x : Symbol} {b s r : Symbols} (h : Blank b) (hs : s = x :: r) (leads : Leads x) :
    skipSpace (b ++ s) = s := by
  rw [skipSpace_append h, hs, skipSpace_cons leads.1]

theorem isMore_blank {c : Char} (h : isSpace (.char c) = true) : isMore c = false := by
  simp only [isSpace, Bool.or_eq_true, decide_eq_true_eq] at h
  rcases h with ((rfl | rfl) | rfl) | rfl <;> rfl

/-- After blanks no more of a number comes. -/
theorem begins_blank {b rest : Symbols} (h : Blank b) (next : begins isMore rest = false) :
    begins isMore (b ++ rest) = false := by
  cases b with
  | nil => exact next
  | cons x b =>
    cases x with
    | surrogate n => rfl
    | char c => exact isMore_blank (h _ List.mem_cons_self)

theorem skipSpace_mark {b : Symbols} {c : Char} (h : Blank b) (mark : isSpace (.char c) = false)
    (rest : Symbols) : skipSpace (b ++ .char c :: rest) = .char c :: rest := by
  rw [skipSpace_append h, skipSpace_cons mark]

section
variable {r rest : Symbols} {x : Symbol}

theorem value_string (fuel room : Nat) (r : Symbols) : value (fuel + 1) room (.char '"' :: r) = (do
    let (t, rest) ← stringTail (r.length + 1) none r
    .ok (.ofSymbols t, rest)) := by
  rw [value]
  rfl

theorem value_emptyList (h : skipSpace r = .char ']' :: rest) (fuel room : Nat) :
    value (fuel + 1) (room + 1) (.char '[' :: r) = .ok (.list [], rest) := by
  rw [value, h]
  rfl

theorem value_list (h : skipSpace r = x :: rest) (other : x ≠ .char ']') (fuel room : Nat) :
    value (fuel + 1) (room + 1) (.char '[' :: r) = (do
      let (items, rest) ← elements fuel room (x :: rest)
      .ok (.list items, rest)) := by
  rw [value, h]
  split
  · next he => exact absurd (List.cons.inj he).1 other
  · rfl

theorem value_emptyDict (h : skipSpace r = .char '\x7d' :: rest) (fuel room : Nat) :
    value (fuel + 1) (room + 1) (.char '\x7b' :: r) = .ok (.dict [], rest) := by
  rw [value, h]
  rfl

theorem value_dict (h : skipSpace r = x :: rest) (other : x ≠ .char '\x7d') (fuel room : Nat) :
    value (fuel + 1) (room + 1) (.char '\x7b' :: r) = (do
      let (entries, rest) ← members fuel room [] (x :: rest)
      .ok (.dict entries, rest)) := by
  rw [value, h]
  split
  · next he => exact absurd (List.cons.inj he).1 other
  · rfl

end

/-- With this fuel the reader gets past the member at the front, and comes to `left`. -/
def Passes (fuel room : Nat) (s : Symbols) (m : Symbols × Value) (left : Symbols) : Prop :=
  ∃ r r' r'', s = .char '"' :: r ∧ stringTail (r.length + 1) none r = .ok (m.1, r') ∧
    skipSpace r' = .char ':' :: r'' ∧ value fuel room (skipSpace r'') = .ok (m.2, left)

namespace Passes

variable {fuel room : Nat} {s left rest : Symbols} {m : Symbols × Value}

theorem last (h : Passes fuel room s m left) (ended : skipSpace left = .char '\x7d' :: rest)
    (es : List (Value × Value)) :
    members (fuel + 1) room es s = .ok (Value.insert (.ofSymbols m.1) m.2 es, rest) := by
  obtain ⟨r, r', r'', rfl, named, colon, given⟩ := h
  rw [members]
  simp only [List.length_cons, named, colon, given, ended, bind, Except.bind]

theorem more (h : Passes fuel room s m left) (comma : skipSpace left = .char ',' :: rest)
    (es : List (Value × Value)) :
    members (fuel + 1) room es s =
      members fuel room (Value.insert (.ofSymbols m.1) m.2 es) (skipSpace rest) := by
  obtain ⟨r, r', r'', rfl, named, colon, given⟩ := h
  rw [members]
  simp only [List.length_cons, named, colon, given, comma, bind, Except.bind]

end Passes

/-- Texts that are read as a value wherever they stand, with enough fuel and if no more of a number
follows. -/
structure Reads (room : Nat) (t : Symbols) (v : Value) : Prop where
  leads : ∃ x r, t = x :: r ∧ Leads x
  value : ∀ {fuel rest}, begins isMore rest = false → 2 * t.length ≤ fuel →
    Json.value fuel room (t ++ rest) = .ok (v, rest)

structure ReadsItems (room : Nat) (t : Symbols) (vs : List Value) : Prop where
  leads : ∃ x r, t = x :: r ∧ Leads x
  elements : ∀ {fuel rest}, 2 * t.length + 1 ≤ fuel →
    Json.elements fuel room (t ++ .char ']' :: rest) = .ok (vs, rest)

/-- What comes after a member is a mark, after blanks perhaps. -/
structure ReadsMember (room : Nat) (t : Symbols) (m : Symbols × Value) : Prop where
  leads : ∃ r, t = .char '"' :: r
  passes : ∀ {fuel c rest}, isSpace (.char c) = false → isMore c = false → 2 * t.length ≤ fuel →
    ∃ left, Passes fuel room (t ++ .char c :: rest) m left ∧ skipSpace left = .char c :: rest

structure ReadsMembers (room : Nat) (t : Symbols) (ms : List (Symbols × Value)) : Prop where
  leads : ∃ r, t = .char '"' :: r
  members : ∀ {es fuel rest}, 2 * t.length + 1 ≤ fuel →
    Json.members fuel room es (t ++ .char '\x7d' :: rest) = .ok (extend es ms, rest)

section
variable {room : Nat} {b b' b'' s t r : Symbols} {v : Value} {vs : List Value} {m : Symbols × Value}
  {ms : List (Symbols × Value)}

/-- A text that is not empty has fuel. -/
theorem Reads.of_succ (leads : ∃ x r, t = x :: r ∧ Leads x)
    (h : ∀ {fuel rest}, begins isMore rest = false → 2 * t.length ≤ fuel + 1 →
      Json.value (fuel + 1) room (t ++ rest) = .ok (v, rest)) : Reads room t v := by
  refine ⟨leads, fun {fuel rest} ended enough => ?_⟩
  cases fuel with
  | zero =>
    obtain ⟨x, r, rfl, -⟩ := leads
    simp at enough
  | succ fuel => exact h ended enough

theorem Reads.string (chars : Chars s t) : Reads room (quoted s) (.ofSymbols t) := by
  refine .of_succ ⟨_, _, rfl, rfl, nofun⟩ fun {fuel rest} _ _ => ?_
  have split : quoted s ++ rest = .char '"' :: (s ++ .char '"' :: rest) := by simp [quoted]
  rw [split, value_string, stringTail_iff.mpr ⟨s, rfl, chars⟩]
  rfl

theorem Reads.word {w : String} (hw : (w, v) ∈ wordValues) : Reads room (Symbols.ofString w) v := by
  obtain ⟨x, r, head, leads, plain⟩ := words_lead _ hw
  refine .of_succ ⟨x, r, head, leads⟩ fun {fuel rest} _ _ => ?_
  rw [← scalar_word hw rest, head]
  exact value_scalar plain fuel room

theorem Reads.number (n : Numeral) (short : n.whole.length ≤ Reading.maxIntDigits) :
    Reads room (n.chars.map .char) n.value := by
  obtain ⟨x, r, head, leads, plain⟩ := n.leads
  refine .of_succ ⟨x, r, head, leads⟩ fun {fuel rest} ended _ => ?_
  rw [← scalar_number n ended short, head]
  exact value_scalar plain fuel room

theorem Reads.emptyList (blank : Blank b) : Reads (room + 1) (.char '[' :: b ++ [.char ']']) (.list []) := by
  refine .of_succ ⟨_, _, rfl, rfl, nofun⟩ fun {fuel rest} _ _ => ?_
  have split : (.char '[' :: b ++ [.char ']']) ++ rest = .char '[' :: (b ++ .char ']' :: rest) := by simp
  rw [split, value_emptyList (skipSpace_mark blank rfl rest)]

theorem Reads.list (blank : Blank b) (items : ReadsItems room s vs) :
    Reads (room + 1) (.char '[' :: b ++ s ++ [.char ']']) (.list vs) := by
  refine .of_succ ⟨_, _, rfl, rfl, nofun⟩ fun {fuel rest} _ enough => ?_
  obtain ⟨x, r, rfl, leads⟩ := items.leads
  have split : (.char '[' :: b ++ x :: r ++ [.char ']']) ++ rest =
      .char '[' :: (b ++ x :: (r ++ .char ']' :: rest)) := by simp
  simp only [List.length_cons, List.length_append, List.length_nil] at enough
  have read : Json.elements fuel room (x :: (r ++ .char ']' :: rest)) = .ok (vs, rest) :=
    items.elements (by simp; omega)
  rw [split, value_list (skipSpace_leads blank rfl leads) leads.2, read]
  rfl

theorem Reads.emptyDict (blank : Blank b) :
    Reads (room + 1) (.char '\x7b' :: b ++ [.char '\x7d']) (.dict []) := by
  refine .of_succ ⟨_, _, rfl, rfl, nofun⟩ fun {fuel rest} _ _ => ?_
  have split : (.char '\x7b' :: b ++ [.char '\x7d']) ++ rest =
      .char '\x7b' :: (b ++ .char '\x7d' :: rest) := by simp
  rw [split, value_emptyDict (skipSpace_mark blank rfl rest)]

theorem Reads.dict (blank : Blank b) (members : ReadsMembers room s ms) :
    Reads (room + 1) (.char '\x7b' :: b ++ s ++ [.char '\x7d']) (.dict (extend [] ms)) := by
  refine .of_succ ⟨_, _, rfl, rfl, nofun⟩ fun {fuel rest} _ enough => ?_
  obtain ⟨r, rfl⟩ := members.leads
  have split : (.char '\x7b' :: b ++ .char '"' :: r ++ [.char '\x7d']) ++ rest =
      .char '\x7b' :: (b ++ .char '"' :: (r ++ .char '\x7d' :: rest)) := by simp
  simp only [List.length_cons, List.length_append, List.length_nil] at enough
  have read : Json.members fuel room [] (.char '"' :: (r ++ .char '\x7d' :: rest)) =
      .ok (extend [] ms, rest) := members.members (by simp; omega)
  rw [split, value_dict (skipSpace_mark blank rfl _) (by simp), read]
  rfl

theorem ReadsItems.last (h : Reads room s v) (blank : Blank b) : ReadsItems room (s ++ b) [v] := by
  obtain ⟨x, r, hs, leads⟩ := h.leads
  refine ⟨⟨x, r ++ b, by rw [hs]; rfl, leads⟩, fun {fuel rest} enough => ?_⟩
  obtain ⟨fuel, rfl⟩ := Nat.exists_eq_add_one_of_ne_zero (Nat.ne_zero_of_lt enough)
  rw [List.length_append] at enough
  unfold Json.elements
  rw [List.append_assoc, h.value (begins_blank blank rfl) (by omega)]
  simp only [bind, Except.bind, skipSpace_mark blank (c := ']') rfl]

theorem ReadsItems.more (h : Reads room s v) (blank : Blank b) (blank' : Blank b')
    (items : ReadsItems room r vs) : ReadsItems room (s ++ b ++ .char ',' :: b' ++ r) (v :: vs) := by
  obtain ⟨x, q, hs, leads⟩ := h.leads
  refine ⟨⟨x, q ++ b ++ .char ',' :: b' ++ r, by rw [hs]; simp, leads⟩, fun {fuel rest} enough => ?_⟩
  obtain ⟨fuel, rfl⟩ := Nat.exists_eq_add_one_of_ne_zero (Nat.ne_zero_of_lt enough)
  have split : (s ++ b ++ .char ',' :: b' ++ r) ++ .char ']' :: rest =
      s ++ (b ++ .char ',' :: (b' ++ (r ++ .char ']' :: rest))) := by simp
  obtain ⟨y, p, hr, leads'⟩ := items.leads
  have skipped := skipSpace_leads blank' (s := r ++ .char ']' :: rest) (by rw [hr]; rfl) leads'
  simp only [List.length_cons, List.length_append] at enough
  have others : Json.elements fuel room (r ++ .char ']' :: rest) = .ok (vs, rest) := items.elements (by omega)
  unfold Json.elements
  rw [split, h.value (begins_blank blank rfl) (by omega)]
  simp only [bind, Except.bind, skipSpace_mark blank (c := ',') rfl, skipped, others]

theorem ReadsMember.entry {k name : Symbols} (chars : Chars k name) (blank : Blank b) (blank' : Blank b')
    (h : Reads room s v) (blank'' : Blank b'') :
    ReadsMember room (quoted k ++ b ++ .char ':' :: b' ++ s ++ b'') (name, v) := by
  refine ⟨⟨_, rfl⟩, fun {fuel c rest} mark ended enough => ?_⟩
  have split : (quoted k ++ b ++ .char ':' :: b' ++ s ++ b'') ++ .char c :: rest =
      .char '"' :: (k ++ .char '"' :: (b ++ .char ':' :: (b' ++ (s ++ (b'' ++ .char c :: rest))))) := by
    simp [quoted]
  simp only [quoted, List.length_cons, List.length_append, List.length_nil] at enough
  obtain ⟨x, r, hs, leads⟩ := h.leads
  have ends : begins isMore (b'' ++ .char c :: rest) = false := begins_blank blank'' ended
  have given : Json.value fuel room (s ++ (b'' ++ .char c :: rest)) = .ok (v, b'' ++ .char c :: rest) :=
    h.value ends (by omega)
  rw [← skipSpace_leads blank' (s := s ++ (b'' ++ .char c :: rest)) (by rw [hs]; rfl) leads] at given
  exact ⟨_, ⟨_, _, _, split, stringTail_iff.mpr ⟨k, rfl, chars⟩, skipSpace_mark blank rfl _, given⟩,
    skipSpace_mark blank'' mark rest⟩

theorem ReadsMembers.last (h : ReadsMember room s m) : ReadsMembers room s [m] := by
  refine ⟨h.leads, fun {es fuel rest} enough => ?_⟩
  obtain ⟨fuel, rfl⟩ := Nat.exists_eq_add_one_of_ne_zero (Nat.ne_zero_of_lt enough)
  obtain ⟨left, passes, ended⟩ : ∃ left, Passes fuel room (s ++ .char '\x7d' :: rest) m left ∧
      skipSpace left = .char '\x7d' :: rest := h.passes rfl rfl (by omega)
  rw [passes.last ended]
  rfl

theorem ReadsMembers.more (h : ReadsMember room s m) (blank : Blank b) (members : ReadsMembers room r ms) :
    ReadsMembers room (s ++ .char ',' :: b ++ r) (m :: ms) := by
  obtain ⟨q, hs⟩ := h.leads
  refine ⟨⟨q ++ .char ',' :: b ++ r, by rw [hs]; simp⟩, fun {es fuel rest} enough => ?_⟩
  obtain ⟨fuel, rfl⟩ := Nat.exists_eq_add_one_of_ne_zero (Nat.ne_zero_of_lt enough)
  have split : (s ++ .char ',' :: b ++ r) ++ .char '\x7d' :: rest =
      s ++ .char ',' :: (b ++ (r ++ .char '\x7d' :: rest)) := by simp
  obtain ⟨p, hr⟩ := members.leads
  have skipped := skipSpace_leads blank (s := r ++ .char '\x7d' :: rest) (x := .char '"')
    (by rw [hr]; rfl) ⟨rfl, nofun⟩
  simp only [List.length_cons, List.length_append] at enough
  obtain ⟨left, passes, comma⟩ : ∃ left,
      Passes fuel room (s ++ .char ',' :: (b ++ (r ++ .char '\x7d' :: rest))) m left ∧
      skipSpace left = .char ',' :: (b ++ (r ++ .char '\x7d' :: rest)) := h.passes rfl rfl (by omega)
  rw [split, passes.more comma, skipped, members.members (by omega)]
  rfl

end

namespace Grammar

mutual

/-- The induction is on how the text is built. Its parts are modest as it is itself. -/
theorem Denotes.reads {s : Symbols} {v : Value} : Denotes s v → ∀ {room}, Modest room s → Reads room s v
  | .string chars, _, _ => .string chars
  | .word hw, _, _ => .word hw
  | .number n, _, h => .number n h.whole
  | .emptyList blank, _, h => by
    obtain ⟨room, rfl, -⟩ := h.of_between blank.even.balanced (.inl rfl) (.inl rfl)
    exact .emptyList blank
  | .list blank items, _, h => by
    obtain ⟨room, rfl, inside⟩ := h.inside blank items.balanced (.inl rfl) (.inl rfl)
    exact .list blank (items.reads inside)
  | .dict object, _, h => object.reads h

theorem Items.reads {s : Symbols} {vs : List Value} : Items s vs → ∀ {room}, Modest room s →
    ReadsItems room s vs
  | .last h blank, _, modest => .last (h.reads (modest.of_append h.balanced).1) blank
  | .more h blank blank' items, _, modest => by
    obtain ⟨before, others⟩ := modest.of_comma (h.balanced.append blank.even.balanced) blank'
    exact .more (h.reads (before.of_append h.balanced).1) blank blank' (items.reads others)

theorem Object.reads {s : Symbols} {ms : List (Symbols × Value)} : Object s ms → ∀ {room},
    Modest room s → Reads room s (.dict (extend [] ms))
  | .empty blank, _, h => by
    obtain ⟨room, rfl, -⟩ := h.of_between blank.even.balanced (.inr rfl) (.inr rfl)
    exact .emptyDict blank
  | .members blank members, _, h => by
    obtain ⟨room, rfl, inside⟩ := h.inside blank members.balanced (.inr rfl) (.inr rfl)
    exact .dict blank (members.reads inside)

theorem Members.reads {s : Symbols} {ms : List (Symbols × Value)} : Members s ms → ∀ {room},
    Modest room s → ReadsMembers room s ms
  | .last member, _, h => .last (member.reads h)
  | .more member blank members, _, h => by
    obtain ⟨first, others⟩ := h.of_comma member.balanced blank
    exact .more (member.reads first) blank (members.reads others)

theorem Member.reads {s : Symbols} {m : Symbols × Value} : Member s m → ∀ {room}, Modest room s →
    ReadsMember room s m
  | .entry chars blank blank' h blank'', _, modest => by
    have name := (chars.even_name blank blank').balanced
    have value := ((modest.of_append (name.append h.balanced)).1.of_append name).2
    exact .entry chars blank blank' (h.reads value) blank''

end

end Grammar
end BatteryLink.Json
