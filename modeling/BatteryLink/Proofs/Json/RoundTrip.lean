import BatteryLink.Json.Writer
import BatteryLink.Proofs.Replies
import BatteryLink.Proofs.Setting
/-!
Reading undoes writing. What is written is in ASCII, and every value that is made of whole numbers,
truth values, texts, lists and dictionaries comes back from its text as it was.
-/
namespace BatteryLink

open Text (Symbol Symbols units16 not_surrogate_of_valid)

/-- Values without fractions and lone surrogates. The keys of their dictionaries are texts, each
there once. -/
inductive Value.Plain : Value → Prop
  | none : Plain none
  | bool (b : Bool) : Plain (bool b)
  | int (i : Int) : Plain (int i)
  | text (s : String) : Plain (text s)
  | list {items : List Value} : (∀ v ∈ items, Plain v) → Plain (list items)
  | dict {members : List (String × Value)} : (members.map (·.1)).Nodup →
      (∀ m ∈ members, Plain m.2) → Plain (dict (members.map fun (n, v) => (text n, v)))

theorem Value.Plain.empty : (Value.dict []).Plain := @dict [] List.nodup_nil (List.forall_mem_nil _)

namespace Text.Symbols

theorem ofString_append (s t : String) : ofString (s ++ t) = ofString s ++ ofString t := by
  simp [ofString]

theorem ofString_ofList (s : List Char) : ofString (String.ofList s) = s.map .char := by
  rw [ofString, String.toList_ofList]

end Text.Symbols

namespace Value

theorem ofSymbols_ofString (s : String) : ofSymbols (Symbols.ofString s) = text s := by
  rw [ofSymbols, Symbols.ofString, Symbols.chars?_map_char]
  exact congrArg text String.ofList_toList

end Value

namespace Json

open Grammar

theorem hexDigit?_hexDigit {d : Nat} (h : d < 16) :
    hexDigit? (.char (Text.Quoted.hexDigit d)) = some d := by
  revert d
  decide

theorem code_unitEscape {n : Nat} (h : n < 0x10000) : Code ((unitEscape n).map .char) n := by
  have digit : ∀ m, hexDigit? (.char (Text.Quoted.hexDigit (m % 16))) = some (m % 16) :=
    fun m => hexDigit?_hexDigit (Nat.mod_lt _ (by decide))
  refine Code.digits ?_
  simp only [hexCode?, digit, bind, Option.bind, pure, Option.some.injEq]
  omega

/-- A character has an escape of its own, stands for itself, or is written as its units. -/
theorem writeChar_cases (c : Char) :
    (∃ x, writeChar c = ['\\', x] ∧ x.toNat < 128 ∧ shortEscape? (.char x) = some c) ∨
    (writeChar c = [c] ∧ c.toNat < 128 ∧ isPlain (.char c) = true ∧ c ≠ '"' ∧ c ≠ '\\') ∨
    writeChar c = (units16 c.toNat).flatMap unitEscape := by
  have code : ∀ n, c.toNat = n → Char.ofNat n = c := fun n h => h ▸ Char.ofNat_toNat c
  unfold writeChar
  split
  · next mark =>
    simp only [Bool.or_eq_true, decide_eq_true_eq] at mark
    rcases mark with rfl | rfl <;> exact .inl ⟨_, rfl, by decide, rfl⟩
  next mark =>
  simp only [Bool.or_eq_true, decide_eq_true_eq, not_or] at mark
  split
  · next shown =>
    simp only [Bool.and_eq_true, decide_eq_true_eq] at shown
    exact .inr (.inl ⟨rfl, by omega, decide_eq_true shown.1, mark⟩)
  split
  · next he => exact .inl ⟨'n', rfl, by decide, he ▸ rfl⟩
  split
  · next he => exact .inl ⟨'r', rfl, by decide, he ▸ rfl⟩
  split
  · next he => exact .inl ⟨'t', rfl, by decide, he ▸ rfl⟩
  split
  · next he => exact .inl ⟨'b', rfl, by decide, code 8 he ▸ rfl⟩
  split
  · next he => exact .inl ⟨'f', rfl, by decide, code 12 he ▸ rfl⟩
  · exact .inr (.inr rfl)

theorem chars_units {c : Char} {s t : Symbols} (h : Chars s t) :
    Chars (((units16 c.toNat).flatMap unitEscape).map .char ++ s) (.char c :: t) := by
  have proper : Symbol.ofCode c.toNat = .char c := (Symbol.Proper.char c).ofCode_code
  have valid : c.toNat < 0x110000 := (Symbol.Proper.char c).code_lt
  rcases units16_cases valid with ⟨small, units⟩ | ⟨a, b, units, first, second, pair⟩
  · have single := not_surrogate_of_valid (n := c.toNat) c.valid
    rw [units, List.flatMap_singleton, ← proper]
    refine .code (code_unitEscape small) (fun high => ?_) h
    rw [single.1] at high
    cases high
  · have lt := units16_lt valid
    rw [units, List.forall_mem_cons, List.forall_mem_singleton] at lt
    rw [units, ← proper, ← pair]
    simp only [List.flatMap_cons, List.flatMap_nil, List.append_nil, List.map_append]
    exact .pair (code_unitEscape lt.1) first (code_unitEscape lt.2) second h

theorem chars_writeChar (c : Char) {s t : Symbols} (h : Chars s t) :
    Chars ((writeChar c).map .char ++ s) (.char c :: t) := by
  rcases writeChar_cases c with ⟨x, hw, -, short⟩ | ⟨hw, -, plain, quote, mark⟩ | hw <;> rw [hw]
  · exact .short short h
  · exact .plain plain (fun he => quote (Symbol.char.inj he)) (fun he => mark (Symbol.char.inj he)) h
  · exact chars_units h

theorem chars_write (s : List Char) :
    Chars (((s.map .char).flatMap writeSymbol).map .char) (s.map .char) := by
  induction s with
  | nil => exact .nil
  | cons c s ih =>
    rw [List.map_cons, List.flatMap_cons, List.map_append]
    exact chars_writeChar c ih

/-- A text between its quotes. -/
theorem ofString_writeText (s : String) : ∃ body, Symbols.ofString (writeText s) = quoted body ∧
    Chars body (Symbols.ofString s) :=
  ⟨_, by rw [writeText, writeSymbols, Symbols.ofString_ofList, List.map_append]; rfl,
    chars_write s.toList⟩

theorem head_toDigits {n : Nat} (h : (Nat.toDigits 10 n).head? = some '0') : n = 0 := by
  induction n using Nat.strongRecOn with
  | ind n ih =>
    rcases Nat.lt_or_ge n 10 with small | more
    · rw [Nat.toDigits_of_lt_base small] at h
      have digit : ∀ m < 10, [Nat.digitChar m].head? = some '0' → m = 0 := by decide
      exact digit n small h
    · rw [Nat.toDigits_of_base_le (by decide) more,
        List.head?_append_of_ne_nil _ Nat.toDigits_ne_nil] at h
      have none := ih (n / 10) (by omega) h
      omega

/-- A whole number as it is written. -/
def numeral (i : Int) : Numeral where
  negative := decide (i < 0)
  whole := Nat.toDigits 10 i.natAbs
  fraction := []
  exponent := none
  some_digit := Nat.toDigits_ne_nil
  all_digits c hc := Nat.isDigit_of_mem_toDigits (by decide) (by decide) hc
  no_leading_zero h := by rw [head_toDigits h, Nat.toDigits_zero]
  fraction_digits := List.forall_mem_nil _

theorem toList_toString (i : Int) :
    (toString i).toList = (if i < 0 then ['-'] else []) ++ Nat.toDigits 10 i.natAbs := by
  rw [Int.toString_eq_repr, Int.repr_eq_if]
  by_cases h : i < 0
  · rw [if_neg (by omega), if_pos h, String.toList_append, Nat.toList_repr,
      show (-i).toNat = i.natAbs by omega]
    rfl
  · rw [if_pos (by omega), if_neg h, Nat.toList_repr, show i.toNat = i.natAbs by omega]
    rfl

theorem chars_numeral (i : Int) : (numeral i).chars = (toString i).toList := by
  rw [toList_toString]
  simp [Numeral.chars, Numeral.sign, Numeral.fractionChars, Numeral.exponentChars, numeral]

theorem value_numeral (i : Int) : (numeral i).value = .int i := by
  have whole : Reading.digitsValue (Nat.toDigits 10 i.natAbs) = i.natAbs :=
    Nat.ofDigitChars_ten_toDigits
  have sign : Binary64.signed (decide (i < 0)) i.natAbs = i := by
    simp only [Binary64.signed, decide_eq_true_eq]
    split <;> omega
  simp only [Numeral.value, Numeral.isWhole, numeral, List.isEmpty_nil, Option.isNone_none,
    Bool.and_self, if_true, whole, sign]

theorem reads_int {i : Int} {t : String} {room : Nat} (h : Value.intText i = .ok t) :
    Reads room (Symbols.ofString t) (.int i) := by
  unfold Value.intText at h
  split at h
  · cases h
  · next short =>
    cases h
    have read : Reads room _ _ := Reads.number (numeral i)
      ((Nat.length_toDigits_le_iff (by decide) (by decide)).mpr (Nat.lt_of_not_le short))
    rwa [chars_numeral, value_numeral] at read

section
variable {room : Nat}

theorem writeAll_cons {v : Value} {vs : List Value} {ts : List String} :
    writeAll (v :: vs) room = .ok ts ↔
      ∃ t us, writeWithin v room = .ok t ∧ writeAll vs room = .ok us ∧ ts = t :: us := by
  rw [writeAll]
  simp only [bind_eq_ok, Except.ok.injEq]
  constructor
  · rintro ⟨t, ht, us, hus, rfl⟩
    exact ⟨t, us, ht, hus, rfl⟩
  · rintro ⟨t, us, ht, hus, rfl⟩
    exact ⟨t, ht, us, hus, rfl⟩

theorem writeMembers_cons {n : String} {v : Value} {es : List (Value × Value)} {ts : List String} :
    writeMembers ((.text n, v) :: es) room = .ok ts ↔
      ∃ t us, writeWithin v room = .ok t ∧ writeMembers es room = .ok us ∧
        ts = (writeText n ++ ":" ++ t) :: us := by
  rw [writeMembers, memberName_text]
  simp only [bind_eq_ok, Except.ok.injEq]
  constructor
  · rintro ⟨_, rfl, t, ht, us, hus, rfl⟩
    exact ⟨t, us, ht, hus, rfl⟩
  · rintro ⟨t, us, ht, hus, rfl⟩
    exact ⟨_, rfl, t, ht, us, hus, rfl⟩

/-- Members with their names as the keys of a dictionary. -/
def entries (members : List (String × Value)) : List (Value × Value) :=
  members.map fun (n, v) => (.text n, v)

/-- The text of a value, if it has one in some room, is read as that value in the same room. -/
def ComesBack (v : Value) : Prop :=
  ∀ room t, writeWithin v room = .ok t → Reads room (Symbols.ofString t) v

theorem blank_nil : Blank [] := List.forall_mem_nil _

theorem readsItems_writeAll {v : Value} {vs : List Value} {ts : List String}
    (h : writeAll (v :: vs) room = .ok ts) (each : ∀ w ∈ v :: vs, ComesBack w) :
    ReadsItems room (Symbols.ofString (",".intercalate ts)) (v :: vs) := by
  induction vs generalizing v ts with
  | nil =>
    obtain ⟨t, us, ht, hus, rfl⟩ := writeAll_cons.mp h
    cases hus
    rw [String.intercalate_singleton]
    simpa using ReadsItems.last (each v List.mem_cons_self room t ht) blank_nil
  | cons w vs ih =>
    obtain ⟨first, rest⟩ := List.forall_mem_cons.mp each
    obtain ⟨t, us, ht, hus, rfl⟩ := writeAll_cons.mp h
    obtain ⟨t', us', -, -, rfl⟩ := writeAll_cons.mp hus
    rw [String.intercalate_cons_cons, Symbols.ofString_append, Symbols.ofString_append]
    have more := ReadsItems.more (first room t ht) blank_nil blank_nil (ih hus rest)
    rw [List.append_nil] at more
    exact more

theorem readsMember_write {n t : String} {v : Value} (h : Reads room (Symbols.ofString t) v) :
    ReadsMember room (Symbols.ofString (writeText n ++ ":" ++ t)) (Symbols.ofString n, v) := by
  obtain ⟨body, between, chars⟩ := ofString_writeText n
  have written : Symbols.ofString (writeText n ++ ":" ++ t) =
      quoted body ++ [] ++ .char ':' :: [] ++ Symbols.ofString t ++ [] := by
    rw [Symbols.ofString_append, Symbols.ofString_append, between, List.append_nil, List.append_nil]
    rfl
  rw [written]
  exact .entry chars blank_nil blank_nil h blank_nil

/-- Members with their names as the reader sees them. -/
def spelled (members : List (String × Value)) : List (Symbols × Value) :=
  members.map fun (n, v) => (Symbols.ofString n, v)

theorem readsMembers_writeMembers {m : String × Value} {ms : List (String × Value)} {ts : List String}
    (h : writeMembers (entries (m :: ms)) room = .ok ts) (each : ∀ e ∈ m :: ms, ComesBack e.2) :
    ReadsMembers room (Symbols.ofString (",".intercalate ts)) (spelled (m :: ms)) := by
  induction ms generalizing m ts with
  | nil =>
    obtain ⟨t, us, ht, hus, rfl⟩ := writeMembers_cons.mp h
    cases hus
    rw [String.intercalate_singleton]
    exact .last (readsMember_write (each m List.mem_cons_self room t ht))
  | cons e ms ih =>
    obtain ⟨first, rest⟩ := List.forall_mem_cons.mp each
    obtain ⟨t, us, ht, hus, rfl⟩ := writeMembers_cons.mp h
    obtain ⟨t', us', -, -, rfl⟩ := writeMembers_cons.mp hus
    rw [String.intercalate_cons_cons, Symbols.ofString_append, Symbols.ofString_append]
    exact .more (readsMember_write (first room t ht)) blank_nil (ih hus rest)

/-- What takes a level has a text only if there is room for one. -/
theorem write_list {vs : List Value} {t : String} (h : writeWithin (.list vs) room = .ok t) :
    ∃ left ts, room = left + 1 ∧ writeAll vs left = .ok ts ∧ t = "[" ++ ",".intercalate ts ++ "]" := by
  cases room with
  | zero =>
    rw [writeWithin] at h
    cases h
  | succ left =>
    rw [writeWithin] at h
    obtain ⟨ts, hts, he⟩ := bind_eq_ok.mp h
    cases he
    exact ⟨left, ts, rfl, hts, rfl⟩

theorem write_dict {es : List (Value × Value)} {t : String} (h : writeWithin (.dict es) room = .ok t) :
    ∃ left ts, room = left + 1 ∧ writeMembers es left = .ok ts ∧
      t = "\x7b" ++ ",".intercalate ts ++ "\x7d" := by
  cases room with
  | zero =>
    rw [writeWithin] at h
    cases h
  | succ left =>
    rw [writeWithin] at h
    obtain ⟨ts, hts, he⟩ := bind_eq_ok.mp h
    cases he
    exact ⟨left, ts, rfl, hts, rfl⟩

end

theorem insert_fresh {key v : Value} {es : List (Value × Value)}
    (h : ∀ e ∈ es, e.1.sameKey key = false) : Value.insert key v es = es ++ [(key, v)] := by
  induction es with
  | nil => rfl
  | cons e es ih =>
    obtain ⟨other, rest⟩ := List.forall_mem_cons.mp h
    rw [Value.insert, other, ih rest]
    rfl

theorem extend_spelled {earlier : List (Value × Value)} {members : List (String × Value)}
    (once : (members.map (·.1)).Nodup)
    (fresh : ∀ e ∈ earlier, ∀ m ∈ members, e.1.sameKey (.text m.1) = false) :
    extend earlier (spelled members) = earlier ++ entries members := by
  induction members generalizing earlier with
  | nil => exact (List.append_nil _).symm
  | cons m ms ih =>
    obtain ⟨other, once⟩ := List.nodup_cons.mp once
    have added : Value.insert (.ofSymbols (Symbols.ofString m.1)) m.2 earlier =
        earlier ++ [(.text m.1, m.2)] := by
      rw [Value.ofSymbols_ofString]
      exact insert_fresh fun e he => fresh e he m List.mem_cons_self
    have step : extend earlier (spelled (m :: ms)) =
        extend (Value.insert (.ofSymbols (Symbols.ofString m.1)) m.2 earlier) (spelled ms) := rfl
    rw [step, added, ih once, List.append_assoc]
    · rfl
    · intro e he n hn
      rcases List.mem_append.mp he with he | he
      · exact fresh e he n (List.mem_cons_of_mem m hn)
      · rw [List.mem_singleton.mp he]
        have apart : n.1 ≠ m.1 := fun same => other (List.mem_map.mpr ⟨n, hn, same⟩)
        simpa [Value.sameKey, Value.plainText?] using apart

/-- The induction is on how the value is built. -/
theorem comesBack_of_plain {v : Value} (h : v.Plain) : ComesBack v := by
  intro room t ht
  induction h generalizing room t with
  | none =>
    cases ht
    exact .word (by simp [wordValues])
  | bool b =>
    cases ht
    cases b <;> exact .word (by simp [wordValues])
  | int i => exact reads_int ht
  | text s =>
    cases ht
    obtain ⟨body, between, chars⟩ := ofString_writeText s
    rw [between, ← Value.ofSymbols_ofString]
    exact .string chars
  | @list items each ih =>
    obtain ⟨left, ts, rfl, hts, rfl⟩ := write_list ht
    cases items with
    | nil =>
      cases hts
      exact .emptyList blank_nil
    | cons v vs =>
      have items := readsItems_writeAll hts ih
      rw [Symbols.ofString_append, Symbols.ofString_append]
      exact .list blank_nil items
  | @dict members once each ih =>
    obtain ⟨left, ts, rfl, hts, rfl⟩ := write_dict ht
    have read : extend [] (spelled members) = entries members :=
      extend_spelled once (List.forall_mem_nil _)
    cases members with
    | nil =>
      cases hts
      exact .emptyDict blank_nil
    | cons v vs =>
      have whole := Reads.dict blank_nil (readsMembers_writeMembers hts ih)
      rw [read] at whole
      rw [Symbols.ofString_append, Symbols.ofString_append]
      exact whole

/-- Texts that take one octet for each character. -/
def Ascii (s : String) : Prop := ∀ c ∈ s.toList, c.toNat < 128

instance : DecidablePred Ascii := fun s => List.decidableBAll (fun c : Char => c.toNat < 128) s.toList

theorem Ascii.append {s t : String} (hs : Ascii s) (ht : Ascii t) : Ascii (s ++ t) := by
  intro c hc
  rw [String.toList_append, List.mem_append] at hc
  exact hc.elim (hs c) (ht c)

theorem ascii_intercalate {ts : List String} (h : ∀ t ∈ ts, Ascii t) : Ascii (",".intercalate ts) := by
  induction ts with
  | nil => exact List.forall_mem_nil _
  | cons t ts ih =>
    obtain ⟨first, rest⟩ := List.forall_mem_cons.mp h
    cases ts with
    | nil => exact first
    | cons u us =>
      rw [String.intercalate_cons_cons]
      exact (first.append (by decide)).append (ih rest)

theorem ascii_hex (width n : Nat) : ∀ c ∈ Text.Quoted.hex width n, c.toNat < 128 := by
  have digit : ∀ d < 16, (Text.Quoted.hexDigit d).toNat < 128 := by decide
  induction width generalizing n with
  | zero => exact List.forall_mem_nil _
  | succ width ih =>
    rw [Text.Quoted.hex, List.forall_mem_append, List.forall_mem_singleton]
    exact ⟨ih _, digit _ (Nat.mod_lt _ (by decide))⟩

theorem ascii_unitEscape (n : Nat) : ∀ c ∈ unitEscape n, c.toNat < 128 := by
  rw [unitEscape, List.forall_mem_append]
  exact ⟨List.forall_mem_cons.mpr ⟨by decide, List.forall_mem_singleton.mpr (by decide)⟩, ascii_hex 4 n⟩

theorem ascii_writeChar (c : Char) : ∀ x ∈ writeChar c, x.toNat < 128 := by
  rcases writeChar_cases c with ⟨x, hw, small, -⟩ | ⟨hw, small, -⟩ | hw <;> rw [hw]
  · simpa using small
  · simpa using small
  · intro x hx
    obtain ⟨n, -, hx⟩ := List.mem_flatMap.mp hx
    exact ascii_unitEscape n x hx

theorem ascii_writeSymbols (s : Symbols) : Ascii (writeSymbols s) := by
  have body : ∀ c ∈ s.flatMap writeSymbol, c.toNat < 128 := by
    intro c hc
    obtain ⟨x, -, hc⟩ := List.mem_flatMap.mp hc
    cases x with
    | char x => exact ascii_writeChar x c hc
    | surrogate n => exact ascii_unitEscape n c hc
  intro c hc
  rw [writeSymbols, String.toList_ofList, List.cons_append, List.mem_cons, List.mem_append] at hc
  rcases hc with rfl | hc | hc
  · decide
  · exact body c hc
  · rw [List.mem_singleton.mp hc]
    decide

theorem ascii_intText {i : Int} {t : String} (h : Value.intText i = .ok t) : Ascii t := by
  unfold Value.intText at h
  split at h
  · cases h
  · cases h
    have digit : ∀ c ∈ Nat.toDigits 10 i.natAbs, c.toNat < 128 := by
      intro c hc
      have range := Nat.isDigit_of_mem_toDigits (by decide) (by decide) hc
      simp only [Char.isDigit, Bool.and_eq_true, decide_eq_true_eq] at range
      exact Nat.lt_of_le_of_lt range.2 (by decide)
    intro c hc
    rw [toList_toString, List.mem_append] at hc
    refine hc.elim (fun hc => ?_) (digit c)
    split at hc
    · rw [List.mem_singleton.mp hc]
      decide
    · cases hc

theorem ascii_writeAll {room : Nat} {vs : List Value} {ts : List String}
    (h : writeAll vs room = .ok ts) (each : ∀ v ∈ vs, ∀ t, writeWithin v room = .ok t → Ascii t) :
    ∀ t ∈ ts, Ascii t := by
  induction vs generalizing ts with
  | nil =>
    cases h
    exact List.forall_mem_nil _
  | cons v vs ih =>
    obtain ⟨first, rest⟩ := List.forall_mem_cons.mp each
    obtain ⟨t, us, ht, hus, rfl⟩ := writeAll_cons.mp h
    exact List.forall_mem_cons.mpr ⟨first t ht, ih hus rest⟩

theorem ascii_writeMembers {room : Nat} {ms : List (String × Value)} {ts : List String}
    (h : writeMembers (entries ms) room = .ok ts)
    (each : ∀ m ∈ ms, ∀ t, writeWithin m.2 room = .ok t → Ascii t) : ∀ t ∈ ts, Ascii t := by
  induction ms generalizing ts with
  | nil =>
    cases h
    exact List.forall_mem_nil _
  | cons m ms ih =>
    obtain ⟨first, rest⟩ := List.forall_mem_cons.mp each
    obtain ⟨t, us, ht, hus, rfl⟩ := writeMembers_cons.mp h
    have member : Ascii (writeText m.1 ++ ":" ++ t) :=
      ((ascii_writeSymbols _).append (by decide)).append (first t ht)
    exact List.forall_mem_cons.mpr ⟨member, ih hus rest⟩

theorem ascii_of_plain {v : Value} (h : v.Plain) : ∀ room t, writeWithin v room = .ok t → Ascii t := by
  induction h with
  | none =>
    rintro _ _ ⟨⟩
    decide
  | bool b =>
    rintro _ _ ⟨⟩
    cases b <;> decide
  | int i => exact fun _ t ht => ascii_intText ht
  | text s =>
    rintro _ _ ⟨⟩
    exact ascii_writeSymbols _
  | list each ih =>
    intro room t ht
    obtain ⟨left, ts, rfl, hts, rfl⟩ := write_list ht
    have items := ascii_writeAll hts fun v hv => ih v hv left
    exact (Ascii.append (by decide) (ascii_intercalate items)).append (by decide)
  | dict once each ih =>
    intro room t ht
    obtain ⟨left, ts, rfl, hts, rfl⟩ := write_dict ht
    have members := ascii_writeMembers hts fun m hm => ih m hm left
    exact (Ascii.append (by decide) (ascii_intercalate members)).append (by decide)

theorem toList_loop (b : ByteArray) (i : Nat) (r : List UInt8) :
    ByteArray.toList.loop b i r = r.reverse ++ b.data.toList.drop i := by
  fun_induction ByteArray.toList.loop b i r with
  | case1 i r h ih =>
    have inside : i < b.data.toList.length := h
    have octet : b.get! i = b.data.toList[i] := by simp [ByteArray.get!, getElem!_pos b.data i h]
    rw [ih, List.reverse_cons, List.append_assoc, octet, List.singleton_append,
      List.getElem_cons_drop]
  | case2 i r h =>
    have outside : b.data.toList.length ≤ i := Nat.le_of_not_lt h
    rw [List.drop_eq_nil_of_le outside, List.append_nil]

theorem octets_ascii {t : String} (h : Ascii t) :
    t.toUTF8.toList = Encoding.utf8.write (Symbols.ofString t) := by
  have octets : t.toUTF8.toList = t.toList.flatMap String.utf8EncodeChar := by
    rw [String.toUTF8_eq_toByteArray, ByteArray.toList, toList_loop, ← String.utf8Encode_toList,
      List.utf8Encode, List.toList_data_toByteArray]
    rfl
  have single : ∀ c ∈ t.toList, String.utf8EncodeChar c = octets8 c.toNat := by
    intro c hc
    have small := h c hc
    have code : c.val.toNat = c.toNat := rfl
    rw [octets8, if_pos small]
    unfold String.utf8EncodeChar
    dsimp only
    rw [if_pos (by omega)]
    rfl
  rw [octets, Encoding.write, Symbols.ofString, List.flatMap_map]
  exact List.flatMap_congr single

theorem decodeText_ascii {t : String} {x y : Symbol} {r : Symbols} (h : Ascii t)
    (starts : Symbols.ofString t = x :: y :: r) (hx : IsAscii x) (hy : IsAscii y) :
    decodeText t.toUTF8.toList = .ok (Symbols.ofString t) := by
  have proper : ∀ x ∈ Symbols.ofString t, x.Proper := by
    intro x hx
    obtain ⟨c, -, rfl⟩ := List.mem_map.mp hx
    exact .char c
  have announced : Encoding.detect (Encoding.utf8.write (Symbols.ofString t)) = .utf8 := by
    rw [starts]
    exact detect_write hx hy .utf8
  rw [octets_ascii h]
  exact decodeText_iff.mpr (spells_write announced proper nofun)

theorem readSymbols_write {v : Value} (h : v.Plain) {t : String} (ht : write v = .ok t) :
    readSymbols (Symbols.ofString t) = .ok v := by
  have framed := (comesBack_of_plain h _ t ht).framed blank_nil blank_nil
  rwa [List.append_nil] at framed

/-- The octets of a dictionary that is not empty announce UTF-8. -/
theorem read_write {m : String × Value} {ms : List (String × Value)}
    (h : (Value.dict (entries (m :: ms))).Plain) {t : String}
    (ht : write (.dict (entries (m :: ms))) = .ok t) :
    read t.toUTF8.toList = .ok (.dict (entries (m :: ms))) := by
  have starts : ∃ r, Symbols.ofString t = .char '\x7b' :: .char '"' :: r := by
    obtain ⟨_, _, -, hts, rfl⟩ := write_dict ht
    obtain ⟨u, us, -, -, rfl⟩ := writeMembers_cons.mp hts
    obtain ⟨body, between, -⟩ := ofString_writeText m.1
    cases us <;>
      simp only [String.intercalate_singleton, String.intercalate_cons_cons, Symbols.ofString_append,
        between, quoted, List.cons_append, List.append_assoc] <;> exact ⟨_, rfl⟩
  obtain ⟨r, starts⟩ := starts
  have mark : ∀ c, c = '\x7b' ∨ c = '"' → IsAscii (.char c) := by
    rintro c (rfl | rfl) <;> exact ⟨by decide, by decide⟩
  rw [read, decodeText_ascii (ascii_of_plain h _ t ht) starts (mark _ (.inl rfl)) (mark _ (.inr rfl))]
  dsimp only
  rw [readSymbols_write h ht]

end Json
end BatteryLink
