import BatteryLink.Exchange
import BatteryLink.Proofs.Json.Octets
import BatteryLink.Proofs.Json.Texts
import BatteryLink.Proofs.Printable
import BatteryLink.Proofs.Updates
/-!
What becomes of a datagram. It is either a reply with a result, and then the grammar has it so, or it is
refused with its octets; a datagram is too short for anything else to go wrong, unless it is nested too
deep.
-/
namespace BatteryLink

open Text (Symbol Symbols)

namespace Text.Symbols

theorem chars?_eq_some {s : Symbols} {cs : List Char} : chars? s = some cs ↔ s = cs.map .char := by
  refine ⟨fun h => ?_, fun h => h ▸ chars?_map_char cs⟩
  fun_induction chars? s generalizing cs with
  | case1 =>
    cases h
    rfl
  | case2 c r ih =>
    obtain ⟨ds, hr, rfl⟩ := Option.map_eq_some_iff.mp h
    rw [ih hr, List.map_cons]
  | case3 => cases h

theorem ofString_inj {v w : String} : ofString v = ofString w ↔ v = w := by
  refine ⟨fun h => ?_, fun h => h ▸ rfl⟩
  rw [← glyphs_ofString v, h, glyphs_ofString]

end Text.Symbols

namespace Value

theorem ofSymbols_cases (s : Symbols) : (∃ w, s = Symbols.ofString w ∧ ofSymbols s = text w) ∨
    ((∀ w, s ≠ Symbols.ofString w) ∧ ofSymbols s = broken s) := by
  unfold ofSymbols
  cases h : Symbols.chars? s with
  | some cs =>
    refine .inl ⟨String.ofList cs, ?_, rfl⟩
    rw [Symbols.ofString, String.toList_ofList]
    exact Symbols.chars?_eq_some.mp h
  | none =>
    refine .inr ⟨?_, rfl⟩
    rintro w rfl
    rw [Symbols.ofString, Symbols.chars?_map_char] at h
    cases h

theorem plainText?_ofSymbols {s : Symbols} {key : String} :
    (ofSymbols s).plainText? = some key ↔ s = Symbols.ofString key := by
  rcases ofSymbols_cases s with ⟨w, rfl, h⟩ | ⟨other, h⟩
  · rw [h, Symbols.ofString_inj]
    exact Option.some_inj
  · rw [h]
    exact ⟨nofun, fun he => absurd he (other key)⟩

theorem sameKey_ofSymbols {s t : Symbols} : sameKey (ofSymbols s) (ofSymbols t) = true ↔ s = t := by
  rcases ofSymbols_cases s with ⟨w, rfl, h⟩ | ⟨other, h⟩
  · rw [h, sameKey, beq_iff_eq, plainText?_ofSymbols, eq_comm]
  · rcases ofSymbols_cases t with ⟨w', rfl, h'⟩ | ⟨-, h'⟩
    · rw [h, h']
      exact ⟨fun same => by simp [sameKey] at same, fun he => absurd he (other w')⟩
    · rw [h, h', sameKey, beq_iff_eq]

/-- The keys of a dictionary that comes from a JSON text are texts. -/
def TextKeys (entries : List (Value × Value)) : Prop := ∀ e ∈ entries, ∃ t, e.1 = ofSymbols t

theorem TextKeys.insert {entries : List (Value × Value)} (h : TextKeys entries) (name : Symbols) (v : Value) :
    TextKeys (insert (ofSymbols name) v entries) := by
  intro e he
  rcases mem_insert he with he | ⟨-, hk | ⟨w, he⟩⟩
  · exact h e he
  · exact ⟨name, hk⟩
  · obtain ⟨t, ht⟩ := h _ he
    exact ⟨t, ht⟩

theorem get?_cons (t : Symbols) (v : Value) (entries : List (Value × Value)) (key : String) :
    get? key ((ofSymbols t, v) :: entries) =
      if t = Symbols.ofString key then some v else get? key entries := by
  simp only [get?, List.find?_cons]
  by_cases h : t = Symbols.ofString key
  · rw [if_pos h, beq_iff_eq.mpr (plainText?_ofSymbols.mpr h)]
    rfl
  · rw [if_neg h, beq_eq_false_iff_ne.mpr (mt plainText?_ofSymbols.mp h)]

/-- What is found after an entry was added or replaced. -/
theorem get?_insert {entries : List (Value × Value)} (h : TextKeys entries) (name : Symbols) (v : Value)
    (key : String) : get? key (insert (ofSymbols name) v entries) =
      if name = Symbols.ofString key then some v else get? key entries := by
  induction entries with
  | nil => exact get?_cons name v [] key
  | cons e entries ih =>
    obtain ⟨⟨t, ht⟩, rest⟩ := List.forall_mem_cons.mp h
    obtain ⟨k, w⟩ := e
    obtain rfl : k = ofSymbols t := ht
    unfold Value.insert
    split
    · next same =>
      obtain rfl := sameKey_ofSymbols.mp same
      rw [get?_cons, get?_cons]
      split <;> rfl
    · next other =>
      have apart : t ≠ name := mt sameKey_ofSymbols.mpr other
      rw [get?_cons, get?_cons, ih rest]
      split
      · next ht =>
        rw [if_neg fun hn => apart (ht.trans hn.symm)]
      · rfl

end Value

namespace Json

open Grammar

theorem textKeys_extend {es : List (Value × Value)} (h : Value.TextKeys es) (ms : List (Symbols × Value)) :
    Value.TextKeys (extend es ms) := by
  induction ms generalizing es with
  | nil => exact h
  | cons m ms ih => exact ih (h.insert m.1 m.2)

theorem lookup_cons (key : String) (m : Symbols × Value) (ms : List (Symbols × Value)) :
    lookup key (m :: ms) = (lookup key ms).or (if m.1 = Symbols.ofString key then some m.2 else none) := by
  unfold lookup
  rw [List.reverse_cons, List.lookup_append]
  congr 1
  rw [List.lookup_cons, List.lookup_nil]
  by_cases h : m.1 = Symbols.ofString key
  · rw [if_pos h, beq_iff_eq.mpr h.symm]
  · rw [if_neg h, beq_eq_false_iff_ne.mpr (Ne.symm h)]

/-- What a dictionary gives for a name is what the name was given last. -/
theorem get?_extend {es : List (Value × Value)} (h : Value.TextKeys es) (ms : List (Symbols × Value))
    (key : String) : Value.get? key (extend es ms) = (lookup key ms).or (Value.get? key es) := by
  induction ms generalizing es with
  | nil => rfl
  | cons m ms ih =>
    rw [lookup_cons, Option.or_assoc]
    refine (ih (h.insert m.1 m.2)).trans ?_
    rw [Value.get?_insert h]
    congr 1
    split <;> rfl

end Json

namespace Value

variable {room : Nat}

theorem printable_ofSymbols (s : Symbols) : PrintableWithin room (ofSymbols s) := by
  rcases ofSymbols_cases s with ⟨w, -, h⟩ | ⟨-, h⟩
  · rw [h]
    exact printableWithin_plain rfl rfl
  · rw [h]
    exact printableWithin_plain rfl rfl

theorem printable_of_textKeys {es : List (Value × Value)} (keys : TextKeys es)
    (h : ∀ e ∈ es, PrintableWithin room e.2) : PrintableWithin (room + 1) (.dict es) := by
  refine printableWithin_dict.mpr fun e he => ⟨?_, h e he⟩
  obtain ⟨k, hk⟩ := keys e he
  rw [hk]
  exact printable_ofSymbols k

end Value

namespace Json.Grammar

theorem printable_extend {room : Nat} {es : List (Value × Value)}
    (h : ∀ e ∈ es, e.2.PrintableWithin room) {ms : List (Symbols × Value)}
    (hms : ∀ m ∈ ms, m.2.PrintableWithin room) : ∀ e ∈ extend es ms, e.2.PrintableWithin room := by
  induction ms generalizing es with
  | nil => exact h
  | cons m ms ih =>
    obtain ⟨first, rest⟩ := List.forall_mem_cons.mp hms
    refine ih (fun e he => ?_) rest
    rcases Value.mem_insert he with he | ⟨he, -⟩
    · exact h e he
    · rw [he]
      exact first

theorem printable_word {room : Nat} : ∀ p ∈ wordValues, p.2.PrintableWithin room := by
  have plain : ∀ p ∈ wordValues, p.2.nests = false ∧ p.2.asInt? = none := by
    simp only [wordValues, List.forall_mem_cons]
    exact ⟨⟨rfl, rfl⟩, ⟨rfl, rfl⟩, ⟨rfl, rfl⟩, ⟨rfl, rfl⟩, ⟨rfl, rfl⟩, ⟨rfl, rfl⟩, List.forall_mem_nil _⟩
  exact fun p hp => Value.printableWithin_plain (plain p hp).1 (plain p hp).2

theorem Numeral.printable {room : Nat} (n : Numeral) (short : n.whole.length ≤ Reading.maxIntDigits) :
    n.value.PrintableWithin room := by
  unfold Numeral.value
  split
  · have bound : Reading.digitsValue n.whole < 10 ^ Reading.maxIntDigits :=
      Nat.lt_of_lt_of_le (Reading.digitsValue_lt n.all_digits) (Nat.pow_le_pow_right (by decide) short)
    rw [← Binary64.natAbs_signed n.negative (Reading.digitsValue n.whole)] at bound
    exact Value.printableWithin_int.mpr bound
  · exact Value.printableWithin_plain rfl rfl

mutual

/-- What is written takes as many levels as what was read. -/
theorem Denotes.printable {s : Symbols} {v : Value} : Denotes s v → ∀ {room}, Modest room s →
    v.PrintableWithin room
  | .string _, _, _ => Value.printable_ofSymbols _
  | .word hw, _, _ => printable_word _ hw
  | .number n, _, h => n.printable h.whole
  | .emptyList blank, _, h => by
    obtain ⟨room, rfl, -⟩ := h.of_between blank.even.balanced (.inl rfl) (.inl rfl)
    exact Value.printableWithin_list.mpr (List.forall_mem_nil _)
  | .list blank items, _, h => by
    obtain ⟨room, rfl, inside⟩ := h.inside blank items.balanced (.inl rfl) (.inl rfl)
    exact Value.printableWithin_list.mpr (items.printable inside)
  | .dict object, _, h => object.printable h

theorem Items.printable {s : Symbols} {vs : List Value} : Items s vs → ∀ {room}, Modest room s →
    ∀ v ∈ vs, v.PrintableWithin room
  | .last h _, _, modest =>
    List.forall_mem_singleton.mpr (h.printable (modest.of_append h.balanced).1)
  | .more h blank blank' items, _, modest => by
    obtain ⟨before, others⟩ := modest.of_comma (h.balanced.append blank.even.balanced) blank'
    exact List.forall_mem_cons.mpr
      ⟨h.printable (before.of_append h.balanced).1, items.printable others⟩

theorem Object.printable {s : Symbols} {ms : List (Symbols × Value)} : Object s ms → ∀ {room},
    Modest room s → (Value.dict (extend [] ms)).PrintableWithin room
  | .empty blank, _, h => by
    obtain ⟨room, rfl, -⟩ := h.of_between blank.even.balanced (.inr rfl) (.inr rfl)
    exact Value.printableWithin_dict.mpr (List.forall_mem_nil _)
  | .members blank members, _, h => by
    obtain ⟨room, rfl, inside⟩ := h.inside blank members.balanced (.inr rfl) (.inr rfl)
    exact Value.printable_of_textKeys (textKeys_extend (List.forall_mem_nil _) _)
      (printable_extend (List.forall_mem_nil _) (members.printable inside))

theorem Members.printable {s : Symbols} {ms : List (Symbols × Value)} : Members s ms → ∀ {room},
    Modest room s → ∀ m ∈ ms, m.2.PrintableWithin room
  | .last member, _, h => List.forall_mem_singleton.mpr (member.printable h)
  | .more member blank members, _, h => by
    obtain ⟨first, others⟩ := h.of_comma member.balanced blank
    exact List.forall_mem_cons.mpr ⟨member.printable first, members.printable others⟩

theorem Member.printable {s : Symbols} {m : Symbols × Value} : Member s m → ∀ {room}, Modest room s →
    m.2.PrintableWithin room
  | .entry chars blank blank' h _, _, modest => by
    have name := (chars.even_name blank blank').balanced
    exact h.printable ((modest.of_append (name.append h.balanced)).1.of_append name).2

end

end Json.Grammar

namespace Reply

open Json (Spells)
open Json.Grammar

/-- The members of a reply with a result: no error, and a dictionary as the result. -/
def Results (ms : List (Symbols × Value)) (r : Entries) : Prop :=
  (lookup "error" ms = none ∨ lookup "error" ms = some .none) ∧ lookup "result" ms = some (.dict r)

theorem get_extend (ms : List (Symbols × Value)) (key : String) :
    Value.get key (extend [] ms) = (lookup key ms).getD .none := by
  rw [Value.get, Json.get?_extend (List.forall_mem_nil _)]
  cases lookup key ms <;> rfl

variable {payload : List UInt8} {ms : List (Symbols × Value)}

theorem result_iff {r : Entries} : result payload (extend [] ms) = .ok r ↔ Results ms r := by
  unfold result Results
  rw [get_extend, get_extend]
  constructor
  · intro h
    split at h
    · next no_error =>
      split at h
      · next hr =>
        cases h
        refine ⟨?_, ?_⟩
        · cases he : lookup "error" ms with
          | none => exact .inl rfl
          | some v => exact .inr (congrArg some (by rwa [he] at no_error))
        · cases hl : lookup "result" ms with
          | none => rw [hl] at hr; cases hr
          | some v => exact congrArg some (by rwa [hl] at hr)
      · cases h
    · obtain ⟨_, -, h⟩ := bind_eq_ok.mp h
      cases h
  · rintro ⟨no_error | no_error, hr⟩ <;> rw [no_error, hr] <;> rfl

/-- Without a result the reply is refused, since its error can be written out. -/
theorem result_or_refused {members : Entries} (h : ∀ e ∈ members, e.2.Printable) :
    (∃ r, result payload members = .ok r) ∨
      ∃ p, result payload members = .error (.refused ⟨p, payload⟩) := by
  have printable : (Value.get "error" members).Printable := by
    unfold Value.get
    cases he : Value.get? "error" members with
    | none => exact Value.printable_plain rfl rfl
    | some v =>
      obtain ⟨k, hk⟩ := Value.mem_of_get? he
      exact h _ hk
  obtain ⟨t, ht⟩ := Value.printable_iff_display.mp printable
  unfold result
  split
  · split
    · exact .inl ⟨_, rfl⟩
    · exact .inr ⟨_, rfl⟩
  · rw [ht]
    exact .inr ⟨_, rfl⟩

theorem decode_eq_ok {r : Entries} : decode payload = .ok r ↔
    ∃ members, Json.read payload = .ok (.dict members) ∧ result payload members = .ok r := by
  unfold decode
  constructor
  · intro h
    split at h
    · cases h
    · cases h
    · next members hread => exact ⟨members, hread, h⟩
    · cases h
  · rintro ⟨members, hread, h⟩
    rw [hread]
    exact h

section
variable (short : payload.length ≤ Reading.maxIntDigits)
include short

theorem decode_iff {r : Entries} : decode payload = .ok r ↔
    (∃ text ms, Spells payload text ∧ Framed Object text ms ∧ Results ms r) ∧
      Json.levels payload ≤ Value.maxDepth := by
  rw [decode_eq_ok]
  constructor
  · rintro ⟨members, hread, hr⟩
    obtain ⟨⟨text, ms, spells, object, rfl⟩, fits⟩ := (Json.read_dict_iff short).mp hread
    exact ⟨⟨text, ms, spells, object, result_iff.mp hr⟩, fits⟩
  · rintro ⟨⟨text, ms, spells, object, results⟩, fits⟩
    exact ⟨extend [] ms, (Json.read_dict_iff short).mpr ⟨⟨text, ms, spells, object, rfl⟩, fits⟩,
      result_iff.mpr results⟩

/-- All that is read from octets that are not too many can be written out. -/
theorem printable_read {members : Entries} (h : Json.read payload = .ok (.dict members)) :
    (Value.dict members).Printable := by
  obtain ⟨⟨text, ms, spells, ⟨b, t, b', blank, object, blank', rfl⟩, rfl⟩, fits⟩ :=
    (Json.read_dict_iff short).mp h
  rw [Json.levels_eq spells, Json.nesting_framed blank object.balanced blank'] at fits
  have le := spells.length_le.trans short
  simp only [List.length_append] at le
  exact object.printable ⟨by omega, fits⟩

/-- Of what is read, so can the values of a result. -/
theorem printable_decode {r : Entries} (h : decode payload = .ok r) : ∀ e ∈ r, e.2.Printable := by
  obtain ⟨members, hread, hr⟩ := decode_eq_ok.mp h
  unfold result at hr
  split at hr
  · split at hr
    · next found =>
      cases hr
      obtain ⟨k, hk⟩ := Value.mem_of_get? (Value.get?_of_get found nofun)
      exact Value.printable_entry (Value.printable_entry (printable_read short hread) _ hk)
    · cases hr
  · obtain ⟨_, -, hr⟩ := bind_eq_ok.mp hr
    cases hr

/-- A datagram is decoded or refused, unless it is nested too deep. -/
theorem decode_cases : (∃ r, decode payload = .ok r) ∨
    (∃ p, decode payload = .error (.refused ⟨p, payload⟩)) ∨
    Value.maxDepth < Json.levels payload ∧ ∃ doing, decode payload = .error (.fault (.tooDeep doing)) := by
  unfold decode
  split
  · next f hf =>
    obtain ⟨deep, doing, rfl⟩ := Json.read_fault short hf
    exact .inr (.inr ⟨deep, doing, rfl⟩)
  · exact .inr (.inl ⟨_, rfl⟩)
  · next members hread =>
    rcases result_or_refused (Value.printable_entry (printable_read short hread)) with done | refused
    · exact .inl done
    · exact .inr (.inl refused)
  · exact .inr (.inl ⟨_, rfl⟩)

theorem decode_fault {f : Fault} (h : decode payload = .error (.fault f)) :
    Value.maxDepth < Json.levels payload ∧ ∃ doing, f = .tooDeep doing := by
  rcases decode_cases short with ⟨r, hr⟩ | ⟨p, hp⟩ | ⟨deep, doing, hf⟩
  · cases h.symm.trans hr
  · cases h.symm.trans hp
  · cases h.symm.trans hf
    exact ⟨deep, doing, rfl⟩

theorem decode_or_refused (shallow : Json.levels payload ≤ Value.maxDepth) :
    (∃ r, decode payload = .ok r) ∨ ∃ p, decode payload = .error (.refused ⟨p, payload⟩) :=
  (decode_cases short).imp_right fun h => h.resolve_right fun deep => Nat.not_lt.mpr shallow deep.1

end

/-- Every datagram that is not nested deeper than 300 levels is a reply with a result or is refused
with its octets, and nothing else happens. The result of a reply is the last dictionary that the
grammar gives the name `result`, whatever encoding the octets announce, as long as the last `error`
is absent or null. -/
theorem decode_datagram (payload : List UInt8) (fits : payload.length ≤ Exchange.bufferSize)
    (shallow : Json.levels payload ≤ 300) :
    ((∃ r, decode payload = .ok r) ∨ ∃ p, decode payload = .error (.refused ⟨p, payload⟩)) ∧
    ∀ r, decode payload = .ok r ↔
      ∃ text ms, Spells payload text ∧ Framed Object text ms ∧ Results ms r := by
  have short : payload.length ≤ Reading.maxIntDigits := fits.trans (by decide)
  have within : Json.levels payload ≤ Value.maxDepth := shallow.trans (by decide)
  exact ⟨decode_or_refused short within, fun r => (decode_iff short).trans (and_iff_left within)⟩

/-- A reply with two results, and with a null for its error. -/
def twice : List UInt8 :=
  "\x7b\"result\":1,\"error\":null,\"result\":\x7b\"soc\":55\x7d\x7d".toUTF8.toList

/-- The last of the two counts. -/
theorem decode_datagram_twice : twice.length ≤ Exchange.bufferSize ∧ Json.levels twice ≤ 300 ∧
    ∃ r text ms, decode twice = .ok r ∧ Spells twice text ∧ Framed Object text ms ∧ Results ms r ∧
      (Value.get "soc" r).asInt? = some 55 := by
  have fits : twice.length ≤ Exchange.bufferSize := by decide +kernel
  have shallow : Json.levels twice ≤ 300 := by decide +kernel
  have run : ((decode twice).toOption.map fun r => (Value.get "soc" r).asInt?) = some (some 55) := by
    decide +kernel
  obtain ⟨r, hr, soc⟩ := Option.map_eq_some_iff.mp run
  rw [toOption_eq_some] at hr
  obtain ⟨text, ms, spells, object, results⟩ := ((decode_datagram twice fits shallow).2 r).mp hr
  exact ⟨fits, shallow, r, text, ms, hr, spells, object, results, soc⟩

end Reply

end BatteryLink
