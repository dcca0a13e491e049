import BatteryLink.Check
import BatteryLink.Proofs.Replies
import BatteryLink.Proofs.TimeOfDay
import BatteryLink.Proofs.WeekdayNames
/-!
Descriptions of weekdays as lists. A description that is put together from others is read as they
are, and which days it has depends on nothing but which parts there are.
-/
namespace BatteryLink

namespace Text

/-- In ASCII only the 26 capitals have a letter in lower case. -/
theorem lowerChar_ascii {c : Char} (ascii : c.toNat < 128) : lowerChar c = c.toLower := by
  have all : ∀ n : Fin 128, lowerChar (Char.ofNat n) = (Char.ofNat n).toLower := by decide +kernel
  have found := all ⟨c.toNat, ascii⟩
  rwa [Char.ofNat_toNat] at found

theorem lowerChars_ascii {s : List Char} (ascii : ∀ c ∈ s, c.toNat < 128) :
    lowerChars s = s.map Char.toLower := by
  have key : ∀ before, lowerFrom before s = s.map Char.toLower := by
    induction s with
    | nil => exact fun _ => rfl
    | cons c r ih =>
      obtain ⟨first, rest⟩ := List.forall_mem_cons.mp ascii
      intro before
      rw [lowerFrom, if_neg (by omega), if_neg (by omega), lowerChar_ascii first, ih rest]
      rfl
  exact key []

end Text

theorem Value.asText?_ofSymbols (s : Text.Symbols) : (ofSymbols s).asText? = some s.glyphs := by
  rcases ofSymbols_cases s with ⟨w, rfl, h⟩ | ⟨-, h⟩
  · rw [h, Text.Symbols.glyphs_ofString]
    rfl
  · rw [h]
    rfl

namespace Weekdays

open Text (Symbols splitOn trimChars)

variable {raw raw' : List Char} {raws others xs ys : List (List Char)} {k m n : Nat}

theorem Marks.unique {days : Finset Nat} (hm : Marks m days) (hn : Marks n days) : m = n := by
  apply Nat.eq_of_testBit_eq
  intro d
  exact Bool.eq_iff_iff.mpr ((hm d).trans (hn d).symm)

theorem part_eq_ok : part raw = .ok k ↔ ∃ days, Means Begins (word raw) days ∧ Marks k days := by
  refine ⟨means_of_part, ?_⟩
  rintro ⟨days, means, marks⟩
  obtain ⟨l, hl, marks'⟩ := part_of_means means
  rw [hl, marks.unique marks']

/-- A part is read for its word. -/
theorem part_congr (h : word raw = word raw') : part raw = .ok k ↔ part raw' = .ok k := by
  rw [part_eq_ok, part_eq_ok, h]

theorem part_blank (h : word raw = []) : part raw = .ok 0 :=
  part_eq_ok.mpr ⟨∅, h ▸ .nothing, marks_zero⟩

theorem union_append (m : Nat) (xs ys : List (List Char)) :
    union m (xs ++ ys) = union m xs >>= fun k => union k ys := by
  induction xs generalizing m with
  | nil => rfl
  | cons x xs ih =>
    rw [List.cons_append, union, union]
    cases part x with
    | ok days => exact ih _
    | error e => rfl

/-- What the parts add does not depend on what was there before. -/
theorem union_from (m : Nat) (raws : List (List Char)) :
    union m raws = .ok n ↔ ∃ k, union 0 raws = .ok k ∧ n = m ||| k := by
  induction raws generalizing m n with
  | nil => simp [union, eq_comm]
  | cons raw raws ih =>
    unfold union
    cases part raw with
    | ok days =>
      dsimp only
      rw [ih, Nat.zero_or]
      constructor
      · rintro ⟨k, hk, rfl⟩
        exact ⟨days ||| k, (ih days).mpr ⟨k, hk, rfl⟩, Nat.or_assoc m days k⟩
      · rintro ⟨_, hl, rfl⟩
        obtain ⟨k, hk, rfl⟩ := (ih days).mp hl
        exact ⟨k, hk, (Nat.or_assoc m days k).symm⟩
    | error e => simp

/-- A day that one of the parts names. -/
def Named (raws : List (List Char)) (d : Nat) : Prop :=
  ∃ raw ∈ raws, ∃ k, part raw = .ok k ∧ k.testBit d = true

/-- A union has the days that its parts name, and there is one if all of them can be read. -/
theorem union_eq_ok : union m raws = .ok n ↔ (∀ raw ∈ raws, ∃ k, part raw = .ok k) ∧
    ∀ d, n.testBit d = true ↔ m.testBit d = true ∨ Named raws d := by
  induction raws generalizing m with
  | nil =>
    constructor
    · intro h
      cases h
      exact ⟨List.forall_mem_nil _, fun d => by simp [Named]⟩
    · rintro ⟨-, bits⟩
      exact congrArg _ (Nat.eq_of_testBit_eq fun d => Bool.eq_iff_iff.mpr (by simp [bits d, Named]))
  | cons raw raws ih =>
    unfold union
    rw [List.forall_mem_cons]
    cases hp : part raw with
    | ok days =>
      have named : ∀ d, Named (raw :: raws) d ↔ days.testBit d = true ∨ Named raws d := by
        intro d
        simp [Named, hp]
      simp only [ih, named, Nat.testBit_or, Bool.or_eq_true, or_assoc, Except.ok.injEq, exists_eq',
        true_and]
    | error e => simp

/-- Each part of the one list that is not blank has the same word as a part of the other. -/
def Within (raws others : List (List Char)) : Prop :=
  ∀ raw ∈ raws, word raw = [] ∨ ∃ other ∈ others, word raw = word other

theorem Within.named {d : Nat} (h : Within raws others) (named : Named raws d) : Named others d := by
  obtain ⟨raw, member, k, hk, bit⟩ := named
  rcases h raw member with blank | ⟨other, there, same⟩
  · rw [part_blank blank] at hk
    cases hk
    simp at bit
  · exact ⟨other, there, k, (part_congr same).mp hk, bit⟩

theorem Within.read (h : Within raws others) (read : ∀ other ∈ others, ∃ k, part other = .ok k) :
    ∀ raw ∈ raws, ∃ k, part raw = .ok k := by
  intro raw member
  rcases h raw member with blank | ⟨other, there, same⟩
  · exact ⟨0, part_blank blank⟩
  · obtain ⟨k, hk⟩ := read other there
    exact ⟨k, (part_congr same).mpr hk⟩

/-- Which parts there are decides what comes of them. -/
theorem union_of_within (h : Within raws others) (back : Within others raws)
    (united : union m others = .ok n) : union m raws = .ok n := by
  obtain ⟨read, bits⟩ := union_eq_ok.mp united
  refine union_eq_ok.mpr ⟨h.read read, fun d => ?_⟩
  rw [bits d]
  exact or_congr_right ⟨back.named, h.named⟩

/-- The parts of a description, without blanks around them. -/
def tokens (s : Symbols) : List (List Char) := (splitOn ',' s.glyphs.toList).map trimChars

/-- Tokens that are the same. In ASCII the case of letters makes no difference. -/
inductive SameToken : List Char → List Char → Prop
  | refl (t : List Char) : SameToken t t
  | ascii {t u : List Char} : (∀ c ∈ t, c.toNat < 128) → (∀ c ∈ u, c.toNat < 128) →
      t.map Char.toLower = u.map Char.toLower → SameToken t u

/-- Each token of the one description that is not blank is one of the other. -/
def Covers (a b : Symbols) : Prop := ∀ t ∈ tokens a, t ≠ [] → ∃ u ∈ tokens b, SameToken t u

theorem SameToken.of_all {t u : List Char} (ht : t.all (·.toNat < 128) = true)
    (hu : u.all (·.toNat < 128) = true) (same : t.map Char.toLower = u.map Char.toLower) :
    SameToken t u :=
  .ascii (by simpa using ht) (by simpa using hu) same

theorem SameToken.symm {t u : List Char} (h : SameToken t u) : SameToken u t := by
  cases h with
  | refl => exact .refl _
  | ascii ht hu same => exact .ascii hu ht same.symm

theorem SameToken.lower {t u : List Char} (h : SameToken t u) :
    Text.lowerChars t = Text.lowerChars u := by
  cases h with
  | refl => rfl
  | ascii ht hu same => rw [Text.lowerChars_ascii ht, Text.lowerChars_ascii hu, same]

theorem Covers.within {a b : Symbols} (h : Covers a b) :
    Within (splitOn ',' a.glyphs.toList) (splitOn ',' b.glyphs.toList) := by
  intro raw member
  by_cases blank : trimChars raw = []
  · exact .inl (by rw [word, blank]; rfl)
  · obtain ⟨u, there, same⟩ := h _ (List.mem_map_of_mem member) blank
    obtain ⟨other, hother, rfl⟩ := List.mem_map.mp there
    exact .inr ⟨other, hother, same.lower⟩

theorem ofValue_ofSymbols {s : Symbols} :
    ofValue (.ofSymbols s) = .ok m ↔ union 0 (splitOn ',' s.glyphs.toList) = .ok m := by
  unfold ofValue
  rw [Value.asText?_ofSymbols]
  dsimp only
  rw [← parse]
  cases parse s.glyphs <;> simp

theorem glyphs_joined (a b : Symbols) : (Text.Symbols.glyphs (a ++ .char ',' :: b)).toList =
    a.glyphs.toList ++ ',' :: b.glyphs.toList := by
  simp [Text.Symbols.glyphs, Text.Symbol.glyph]

/-- Two descriptions with a comma between them can be read exactly if both can, and have the days of
both. Whatever has been read is a mask that the device takes. Neither the order of the tokens, nor
how often they stand there, nor capitals among ASCII tokens, nor blank tokens make a difference. -/
theorem descriptions_joined (a b : Symbols) :
    (∀ m, ofValue (.ofSymbols (a ++ .char ',' :: b)) = .ok m ↔
      ∃ x y, ofValue (.ofSymbols a) = .ok x ∧ ofValue (.ofSymbols b) = .ok y ∧ m = x ||| y) ∧
    (∀ v m, ofValue v = .ok m → m ≤ 127 ∧ ∀ field, Check.weekSet (.int m) field = .ok ()) ∧
    (Covers a b → Covers b a → ∀ m, ofValue (.ofSymbols a) = .ok m ↔ ofValue (.ofSymbols b) = .ok m) := by
  refine ⟨fun m => ?_, fun v m h => ?_, fun covers back m => ?_⟩
  · simp only [ofValue_ofSymbols]
    rw [glyphs_joined, Text.splitOn_eq, List.splitOn_append_cons_self, ← Text.splitOn_eq,
      ← Text.splitOn_eq, union_append, bind_eq_ok]
    constructor
    · rintro ⟨x, hx, h⟩
      obtain ⟨y, hy, rfl⟩ := (union_from x _).mp h
      exact ⟨x, y, hx, hy, rfl⟩
    · rintro ⟨x, y, hx, hy, rfl⟩
      exact ⟨x, hx, (union_from x _).mpr ⟨y, hy, rfl⟩⟩
  · have small : m ≤ 127 := Nat.le_of_lt_succ (mask_ofValue h)
    refine ⟨small, fun field => ?_⟩
    exact if_pos ⟨Int.natCast_nonneg m, Int.ofNat_le.mpr small⟩
  · rw [ofValue_ofSymbols, ofValue_ofSymbols]
    exact ⟨union_of_within back.within covers.within, union_of_within covers.within back.within⟩

/-- The same days in another order, one of them twice, in other cases and with a blank token. -/
def plan : Symbols := .ofString "mon-FRI,Sunday"

def shuffled : Symbols := .ofString " SUNDAY , Mon-Fri,,sunday"

theorem descriptions_joined_shuffled : Covers plan shuffled ∧ Covers shuffled plan ∧
    ofValue (.ofSymbols plan) = .ok 95 ∧ ofValue (.ofSymbols shuffled) = .ok 95 ∧
    ofValue (.ofSymbols (plan ++ .char ',' :: shuffled)) = .ok (95 ||| 95) := by
  have tokens_plan : tokens plan = ["mon-FRI".toList, "Sunday".toList] := by decide +kernel
  have tokens_shuffled : tokens shuffled =
      ["SUNDAY".toList, "Mon-Fri".toList, [], "sunday".toList] := by decide +kernel
  have range : SameToken "mon-FRI".toList "Mon-Fri".toList :=
    .of_all (by decide +kernel) (by decide +kernel) (by decide +kernel)
  have day : SameToken "Sunday".toList "SUNDAY".toList :=
    .of_all (by decide +kernel) (by decide +kernel) (by decide +kernel)
  have day' : SameToken "Sunday".toList "sunday".toList :=
    .of_all (by decide +kernel) (by decide +kernel) (by decide +kernel)
  have covers : Covers plan shuffled := by
    unfold Covers
    simp only [tokens_plan, tokens_shuffled, List.forall_mem_cons]
    refine ⟨fun _ => ⟨_, by simp, range⟩, fun _ => ⟨_, by simp, day⟩, List.forall_mem_nil _⟩
  have back : Covers shuffled plan := by
    unfold Covers
    simp only [tokens_plan, tokens_shuffled, List.forall_mem_cons]
    refine ⟨fun _ => ⟨_, by simp, day.symm⟩, fun _ => ⟨_, by simp, range.symm⟩,
      fun some => absurd rfl some, fun _ => ⟨_, by simp, day'.symm⟩, List.forall_mem_nil _⟩
  obtain ⟨joined, -, alike⟩ := descriptions_joined plan shuffled
  have read : ofValue (.ofSymbols plan) = .ok 95 := by decide +kernel
  have read' := (alike covers back 95).mp read
  exact ⟨covers, back, read, read', (joined _).mpr ⟨95, 95, read, read', rfl⟩⟩

end Weekdays
end BatteryLink
