import BatteryLink.Proofs.Stopping
import BatteryLink.Proofs.Weekdays
import Mathlib.Data.Nat.Bitwise
import Mathlib.Order.Interval.Finset.Nat
/-!
What descriptions of weekdays mean. A description is read part by part, and the mask has the days of
all of them; but a range looks only at the beginnings of the words at its ends, so that it is read as
well with words there that name no day.
-/
namespace BatteryLink.Weekdays

open Text (trimChars)

/-- The bits of a mask are those of the days. -/
def Marks (m : Nat) (days : Finset Nat) : Prop := ∀ d, m.testBit d = true ↔ d ∈ days

theorem Marks.or {m n : Nat} {s t : Finset Nat} (hm : Marks m s) (hn : Marks n t) :
    Marks (m ||| n) (s ∪ t) := by
  intro d
  rw [Nat.testBit_or, Bool.or_eq_true, hm d, hn d, Finset.mem_union]

theorem marks_zero : Marks 0 ∅ := by
  intro d
  simp

theorem marks_bit (day : Nat) : Marks (bit day) {day} := by
  intro d
  rw [bit, Nat.testBit_two_pow, decide_eq_true_eq, Finset.mem_singleton, eq_comm]

theorem marks_everyDay : Marks everyDay (Finset.range 7) := by
  intro d
  rw [everyDay, show 127 = 2 ^ 7 - 1 from rfl, Nat.testBit_two_pow_sub_one, decide_eq_true_eq,
    Finset.mem_range]

theorem marks_weekend : Marks weekend {5, 6} := (marks_bit 5).or (marks_bit 6)

theorem Marks.foldl {m : Nat} {days : Finset Nat} (h : Marks m days) (more : List Nat) :
    Marks (more.foldl (fun m d => m ||| bit d) m) (days ∪ more.toFinset) := by
  induction more generalizing m days with
  | nil => simpa using h
  | cons d more ih =>
    have next := ih (h.or (marks_bit d))
    rwa [Finset.union_assoc, ← Finset.insert_eq, ← List.toFinset_cons] at next

theorem marks_span {first last : Nat} (h : last < 7) : Marks (span first last) (Finset.Icc first last) := by
  have days : ((List.range 7).filter fun d => first ≤ d && d ≤ last).toFinset = Finset.Icc first last := by
    ext d
    simp only [List.mem_toFinset, List.mem_filter, List.mem_range, Bool.and_eq_true,
      decide_eq_true_eq, Finset.mem_Icc]
    omega
  have marks := marks_zero.foldl ((List.range 7).filter fun d => first ≤ d && d ≤ last)
  rwa [days, Finset.empty_union] at marks

/-- A day is named by its code or by its full name. -/
def Name (name : List Char) (day : Nat) : Prop :=
  codes[day]? = some (String.ofList name) ∨ fullNames[day]? = some (String.ofList name)

/-- A word that begins with the code of a day. -/
def Begins (word : List Char) (day : Nat) : Prop := codes[day]? = some (String.ofList (word.take 3))

theorem Begins.lt {word : List Char} {day : Nat} (h : Begins word day) : day < 7 :=
  (List.getElem?_eq_some_iff.mp h).1

theorem dayIndex?_eq_some {code : List Char} {day : Nat} :
    dayIndex? code = some day ↔ codes[day]? = some (String.ofList code) := by
  constructor
  · intro h
    obtain ⟨bound, same, -⟩ := List.findIdx?_eq_some_iff_getElem.mp h
    rw [List.getElem?_eq_getElem bound, ← beq_iff_eq.mp same, String.ofList_toList]
  · intro h
    obtain ⟨bound, same⟩ := List.getElem?_eq_some_iff.mp h
    have all : ∀ day : Fin 7, dayIndex? codes[day].toList = some day.val := by decide
    have found := all ⟨day, bound⟩
    rw [Fin.getElem_fin, same, String.toList_ofList] at found
    exact found

theorem dayIndex?_take {word : List Char} {day : Nat} :
    dayIndex? (word.take 3) = some day ↔ Begins word day := dayIndex?_eq_some

theorem Begins.unique {word : List Char} {a b : Nat} (ha : Begins word a) (hb : Begins word b) : a = b :=
  Option.some.inj ((dayIndex?_take.mpr ha).symm.trans (dayIndex?_take.mpr hb))

/-- A full name begins with the code of its day. -/
theorem begins_of_fullName {word : List Char} {day : Nat}
    (h : fullNames[day]? = some (String.ofList word)) : Begins word day := by
  obtain ⟨bound, same⟩ := List.getElem?_eq_some_iff.mp h
  have all : ∀ day : Fin 7, codes[day] = String.ofList (fullNames[day].toList.take 3) := by decide
  have code := all ⟨day, bound⟩
  simp only [Fin.getElem_fin] at code
  rw [same, String.toList_ofList] at code
  exact List.getElem?_eq_some_iff.mpr ⟨bound, code⟩

theorem take_of_code {word : List Char} {day : Nat} (h : codes[day]? = some (String.ofList word)) :
    word.length = 3 ∧ word.take 3 = word := by
  have all : ∀ code ∈ codes, code.toList.length = 3 := by decide
  have length := all _ (List.mem_of_getElem? h)
  rw [String.toList_ofList] at length
  exact ⟨length, List.take_of_length_le length.le⟩

/-- The names of a day are the words that begin with its code and are accepted as names. -/
theorem name_iff {word : List Char} {day : Nat} : Name word day ↔
    Begins word day ∧ (word.length = 3 ∨ fullNames.contains (String.ofList word) = true) := by
  rw [List.contains_iff_mem]
  constructor
  · rintro (code | full)
    · obtain ⟨length, whole⟩ := take_of_code code
      exact ⟨by rwa [Begins, whole], .inl length⟩
    · exact ⟨begins_of_fullName full, .inr (List.mem_of_getElem? full)⟩
  · rintro ⟨begins, length | full⟩
    · exact .inl (by rwa [Begins, List.take_of_length_le length.le] at begins)
    · obtain ⟨other, found⟩ := List.getElem?_of_mem full
      rw [begins.unique (begins_of_fullName found)]
      exact .inr found

theorem Name.begins {word : List Char} {day : Nat} (h : Name word day) : Begins word day :=
  (name_iff.mp h).1

theorem Name.mem {word : List Char} {day : Nat} (h : Name word day) :
    word ∈ (codes ++ fullNames).map String.toList := by
  have member : String.ofList word ∈ codes ++ fullNames :=
    List.mem_append.mpr (h.imp List.mem_of_getElem? List.mem_of_getElem?)
  exact List.mem_map.mpr ⟨_, member, String.toList_ofList⟩

theorem Name.no_dash {word : List Char} {day : Nat} (h : Name word day) : '-' ∉ word := by
  have all : ∀ name ∈ (codes ++ fullNames).map String.toList, '-' ∉ name := by decide
  exact all _ h.mem

/-- A part of a description in small letters, without blanks around it. -/
def word (raw : List Char) : List Char := Text.lowerChars (trimChars raw)

/-- What a word means, if the ends of a range are told in a certain way. -/
inductive Means (ends : List Char → Nat → Prop) : List Char → Finset Nat → Prop
  | nothing : Means ends [] ∅
  | daily : Means ends "daily".toList (Finset.range 7)
  | weekend : Means ends "weekend".toList {5, 6}
  | day {name : List Char} {d : Nat} : Name name d → Means ends name {d}
  | range {first last : List Char} {a b : Nat} : '-' ∉ first → ends (trimChars first) a →
      ends (trimChars last) b → a ≤ b → Means ends (first ++ '-' :: last) (Finset.Icc a b)

theorem at_dash {first : List Char} (h : '-' ∉ first) (last : List Char) :
    (first ++ '-' :: last).takeWhile (· != '-') = first ∧
      (first ++ '-' :: last).dropWhile (· != '-') = '-' :: last := by
  have before : ∀ c ∈ first, (c != '-') = true := fun c hc => bne_iff_ne.mpr fun dash => h (dash ▸ hc)
  rw [List.takeWhile_append_of_pos before, List.dropWhile_append_of_pos before,
    List.takeWhile_cons_of_neg (by decide), List.dropWhile_cons_of_neg (by decide), List.append_nil]
  exact ⟨rfl, rfl⟩

/-- A word has one first dash. -/
theorem dash_unique {first last first' last' : List Char} (h : '-' ∉ first) (h' : '-' ∉ first')
    (same : first ++ '-' :: last = first' ++ '-' :: last') : first = first' ∧ last = last' := by
  have parts := at_dash h last
  rw [same, (at_dash h' last').1, (at_dash h' last').2] at parts
  exact ⟨parts.1.symm, (List.cons.inj parts.2).2.symm⟩

/-- A range is divided at its first dash. -/
theorem range_dash {first : List Char} (h : '-' ∉ first) (last : List Char) :
    range (first ++ '-' :: last) =
      match dayIndex? ((trimChars first).take 3), dayIndex? ((trimChars last).take 3) with
      | some a, some b =>
        if b < a then .error (.reversedWeekdayRange (String.ofList (first ++ '-' :: last)))
        else .ok (span a b)
      | _, _ => .error (.unknownWeekdayRange (String.ofList (first ++ '-' :: last))) := by
  obtain ⟨before, after⟩ := at_dash h last
  unfold range
  rw [before, after]
  rfl

theorem range_eq_ok {first last : List Char} {m : Nat} (h : '-' ∉ first) :
    range (first ++ '-' :: last) = .ok m ↔ ∃ a b, Begins (trimChars first) a ∧
      Begins (trimChars last) b ∧ a ≤ b ∧ span a b = m := by
  rw [range_dash h]
  simp only [← dayIndex?_take]
  cases dayIndex? ((trimChars first).take 3) with
  | none => simp
  | some a =>
    cases dayIndex? ((trimChars last).take 3) with
    | none => simp
    | some b =>
      by_cases order : b < a
      · simp [order, Nat.not_le.mpr order]
      · simp [order, Nat.not_lt.mp order]

theorem Name.ordinary {name : List Char} {d : Nat} (h : Name name d) :
    name.isEmpty = false ∧ name ≠ "daily".toList ∧ name ≠ "weekend".toList := by
  have all : ∀ name ∈ (codes ++ fullNames).map String.toList, name.isEmpty = false ∧
      name ≠ "daily".toList ∧ name ≠ "weekend".toList := by decide
  exact all _ h.mem

/-- A part is accepted for what its word means. -/
theorem means_of_part {raw : List Char} {m : Nat} (h : part raw = .ok m) :
    ∃ days, Means Begins (word raw) days ∧ Marks m days := by
  unfold part at h
  dsimp only at h
  unfold word
  generalize Text.lowerChars (trimChars raw) = w at h ⊢
  split_ifs at h with empty daily ends dash accepted
  · cases h
    rw [List.isEmpty_iff.mp empty]
    exact ⟨_, .nothing, marks_zero⟩
  · cases h
    rw [daily]
    exact ⟨_, .daily, marks_everyDay⟩
  · cases h
    rw [ends]
    exact ⟨_, .weekend, marks_weekend⟩
  · obtain ⟨first, last, rfl, no_dash⟩ := List.eq_append_cons_of_mem (List.contains_iff_mem.mp dash)
    obtain ⟨a, b, ha, hb, le, rfl⟩ := (range_eq_ok no_dash).mp h
    exact ⟨_, .range no_dash ha hb le, marks_span hb.lt⟩
  · split at h
    · next d hd =>
      cases h
      exact ⟨_, .day (name_iff.mpr ⟨dayIndex?_take.mp hd, accepted⟩), marks_bit d⟩
    · cases h
  · split at h <;> cases h

theorem part_of_means {raw : List Char} {days : Finset Nat} (h : Means Begins (word raw) days) :
    ∃ m, part raw = .ok m ∧ Marks m days := by
  unfold part
  dsimp only
  unfold word at h
  generalize Text.lowerChars (trimChars raw) = w at h
  cases h with
  | nothing => exact ⟨0, rfl, marks_zero⟩
  | daily => exact ⟨everyDay, rfl, marks_everyDay⟩
  | weekend => exact ⟨weekend, rfl, marks_weekend⟩
  | @day _ d name =>
    obtain ⟨some_letter, not_daily, not_weekend⟩ := name.ordinary
    have no_dash : w.contains '-' = false := by simpa using name.no_dash
    obtain ⟨begins, accepted⟩ := name_iff.mp name
    refine ⟨bit d, ?_, marks_bit d⟩
    rw [some_letter, if_neg Bool.false_ne_true, if_neg not_daily, if_neg not_weekend, no_dash,
      if_neg Bool.false_ne_true, dayIndex?_take.mpr begins]
    exact if_pos accepted
  | @range first last a b no_dash ha hb le =>
    have dash : (first ++ '-' :: last).contains '-' = true := by simp
    have not_daily : first ++ '-' :: last ≠ "daily".toList := fun same =>
      absurd (same ▸ List.contains_iff_mem.mp dash) (by decide)
    have not_weekend : first ++ '-' :: last ≠ "weekend".toList := fun same =>
      absurd (same ▸ List.contains_iff_mem.mp dash) (by decide)
    refine ⟨span a b, ?_, marks_span hb.lt⟩
    rw [if_neg (by simp), if_neg not_daily, if_neg not_weekend, if_pos dash]
    exact (range_eq_ok no_dash).mpr ⟨a, b, ha, hb, le, rfl⟩

/-- A range with a word at one of its ends that is no name. -/
def Overlong (word : List Char) : Prop := ∃ first last, word = first ++ '-' :: last ∧ '-' ∉ first ∧
  ¬((∃ a, Name (trimChars first) a) ∧ ∃ b, Name (trimChars last) b)

theorem Means.not_overlong {w : List Char} {days : Finset Nat} (h : Means Name w days) : ¬Overlong w := by
  rintro ⟨first, last, rfl, no_dash, unnamed⟩
  generalize hw : first ++ '-' :: last = w at h
  have dash : '-' ∈ w := hw ▸ List.mem_append_right _ List.mem_cons_self
  cases h with
  | nothing => cases dash
  | daily => exact absurd dash (by decide)
  | weekend => exact absurd dash (by decide)
  | day name => exact name.no_dash dash
  | range no_dash' ha hb le =>
    obtain ⟨rfl, rfl⟩ := dash_unique no_dash no_dash' hw
    exact unnamed ⟨⟨_, ha⟩, _, hb⟩

theorem Means.strict {w : List Char} {days : Finset Nat} (h : Means Begins w days) (hw : ¬Overlong w) :
    Means Name w days := by
  cases h with
  | nothing => exact .nothing
  | daily => exact .daily
  | weekend => exact .weekend
  | day name => exact .day name
  | @range first last a b no_dash ha hb le =>
    have named : (∃ a, Name (trimChars first) a) ∧ ∃ b, Name (trimChars last) b := by
      by_contra unnamed
      exact hw ⟨first, last, rfl, no_dash, unnamed⟩
    obtain ⟨⟨a', ha'⟩, b', hb'⟩ := named
    cases ha.unique ha'.begins
    cases hb.unique hb'.begins
    exact .range no_dash ha' hb' le

theorem Means.loose {w : List Char} {days : Finset Nat} (h : Means Name w days) : Means Begins w days := by
  cases h with
  | nothing => exact .nothing
  | daily => exact .daily
  | weekend => exact .weekend
  | day name => exact .day name
  | range no_dash ha hb le => exact .range no_dash ha.begins hb.begins le

/-- What the parts of a description mean together. -/
inductive Together (ends : List Char → Nat → Prop) : List (List Char) → Finset Nat → Prop
  | nil : Together ends [] ∅
  | cons {raw : List Char} {raws : List (List Char)} {days more : Finset Nat} :
      Means ends (word raw) days → Together ends raws more → Together ends (raw :: raws) (days ∪ more)

section

variable {raws : List (List Char)} {m n : Nat} {days old : Finset Nat}

theorem together_of_union (h : union m raws = .ok n) (hm : Marks m old) :
    ∃ days, Together Begins raws days ∧ Marks n (old ∪ days) := by
  induction raws generalizing m old with
  | nil =>
    cases h
    exact ⟨∅, .nil, by rwa [Finset.union_empty]⟩
  | cons raw raws ih =>
    unfold union at h
    split at h
    · next k hk =>
      obtain ⟨days, means, marks⟩ := means_of_part hk
      obtain ⟨more, rest, all⟩ := ih h (hm.or marks)
      exact ⟨days ∪ more, .cons means rest, by rwa [← Finset.union_assoc]⟩
    · cases h

theorem union_of_together (h : Together Begins raws days) (hm : Marks m old) :
    ∃ n, union m raws = .ok n ∧ Marks n (old ∪ days) := by
  induction h generalizing m old with
  | nil => exact ⟨m, rfl, by rwa [Finset.union_empty]⟩
  | @cons raw raws days more means rest ih =>
    obtain ⟨k, hk, marks⟩ := part_of_means means
    obtain ⟨n, hn, all⟩ := ih (hm.or marks)
    refine ⟨n, ?_, by rwa [← Finset.union_assoc]⟩
    rw [union, hk]
    exact hn

theorem Together.loose (h : Together Name raws days) : Together Begins raws days := by
  induction h with
  | nil => exact .nil
  | cons means _ ih => exact .cons means.loose ih

theorem Together.not_overlong (h : Together Name raws days) : ∀ raw ∈ raws, ¬Overlong (word raw) := by
  induction h with
  | nil => exact List.forall_mem_nil _
  | cons means _ ih => exact List.forall_mem_cons.mpr ⟨means.not_overlong, ih⟩

theorem Together.strict (h : Together Begins raws days) (names : ∀ raw ∈ raws, ¬Overlong (word raw)) :
    Together Name raws days := by
  induction h with
  | nil => exact .nil
  | cons means _ ih =>
    obtain ⟨first, rest⟩ := List.forall_mem_cons.mp names
    exact .cons (means.strict first) (ih rest)

theorem range_field {w : List Char} {e : Rejection} (h : range w = .error e) : e.field = "weekdays" := by
  unfold range at h
  dsimp only at h
  split at h
  · split at h
    · cases h
      rfl
    · cases h
  · cases h
    rfl

theorem part_field {raw : List Char} {e : Rejection} (h : part raw = .error e) :
    e.field = "weekdays" := by
  unfold part at h
  dsimp only at h
  split_ifs at h with empty daily ends dash accepted
  · exact range_field h
  · split at h
    · cases h
    · cases h
      rfl
  · split at h <;> cases h <;> rfl

theorem union_field {e : Rejection} (h : union m raws = .error e) : e.field = "weekdays" := by
  induction raws generalizing m with
  | nil => cases h
  | cons raw raws ih =>
    unfold union at h
    split at h
    · exact ih h
    · next hp =>
      cases h
      exact part_field hp

end

/-- The days of a description. -/
def Describes (ends : List Char → Nat → Prop) (s : String) (days : Finset Nat) : Prop :=
  Together ends (Text.splitOn ',' s.toList) days

/-- A value is read for what its text means: the mask has the days that are described, and where none are
described the value is refused. -/
structure ReadAs (ends : List Char → Nat → Prop) (v : Value) (s : String) : Prop where
  mask : ∀ days, Describes ends s days → ∃ m, ofValue v = .ok m ∧ Marks m days
  refused : (¬∃ days, Describes ends s days) →
    ∃ r, ofValue v = .error (.refused r) ∧ r.field = "weekdays"

theorem readAs_begins {v : Value} {s : String} (text : v.asText? = some s) : ReadAs Begins v s := by
  constructor
  · intro days describes
    obtain ⟨m, hm, marks⟩ := union_of_together describes marks_zero
    rw [Finset.empty_union] at marks
    have parsed : parse s = .ok m := hm
    exact ⟨m, by simp only [ofValue, text, parsed], marks⟩
  · intro none
    cases parsed : parse s with
    | ok m =>
      obtain ⟨days, describes, -⟩ := together_of_union parsed marks_zero
      exact absurd ⟨days, describes⟩ none
    | error e => exact ⟨e, by simp only [ofValue, text, parsed], union_field parsed⟩

/-- A description is read in terms of words that begin like days at the ends of its ranges. In terms of
names of days it is read just as well, unless it is accepted with a range between words one of which
is no name. -/
theorem descriptions_read {v : Value} {s : String} (text : v.asText? = some s) :
    ReadAs Begins v s ∧ (ReadAs Name v s ↔
      ¬∃ m, ofValue v = .ok m ∧ ∃ raw ∈ Text.splitOn ',' s.toList, Overlong (word raw)) := by
  have read := readAs_begins text
  refine ⟨read, ?_, ?_⟩
  · rintro strict ⟨m, hm, raw, member, overlong⟩
    by_cases described : ∃ days, Describes Name s days
    · obtain ⟨days, describes⟩ := described
      exact describes.not_overlong raw member overlong
    · obtain ⟨r, hr, -⟩ := strict.refused described
      rw [hm] at hr
      cases hr
  · intro names
    constructor
    · exact fun days describes => read.mask days describes.loose
    · intro none
      refine read.refused fun ⟨days, describes⟩ => none ⟨days, ?_⟩
      obtain ⟨m, hm, -⟩ := read.mask days describes
      exact Together.strict describes fun raw member overlong => names ⟨m, hm, raw, member, overlong⟩

/-- A range between a code and a full name, nothing, and a name in capitals. -/
def assorted : String := "Mon - Wednesday, ,SUNDAY"

theorem descriptions_read_assorted : (Value.text assorted).asText? = some assorted ∧
    Describes Name assorted (Finset.Icc 0 2 ∪ (∅ ∪ ({6} ∪ ∅))) ∧
    ReadAs Name (.text assorted) assorted ∧ ofValue (.text assorted) = .ok 71 := by
  have parts : Text.splitOn ',' assorted.toList =
      ["Mon - Wednesday".toList, " ".toList, "SUNDAY".toList] := by decide +kernel
  have words : word "Mon - Wednesday".toList = "mon ".toList ++ '-' :: " wednesday".toList ∧
      word " ".toList = [] ∧ word "SUNDAY".toList = "sunday".toList := by decide +kernel
  have trimmed : trimChars "mon ".toList = "mon".toList ∧
      trimChars " wednesday".toList = "wednesday".toList := by decide +kernel
  obtain ⟨range, none, sunday⟩ := words
  have describes : Describes Name assorted (Finset.Icc 0 2 ∪ (∅ ∪ ({6} ∪ ∅))) := by
    rw [Describes, parts]
    refine .cons ?_ (.cons ?_ (.cons ?_ .nil))
    · rw [range]
      refine .range (by decide) ?_ ?_ (Nat.zero_le 2)
      · exact trimmed.1 ▸ .inl rfl
      · exact trimmed.2 ▸ .inr rfl
    · exact none ▸ .nothing
    · exact sunday ▸ .day (.inr rfl)
  refine ⟨rfl, describes, (descriptions_read rfl).2.mpr ?_, by decide +kernel⟩
  rintro ⟨m, -, raw, member, overlong⟩
  exact describes.not_overlong raw member overlong

/-- A monkey is no Monday, and what is sunny is no Sunday. -/
theorem monkey_begins_range : ¬∀ v s, v.asText? = some s → ReadAs Name v s := by
  intro h
  have accepted : ofValue (.text "monkey-sunny") = .ok 127 := by decide +kernel
  have unnamed : ∀ day, ¬Name "monkey".toList day := by
    intro day named
    exact absurd named.mem (by decide)
  have parts : Text.splitOn ',' "monkey-sunny".toList = ["monkey-sunny".toList] ∧
      word "monkey-sunny".toList = "monkey".toList ++ '-' :: "sunny".toList ∧
      trimChars "monkey".toList = "monkey".toList := by decide +kernel
  obtain ⟨parts, range, trimmed⟩ := parts
  have overlong : Overlong (word "monkey-sunny".toList) :=
    ⟨_, _, range, by decide, fun ⟨⟨a, ha⟩, _⟩ => unnamed a (trimmed ▸ ha)⟩
  obtain ⟨r, refused, -⟩ := (h (.text "monkey-sunny") _ rfl).refused fun ⟨days, describes⟩ =>
    describes.not_overlong _ (parts ▸ List.mem_cons_self) overlong
  rw [accepted] at refused
  cases refused

end BatteryLink.Weekdays
