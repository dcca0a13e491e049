import BatteryLink.Check
import BatteryLink.Proofs.Printable
/-!
What the checks of a change of mode accept, and where they stop without a verdict. A value is refused
in words that show it, so that a check stops at a bad value that cannot be written out.
-/
namespace BatteryLink.Check

open Reading (maxIntDigits)

/-- On what terms a check accepts, and on what terms it stops. Otherwise it refuses. -/
structure Judged (x : Checked Unit) (good stops : Prop) : Prop where
  accepts : x = .ok () ↔ good
  faults : (∃ f, x = .error (.fault f)) ↔ stops

namespace Judged

variable {x y : Checked Unit} {good good' stops stops' : Prop}

theorem accept : Judged (.ok ()) True False := ⟨iff_of_true rfl trivial, iff_of_false nofun id⟩

theorem refuse (r : Rejection) : Judged (reject r) False False :=
  ⟨iff_of_false nofun id, iff_of_false nofun id⟩

/-- The second check is made only if the first one accepts. -/
theorem seq (hx : Judged x good stops) (hy : Judged y good' stops') :
    Judged (x >>= fun _ => y) (good ∧ good') (stops ∨ good ∧ stops') := by
  rw [← hx.accepts, ← hx.faults, ← hy.accepts, ← hy.faults]
  constructor
  · rw [bind_eq_ok]
    exact ⟨fun ⟨_, h⟩ => h, fun h => ⟨(), h⟩⟩
  · simp only [bind_eq_error, exists_or]
    exact or_congr_right ⟨fun ⟨f, _, h, hf⟩ => ⟨h, f, hf⟩, fun ⟨h, f, hf⟩ => ⟨f, (), h, hf⟩⟩

theorem congr (h : Judged x good stops) (hg : good ↔ good') (hs : stops ↔ stops') :
    Judged x good' stops' := ⟨h.accepts.trans hg, h.faults.trans hs⟩

theorem show_refused (v : Value) (r : String → Rejection) :
    Judged (orFault v.display >>= fun t => reject (r t)) False (¬v.Printable) := by
  rw [Value.printable_iff_display]
  cases v.display with
  | ok t => exact (refuse (r t)).congr Iff.rfl (by simp)
  | error f => exact ⟨iff_of_false nofun id, iff_of_true ⟨f, rfl⟩ (by simp)⟩

theorem show_unless (v : Value) (r : String → Rejection) (p : Prop) [Decidable p] :
    Judged (if p then .ok () else orFault v.display >>= fun t => reject (r t)) p
      (¬p ∧ ¬v.Printable) := by
  split
  · next h => exact accept.congr (iff_of_true trivial h) (by simp [h])
  · next h => exact (show_refused v r).congr (iff_of_false id h) (by simp [h])

theorem show_otherwise (v : Value) (r : String → Rejection) (p : Prop) [Decidable p] (hp : p ↔ good)
    (shows : good → v.Printable) :
    Judged (if p then .ok () else orFault v.display >>= fun t => reject (r t)) good
      (¬v.Printable) :=
  (show_unless v r p).congr hp
    ⟨And.right, fun unshown => ⟨fun h => unshown (shows (hp.mp h)), unshown⟩⟩

end Judged

/-- The whole numbers within some bounds. -/
def Between (low high : Int) (v : Value) : Prop := ∃ i, v = .int i ∧ low ≤ i ∧ i ≤ high

/-- The whole numbers that have too many digits to be written out. -/
def Endless (v : Value) : Prop := ∃ i, v = .int i ∧ ¬i.natAbs < 10 ^ maxIntDigits

/-- The numbers 0 and 1, in whatever type of number. -/
def Flag (v : Value) : Prop :=
  v = .int 0 ∨ v = .int 1 ∨ ∃ f, v = .float f ∧ (f.eqInt 0 = true ∨ f.eqInt 1 = true)

theorem short_of_le {i : Int} (h : i.natAbs ≤ 86400) : i.natAbs < 10 ^ maxIntDigits := by
  have five : 86400 < 10 ^ 5 := by decide
  have more : 10 ^ 5 ≤ 10 ^ maxIntDigits := Nat.pow_le_pow_right (by decide) (by decide)
  omega

theorem asInt?_eq_some {v : Value} {i : Int} : v.asInt? = some i ↔ v = .int i := by
  cases v <;> simp [Value.asInt?]

theorem bounded_judged (field unit : String) {low high : Int} (hl : -86400 ≤ low)
    (hh : high ≤ 86400) (v : Value) :
    Judged (bounded field low high unit v) (Between low high v) (Endless v) := by
  unfold bounded
  cases hv : v.asInt? with
  | none =>
    have other : ∀ i, v ≠ .int i := fun i h => by rw [asInt?_eq_some.mpr h] at hv; cases hv
    exact (Judged.refuse _).congr (iff_of_false id fun ⟨i, h, _⟩ => other i h)
      (iff_of_false id fun ⟨i, h, _⟩ => other i h)
  | some i =>
    cases asInt?_eq_some.mp hv
    refine (Judged.show_unless _ _ _).congr (by simp [Between]) ?_
    rw [Value.printable_int]
    constructor
    · rintro ⟨-, long⟩
      exact ⟨i, rfl, long⟩
    · rintro ⟨_, ⟨⟩, long⟩
      exact ⟨fun within => long (short_of_le (by omega)), long⟩

theorem deviceId_judged (v : Value) (field : String) :
    Judged (deviceId v field) (Between 0 255 v) (Endless v) :=
  bounded_judged field "" (by decide) (by decide) v

theorem power_judged (v : Value) (field : String) :
    Judged (power v field) (Between (-5000) 5000 v) (Endless v) :=
  bounded_judged field "" (by decide) (by decide) v

theorem weekSet_judged (v : Value) (field : String) :
    Judged (weekSet v field) (Between 0 127 v) (Endless v) :=
  bounded_judged field "" (by decide) (by decide) v

theorem countdown_judged (v : Value) (field : String) :
    Judged (countdown v field) (Between 0 86400 v) (Endless v) :=
  bounded_judged field " seconds" (by decide) (by decide) v

theorem printable_of_between {low high : Int} (hl : -86400 ≤ low) (hh : high ≤ 86400) {v : Value}
    (h : Between low high v) : v.Printable := by
  obtain ⟨i, rfl, below, above⟩ := h
  exact Value.printable_int.mpr (short_of_le (by omega))

theorem slot_judged (v : Value) : Judged (slot v) (Between 0 3 v) (¬v.Printable) := by
  refine Judged.show_otherwise _ _ _ ?_ (printable_of_between (by decide) (by decide))
  cases v with
  | int i =>
    have below : i < 4 ↔ i ≤ 3 := by omega
    simp [Value.asInt?, Between, slotCount, below]
  | none | bool _ | float _ | text _ | broken _ | bytes _ | list _ | dict _ | quantity _ _ | switch _ =>
    simp [Value.asInt?, Between]

theorem enable_judged (v : Value) : Judged (enable v) (Flag v) (¬v.Printable) := by
  refine Judged.show_otherwise _ _ _ ?_ ?_
  · cases v <;> simp [Value.equalsInt, Flag]
  · rintro (rfl | rfl | ⟨f, rfl, -⟩)
    · exact Value.printable_int.mpr (short_of_le (by decide))
    · exact Value.printable_int.mpr (short_of_le (by decide))
    · exact Value.printable_plain rfl rfl

theorem time_judged (v : Value) (field : String) :
    Judged (TimeOfDay.check v field) (TimeOfDay.check v field = .ok ()) False := by
  refine ⟨Iff.rfl, iff_of_false (fun ⟨f, h⟩ => ?_) id⟩
  unfold TimeOfDay.check at h
  split at h
  · cases h
  · split at h <;> cases h

/-- What a dictionary holds under a name. -/
def Has (name : String) (c : Entries) (p : Value → Prop) : Prop :=
  ∃ v, Value.get? name c = some v ∧ p v

def Complete (names : List String) (c : Entries) : Prop :=
  ∀ n ∈ names, ∃ v, Value.get? n c = some v

theorem missing_eq_nil {names : List String} {c : Entries} : missing names c = [] ↔ Complete names c := by
  simp [missing, Complete, List.filter_eq_nil_iff, Option.isNone_iff_eq_none, Option.ne_none_iff_exists']

theorem requireFields_judged (part : String) (names : List String) (c : Entries) :
    Judged (requireFields part names c) (Complete names c) False := by
  rw [← missing_eq_nil]
  unfold requireFields
  split
  · next h => exact Judged.accept.congr (iff_of_true trivial h) Iff.rfl
  · next h => exact (Judged.refuse _).congr (iff_of_false id h) Iff.rfl

theorem has_iff {name : String} {c : Entries} {p : Value → Prop} (h : ∃ v, Value.get? name c = some v) :
    Has name c p ↔ p (Value.get name c) := by
  obtain ⟨v, hv⟩ := h
  simp [Has, Value.get, hv]

theorem Has.mem {name : String} {c : Entries} {p : Value → Prop} (h : Has name c p) :
    ∃ v, Value.get? name c = some v := h.imp fun _ => And.left

def manualFields : List String :=
  ["enable", "end_time", "power", "start_time", "time_num", "week_set"]

def passiveFields : List String := ["cd_time", "power"]

/-- The description of a slot. What makes the slot active is left open. -/
structure ManualPart (flag : Value → Prop) (c : Entries) : Prop where
  slot : Has "time_num" c (Between 0 3)
  start : Has "start_time" c fun v => TimeOfDay.check v "start_time" = .ok ()
  stop : Has "end_time" c fun v => TimeOfDay.check v "end_time" = .ok ()
  weekSet : Has "week_set" c (Between 0 127)
  power : Has "power" c (Between (-5000) 5000)
  enable : Has "enable" c flag

/-- A power for some time. -/
structure PassivePart (c : Entries) : Prop where
  power : Has "power" c (Between (-5000) 5000)
  countdown : Has "cd_time" c (Between 0 86400)

/-- The description of a slot stops its check at the first bad field, if that one's value cannot be
written out; times are texts, and these can. -/
def ManualPart.Stops (c : Entries) : Prop :=
  Complete manualFields c ∧
    (¬(Value.get "time_num" c).Printable ∨
      Between 0 3 (Value.get "time_num" c) ∧
      TimeOfDay.check (Value.get "start_time" c) "start_time" = .ok () ∧
      TimeOfDay.check (Value.get "end_time" c) "end_time" = .ok () ∧
      (Endless (Value.get "week_set" c) ∨
        Between 0 127 (Value.get "week_set" c) ∧
        (Endless (Value.get "power" c) ∨
          Between (-5000) 5000 (Value.get "power" c) ∧ ¬(Value.get "enable" c).Printable)))

def PassivePart.Stops (c : Entries) : Prop :=
  Complete passiveFields c ∧
    (Endless (Value.get "power" c) ∨
      Between (-5000) 5000 (Value.get "power" c) ∧ Endless (Value.get "cd_time" c))

theorem manualPart_judged (c : Entries) :
    Judged (manualPart c) (ManualPart Flag c) (ManualPart.Stops c) := by
  have all := (requireFields_judged "manual_cfg" manualFields c).seq <|
    (slot_judged (Value.get "time_num" c)).seq <|
    (time_judged (Value.get "start_time" c) "start_time").seq <|
    (time_judged (Value.get "end_time" c) "end_time").seq <|
    (weekSet_judged (Value.get "week_set" c) "week_set").seq <|
    (power_judged (Value.get "power" c) "power").seq (enable_judged (Value.get "enable" c))
  refine all.congr ?_ (by simp only [false_or]; exact Iff.rfl)
  constructor
  · rintro ⟨complete, slot, start, stop, weekSet, power, enable⟩
    have has {name : String} {p : Value → Prop} (h : name ∈ manualFields) (hp : p (Value.get name c)) :
        Has name c p := (has_iff (complete name h)).mpr hp
    exact ⟨has (by decide) slot, has (by decide) start, has (by decide) stop, has (by decide) weekSet,
      has (by decide) power, has (by decide) enable⟩
  · rintro ⟨slot, start, stop, weekSet, power, enable⟩
    have complete : Complete manualFields c := by
      simp only [Complete, manualFields, List.forall_mem_cons]
      exact ⟨enable.mem, stop.mem, power.mem, start.mem, slot.mem, weekSet.mem, List.forall_mem_nil _⟩
    exact ⟨complete, (has_iff slot.mem).mp slot, (has_iff start.mem).mp start,
      (has_iff stop.mem).mp stop, (has_iff weekSet.mem).mp weekSet, (has_iff power.mem).mp power,
      (has_iff enable.mem).mp enable⟩

theorem passivePart_judged (c : Entries) :
    Judged (passivePart c) (PassivePart c) (PassivePart.Stops c) := by
  have all := (requireFields_judged "passive_cfg" passiveFields c).seq <|
    (power_judged (Value.get "power" c) "power").seq (countdown_judged (Value.get "cd_time" c) "cd_time")
  refine all.congr ?_ (by simp only [false_or]; exact Iff.rfl)
  constructor
  · rintro ⟨complete, power, countdown⟩
    exact ⟨(has_iff (complete _ (by decide))).mpr power, (has_iff (complete _ (by decide))).mpr countdown⟩
  · rintro ⟨power, countdown⟩
    have complete : Complete passiveFields c := by
      simp only [Complete, passiveFields, List.forall_mem_cons]
      exact ⟨countdown.mem, power.mem, List.forall_mem_nil _⟩
    exact ⟨complete, (has_iff power.mem).mp power, (has_iff countdown.mem).mp countdown⟩

/-- A change of mode: the mode, and the part that belongs to it. What makes a slot active is left
open. -/
inductive ModeChange (flag : Value → Prop) : Value → Prop
  | auto {c d : Entries} : Has "mode" c (·.asText? = some "Auto") → Value.get? "auto_cfg" c = some (.dict d) →
      ModeChange flag (.dict c)
  | ai {c d : Entries} : Has "mode" c (·.asText? = some "AI") → Value.get? "ai_cfg" c = some (.dict d) →
      ModeChange flag (.dict c)
  | manual {c d : Entries} : Has "mode" c (·.asText? = some "Manual") →
      Value.get? "manual_cfg" c = some (.dict d) → ManualPart flag d → ModeChange flag (.dict c)
  | passive {c d : Entries} : Has "mode" c (·.asText? = some "Passive") →
      Value.get? "passive_cfg" c = some (.dict d) → PassivePart d → ModeChange flag (.dict c)

/-- A change of mode stops its check if its mode cannot be looked up, if it is none and cannot be
written out, or at the part that belongs to it. -/
inductive ModeChange.Stops : Value → Prop
  | unhashable {c : Entries} {f : Fault} : (Value.get "mode" c).hashable = .error f → Stops (.dict c)
  | unprintable {c : Entries} : ¬(Value.get "mode" c).Printable → Stops (.dict c)
  | manual {c d : Entries} : Has "mode" c (·.asText? = some "Manual") →
      Value.get? "manual_cfg" c = some (.dict d) → ManualPart.Stops d → Stops (.dict c)
  | passive {c d : Entries} : Has "mode" c (·.asText? = some "Passive") →
      Value.get? "passive_cfg" c = some (.dict d) → PassivePart.Stops d → Stops (.dict c)

theorem hashable_of_asText? {v : Value} {s : String} (h : v.asText? = some s) : v.hashable = .ok () := by
  cases v <;> first | rfl | cases h

theorem printable_of_asText? {v : Value} {s : String} (h : v.asText? = some s) : v.Printable := by
  rw [Value.printable_iff_display, Value.display, h]
  exact ⟨s, rfl⟩

theorem has_text {name text : String} {c : Entries} :
    Has name c (·.asText? = some text) ↔ (Value.get name c).asText? = some text := by
  cases h : Value.get? name c with
  | none => simp [Has, Value.get, h, Value.asText?]
  | some v => simp [Has, Value.get, h]

section

variable {c : Entries} {name mode : String}

theorem modeChange_iff {flag : Value → Prop} : ModeChange flag (.dict c) ↔
    ((Value.get "mode" c).asText? = some "Auto" ∧ ∃ d, Value.get? "auto_cfg" c = some (.dict d)) ∨
    ((Value.get "mode" c).asText? = some "AI" ∧ ∃ d, Value.get? "ai_cfg" c = some (.dict d)) ∨
    ((Value.get "mode" c).asText? = some "Manual" ∧
      ∃ d, Value.get? "manual_cfg" c = some (.dict d) ∧ ManualPart flag d) ∨
    ((Value.get "mode" c).asText? = some "Passive" ∧
      ∃ d, Value.get? "passive_cfg" c = some (.dict d) ∧ PassivePart d) := by
  simp only [← has_text]
  constructor
  · rintro (⟨mode, part⟩ | ⟨mode, part⟩ | ⟨mode, part, good⟩ | ⟨mode, part, good⟩)
    · exact .inl ⟨mode, _, part⟩
    · exact .inr (.inl ⟨mode, _, part⟩)
    · exact .inr (.inr (.inl ⟨mode, _, part, good⟩))
    · exact .inr (.inr (.inr ⟨mode, _, part, good⟩))
  · rintro (⟨mode, _, part⟩ | ⟨mode, _, part⟩ | ⟨mode, _, part, good⟩ | ⟨mode, _, part, good⟩)
    · exact .auto mode part
    · exact .ai mode part
    · exact .manual mode part good
    · exact .passive mode part good

theorem modeChange_stops_iff : ModeChange.Stops (.dict c) ↔
    (∃ f, (Value.get "mode" c).hashable = .error f) ∨ ¬(Value.get "mode" c).Printable ∨
    ((Value.get "mode" c).asText? = some "Manual" ∧
      ∃ d, Value.get? "manual_cfg" c = some (.dict d) ∧ ManualPart.Stops d) ∨
    ((Value.get "mode" c).asText? = some "Passive" ∧
      ∃ d, Value.get? "passive_cfg" c = some (.dict d) ∧ PassivePart.Stops d) := by
  simp only [← has_text]
  constructor
  · rintro (hash | unshown | ⟨mode, part, stops⟩ | ⟨mode, part, stops⟩)
    · exact .inl ⟨_, hash⟩
    · exact .inr (.inl unshown)
    · exact .inr (.inr (.inl ⟨mode, _, part, stops⟩))
    · exact .inr (.inr (.inr ⟨mode, _, part, stops⟩))
  · rintro (⟨_, hash⟩ | unshown | ⟨mode, _, part, stops⟩ | ⟨mode, _, part, stops⟩)
    · exact .unhashable hash
    · exact .unprintable unshown
    · exact .manual mode part stops
    · exact .passive mode part stops

theorem sectionOf_eq_ok {d : Entries} : sectionOf c name mode = .ok d ↔ Value.get? name c = some (.dict d) := by
  have get : Value.get? name c = some (.dict d) ↔ Value.get name c = .dict d := by
    cases h : Value.get? name c <;> simp [Value.get, h]
  rw [get]
  unfold sectionOf
  cases Value.get name c <;> simp [reject]

theorem sectionOf_ne_fault {f : Fault} : sectionOf c name mode ≠ .error (.fault f) := by
  unfold sectionOf
  split <;> nofun

/-- A part is looked at if it is a dictionary. -/
theorem section_judged {part : Entries → Checked Unit} {good stops : Entries → Prop}
    (h : ∀ d, Judged (part d) (good d) (stops d)) : Judged (sectionOf c name mode >>= part)
      (∃ d, Value.get? name c = some (.dict d) ∧ good d) (∃ d, Value.get? name c = some (.dict d) ∧ stops d) := by
  simp only [← @sectionOf_eq_ok c name mode, ← (h _).accepts, ← (h _).faults]
  constructor
  · rw [bind_eq_ok]
  · simp only [bind_eq_error, sectionOf_ne_fault, false_or]
    exact ⟨fun ⟨f, d, hd, hf⟩ => ⟨d, hd, f, hf⟩, fun ⟨d, hd, f, hf⟩ => ⟨f, d, hd, hf⟩⟩

end

theorem modeChange_judged (v : Value) : Judged (modeChange v) (ModeChange Flag v) (ModeChange.Stops v) := by
  cases v with
  | dict c =>
    rw [modeChange_iff, modeChange_stops_iff]
    unfold modeChange
    dsimp only
    cases hash : (Value.get "mode" c).hashable with
    | error f =>
      have no_text : ∀ s, (Value.get "mode" c).asText? ≠ some s := fun s h => by
        rw [hashable_of_asText? h] at hash
        cases hash
      refine ⟨iff_of_false ?_ (by simp [no_text]), iff_of_true ⟨f, rfl⟩ (.inl ⟨f, rfl⟩)⟩
      rintro ⟨⟩
    | ok _ =>
      change Judged (pure PUnit.unit >>= _) _ _
      rw [pure_bind]
      split
      · next mode =>
        exact (section_judged manualPart_judged).congr (by simp [mode])
          (by simp [mode, printable_of_asText? mode])
      · next mode =>
        exact (section_judged passivePart_judged).congr (by simp [mode])
          (by simp [mode, printable_of_asText? mode])
      · next mode =>
        exact (section_judged fun _ => Judged.accept).congr (by simp [mode])
          (by simp [mode, printable_of_asText? mode])
      · next mode =>
        exact (section_judged fun _ => Judged.accept).congr (by simp [mode])
          (by simp [mode, printable_of_asText? mode])
      · next manual passive auto ai =>
        refine (Judged.show_refused _ _).congr (iff_of_false id ?_) ⟨fun h => .inr (.inl h), ?_⟩
        · rintro (⟨mode, -⟩ | ⟨mode, -⟩ | ⟨mode, -⟩ | ⟨mode, -⟩)
          · exact auto mode
          · exact ai mode
          · exact manual mode
          · exact passive mode
        · rintro (⟨_, ⟨⟩⟩ | unshown | ⟨mode, -⟩ | ⟨mode, -⟩)
          · exact unshown
          · exact (manual mode).elim
          · exact (passive mode).elim
  | none | bool _ | int _ | float _ | text _ | broken _ | bytes _ | list _ | quantity _ _ | switch _ =>
    refine (Judged.refuse _).congr (iff_of_false id ?_) (iff_of_false id ?_) <;> rintro ⟨⟩

/-- The whole numbers 0 and 1. -/
def WholeFlag (v : Value) : Prop := v = .int 0 ∨ v = .int 1

/-- A good change to a slot in all but the type of its flag, which is no whole number. -/
def FloatFlagged (v : Value) : Prop :=
  ∃ c d f, v = .dict c ∧ Has "mode" c (·.asText? = some "Manual") ∧
    Value.get? "manual_cfg" c = some (.dict d) ∧ ManualPart Flag d ∧
    Value.get? "enable" d = some (.float f)

theorem ManualPart.mono {p q : Value → Prop} {c : Entries} (h : ManualPart p c)
    (hpq : ∀ v, Value.get? "enable" c = some v → p v → q v) : ManualPart q c :=
  { h with enable := h.enable.imp fun v hv => ⟨hv.1, hpq v hv.1 hv.2⟩ }

theorem ModeChange.of_whole {v : Value} (h : ModeChange WholeFlag v) : ModeChange Flag v := by
  cases h with
  | auto mode part => exact .auto mode part
  | ai mode part => exact .ai mode part
  | manual mode part good =>
    exact .manual mode part (good.mono fun v _ whole => whole.imp_right .inl)
  | passive mode part good => exact .passive mode part good

theorem ModeChange.whole_iff {v : Value} (h : ModeChange Flag v) :
    ModeChange WholeFlag v ↔ ¬FloatFlagged v := by
  constructor
  · rintro whole ⟨c, d, f, rfl, mode, part, -, enable⟩
    rw [modeChange_iff, has_text.mp mode, part] at whole
    obtain ⟨_, rfl, good⟩ : ∃ d', d = d' ∧ ManualPart WholeFlag d' := by simpa using whole
    obtain ⟨v, hv, zero | one⟩ := good.enable
    · cases enable.symm.trans (hv.trans (congrArg some zero))
    · cases enable.symm.trans (hv.trans (congrArg some one))
  · intro other
    cases h with
    | auto mode part => exact .auto mode part
    | ai mode part => exact .ai mode part
    | manual mode part good =>
      refine .manual mode part (good.mono fun v hv flag => ?_)
      rcases flag with zero | one | ⟨f, rfl, -⟩
      · exact .inl zero
      · exact .inr one
      · exact absurd ⟨_, _, f, rfl, mode, part, good, hv⟩ other
    | passive mode part good => exact .passive mode part good

/-- What changes of mode are accepted. The flag of a slot passes as a float, too, and apart from that
all numbers are whole. -/
theorem modes_accepted (v : Value) : (modeChange v = .ok () ↔ ModeChange Flag v) ∧
    ((modeChange v = .ok () ↔ ModeChange WholeFlag v) ↔ ¬FloatFlagged v) := by
  have accepted := (modeChange_judged v).accepts
  refine ⟨accepted, ?_⟩
  rw [accepted]
  constructor
  · rintro same ⟨c, d, f, rfl, mode, part, good, enable⟩
    have change := ModeChange.manual mode part good
    exact change.whole_iff.mp (same.mp change) ⟨c, d, f, rfl, mode, part, good, enable⟩
  · exact fun other => ⟨fun change => change.whole_iff.mpr other, ModeChange.of_whole⟩

/-- A slot whose flag is the float 1. -/
def floatFlagged : Entries :=
  [(.text "time_num", .int 0), (.text "start_time", .text "08:00"), (.text "end_time", .text "16:00"),
    (.text "week_set", .int 127), (.text "power", .int 100), (.text "enable", .float (.exactInt 1))]

theorem float_flag_accepted : ¬∀ v, modeChange v = .ok () ↔ ModeChange WholeFlag v := by
  intro h
  have accepted : modeChange
      (.dict [(.text "mode", .text "Manual"), (.text "manual_cfg", .dict floatFlagged)]) = .ok () :=
    toOption_eq_some.mp (by decide +kernel)
  have change := (h _).mp accepted
  rw [modeChange_iff] at change
  have good : ManualPart WholeFlag floatFlagged := by
    simpa [Value.get, Value.get?, Value.plainText?, Value.asText?] using change
  obtain ⟨v, ⟨⟩, zero | one⟩ := good.enable
  · cases zero
  · cases one

end BatteryLink.Check
