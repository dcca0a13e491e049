import BatteryLink.Proofs.Carried
import BatteryLink.Status
/-!
The updates that a reply gives. Each field speaks for its own channel and for no other, unless one
of them holds a whole number that no double can hold: then nothing of the reply is told.
-/
namespace BatteryLink

/-- A whole number that is too large for a double. -/
def Value.Vast (v : Value) : Prop := ∃ i, v = .int i ∧ Binary64.ofInt? i = .none

theorem Value.intText_of_lt {i : Int} (h : i.natAbs < 10 ^ Reading.maxIntDigits) :
    intText i = .ok (toString i) := by
  unfold intText
  rw [if_neg (Nat.not_le.mpr h)]

theorem Value.display_int (i : Int) : display (.int i) = intText i := by
  simp only [display, asText?, shown, shownWithin]

namespace Status

/-- A number in one of the forms that replies give numbers in. -/
inductive Numeral : Value → Binary64 → Prop
  | int {i : Int} {x : Binary64} : Binary64.ofInt? i = some x → Numeral (.int i) x
  | float (x : Binary64) : Numeral (.float x) x
  | text {v : Value} {s : String} {x : Binary64} : v.asText? = some s →
      Reading.double? (Text.trimChars s.toList) = some x → Numeral v x

/-- What a channel is told of a raw value. -/
inductive Reads : Shape → Value → Value → Prop
  | quantity {unit : String} {v : Value} {x : Binary64} : Numeral v x →
      Reads (.quantity unit) v (.quantity (.float x) unit)
  | number {v : Value} {x : Binary64} : Numeral v x → Reads .number v (.float x)
  | flag {v : Value} {x : Binary64} : Numeral v x → Reads .flag v (.switch (x.eqInt 1))
  | truth (b : Bool) : Reads .switch (.bool b) (.switch b)
  | word {v : Value} {b : Bool} : v.asText?.bind switchWord? = some b → Reads .switch v (.switch b)
  | count {v : Value} {x : Binary64} : v.asText?.bind switchWord? = none → Numeral v x →
      Reads .switch v (.switch (!x.eqInt 0))
  | text {v : Value} {s : String} : v.asText? = some s → Reads .text v v
  | digits (i : Int) : Reads .text (.int i) (.text (toString i))
  | decimal (f : Binary64) : Reads .text (.float f) (.text (Value.floatText f))

variable {v w : Value} {x : Binary64} {shape : Shape}

theorem toDouble_some_iff : toDouble v = .ok (some x) ↔ Numeral v x := by
  constructor
  · intro h
    unfold toDouble at h
    split at h
    · split at h
      · next hi =>
        cases h
        exact .int hi
      · cases h
    · cases h
      exact .float x
    · obtain ⟨s, hs, hx⟩ := Option.bind_eq_some_iff.mp (Except.ok.inj h)
      exact .text hs hx
  · intro h
    cases h with
    | int hi => simp [toDouble, hi]
    | float => rfl
    | text hs hx =>
      unfold toDouble
      split
      · cases hs
      · cases hs
      · rw [hs]
        exact congrArg Except.ok hx

theorem toDouble_error_iff : (∃ e, toDouble v = .error e) ↔ v.Vast := by
  unfold toDouble Value.Vast
  split
  · next i => cases h : Binary64.ofInt? i <;> simp [h]
  · simp
  · next hi _ =>
    refine ⟨fun ⟨_, he⟩ => (by cases he), ?_⟩
    rintro ⟨i, rfl, -⟩
    exact absurd rfl (hi i)

theorem map_ok_iff {α β : Type} {c : Except Fault (Option α)} {f : α → β} {b : β} :
    (do return (← c).map f) = Except.ok (some b) ↔ ∃ a, c = .ok (some a) ∧ f a = b := by
  rcases c with e | _ | a <;> simp [bind, Except.bind, pure, Except.pure]

theorem map_error_iff {α β : Type} {c : Except Fault (Option α)} {f : α → β} :
    (∃ e, (do return (← c).map f) = Except.error e) ↔ ∃ e, c = .error e := by
  rcases c with e | _ | a <;> simp [bind, Except.bind, pure, Except.pure]

theorem toSwitch_of_ne_bool (hv : ∀ b, v ≠ .bool b) : toSwitch v =
    match v.asText?.bind switchWord? with
    | some b => .ok (some b)
    | none => do return (← toDouble v).map fun f => !f.eqInt 0 := by
  unfold toSwitch
  split
  · exact absurd rfl (hv _)
  · rfl

theorem toSwitch_some_iff {b : Bool} : toSwitch v = .ok (some b) ↔ Reads .switch v (.switch b) := by
  constructor
  · intro h
    by_cases hb : ∃ c, v = .bool c
    · obtain ⟨c, rfl⟩ := hb
      cases h
      exact .truth b
    · rw [toSwitch_of_ne_bool fun c hc => hb ⟨c, hc⟩] at h
      split at h
      · next c hc =>
        cases h
        exact .word hc
      · next none =>
        obtain ⟨x, hx, rfl⟩ := map_ok_iff.mp h
        exact .count none (toDouble_some_iff.mp hx)
  · intro h
    cases h with
    | truth => rfl
    | word hb =>
      rw [toSwitch_of_ne_bool (by rintro c rfl; cases hb), hb]
    | count none hx =>
      rw [toSwitch_of_ne_bool (by rintro c rfl; cases hx with | text hs _ => cases hs), none]
      exact map_ok_iff.mpr ⟨_, toDouble_some_iff.mpr hx, rfl⟩

theorem toSwitch_error_iff : (∃ e, toSwitch v = .error e) ↔ v.Vast := by
  unfold toSwitch
  split
  · simp [Value.Vast]
  · split
    · next b hb =>
      refine ⟨fun ⟨_, he⟩ => (by cases he), ?_⟩
      rintro ⟨i, rfl, -⟩
      cases hb
    · rw [map_error_iff, toDouble_error_iff]

theorem map_toDouble_iff {f : Binary64 → Value} :
    (do return (← toDouble v).map f) = Except.ok (some w) ↔ ∃ x, Numeral v x ∧ f x = w := by
  simp only [map_ok_iff, toDouble_some_iff]

theorem convert_text_int {i : Int} (h : i.natAbs < 10 ^ Reading.maxIntDigits) :
    convert .text (.int i) = .ok (some (.text (toString i))) := by
  have digits : Value.display (.int i) = .ok (toString i) :=
    (Value.display_int i).trans (Value.intText_of_lt h)
  simp only [convert, digits, bind, Except.bind, pure, Except.pure]

/-- A value is converted to what is read from it. -/
theorem convert_some_iff (hv : Json.Carries v) : convert shape v = .ok (some w) ↔ Reads shape v w := by
  cases shape with
  | quantity unit =>
    refine map_toDouble_iff.trans ⟨?_, ?_⟩
    · rintro ⟨x, hx, rfl⟩
      exact .quantity hx
    · intro h
      cases h with
      | quantity hx => exact ⟨_, hx, rfl⟩
  | number =>
    refine map_toDouble_iff.trans ⟨?_, ?_⟩
    · rintro ⟨x, hx, rfl⟩
      exact .number hx
    · intro h
      cases h with
      | number hx => exact ⟨_, hx, rfl⟩
  | flag =>
    refine map_toDouble_iff.trans ⟨?_, ?_⟩
    · rintro ⟨x, hx, rfl⟩
      exact .flag hx
    · intro h
      cases h with
      | flag hx => exact ⟨_, hx, rfl⟩
  | switch =>
    refine map_ok_iff.trans ⟨?_, fun h => ?_⟩
    · rintro ⟨b, hb, rfl⟩
      exact toSwitch_some_iff.mp hb
    · obtain ⟨b, rfl⟩ : ∃ b, w = .switch b := by cases h <;> exact ⟨_, rfl⟩
      exact ⟨b, toSwitch_some_iff.mpr h, rfl⟩
  | text =>
    -- here `hv` is needed: a longer whole number could not be written out
    constructor
    · intro h
      cases hv with
      | int hi =>
        rw [convert_text_int hi] at h
        cases h
        exact .digits _
      | float f =>
        cases h
        exact .decimal f
      | text s =>
        cases h
        exact .text rfl
      | broken s =>
        cases h
        exact .text rfl
      | none | bool _ | list _ | dict _ => cases h
    · intro h
      cases h with
      | text hs =>
        cases v with
        | text | broken | switch => rfl
        | _ => cases hs
      | digits i =>
        cases hv with
        | int hi => exact convert_text_int hi
      | decimal f => rfl

theorem convert_error_iff (hv : Json.Carries v) :
    (∃ e, convert shape v = .error e) ↔ shape ≠ .text ∧ v.Vast := by
  cases shape with
  | quantity unit => exact map_error_iff.trans (toDouble_error_iff.trans (by simp))
  | number => exact map_error_iff.trans (toDouble_error_iff.trans (by simp))
  | flag => exact map_error_iff.trans (toDouble_error_iff.trans (by simp))
  | switch => exact map_error_iff.trans (toSwitch_error_iff.trans (by simp))
  | text =>
    refine ⟨fun ⟨e, he⟩ => ?_, fun h => absurd rfl h.1⟩
    cases hv with
    | int hi =>
      rw [convert_text_int hi] at he
      cases he
    | _ => cases he

theorem Numeral.unique {y : Binary64} (hx : Numeral v x) (hy : Numeral v y) : x = y :=
  Option.some.inj (Except.ok.inj
    ((toDouble_some_iff.mpr hx).symm.trans (toDouble_some_iff.mpr hy)))

theorem Reads.unique {u : Value} (hw : Reads shape v w) (hu : Reads shape v u) : w = u := by
  cases shape with
  | switch =>
    obtain ⟨b, rfl⟩ : ∃ b, w = .switch b := by cases hw <;> exact ⟨_, rfl⟩
    obtain ⟨c, rfl⟩ : ∃ c, u = .switch c := by cases hu <;> exact ⟨_, rfl⟩
    rw [← toSwitch_some_iff] at hw hu
    cases hw.symm.trans hu
    rfl
  | text =>
    cases hw with
    | text hs =>
      cases hu with
      | text => rfl
      | digits | decimal => cases hs
    | digits | decimal =>
      cases hu with
      | text hs => cases hs
      | _ => rfl
  | quantity _ | number | flag =>
    cases hw with
    | _ hx =>
      cases hu with
      | _ hy => rw [hx.unique hy]

/-- What a field of a result says, if it is there, is not null and can be read. -/
def Field.Says (f : Field) (r : Reply.Entries) (w : Value) : Prop :=
  ∃ v, Value.get? f.key r = some v ∧ v ≠ .none ∧ Reads f.shape v w

theorem Field.Says.unique {f : Field} {r : Reply.Entries} {u : Value} (hw : f.Says r w)
    (hu : f.Says r u) : w = u := by
  obtain ⟨v, hv, -, hw⟩ := hw
  obtain ⟨v', hv', -, hu⟩ := hu
  cases hv.symm.trans hv'
  exact hw.unique hu

/-- A field for a number that holds one which no double can hold. -/
def Field.Bursts (f : Field) (r : Reply.Entries) : Prop :=
  f.shape ≠ .text ∧ ∃ v, Value.get? f.key r = some v ∧ v.Vast

/-- What a result tells the channels of some fields, in their order. -/
inductive Told (r : Reply.Entries) : List Field → List (String × Value) → Prop
  | nil : Told r [] []
  | said {f : Field} {fs : List Field} {w : Value} {us : List (String × Value)} : f.Says r w →
      Told r fs us → Told r (f :: fs) ((f.channel, w) :: us)
  | silent {f : Field} {fs : List Field} {us : List (String × Value)} : (∀ w, ¬ f.Says r w) →
      Told r fs us → Told r (f :: fs) us

variable {f : Field} {fs : List Field} {r : Reply.Entries}

theorem update_eq (f : Field) (r : Reply.Entries) : update f r =
    match Value.get? f.key r with
    | none | some .none => .ok none
    | some v => do return (← convert f.shape v).map fun w => (f.channel, w) := by
  unfold update Value.get
  cases Value.get? f.key r with
  | none => rfl
  | some v => cases v <;> rfl

theorem update_some_iff (hr : ∀ e ∈ r, Json.Carries e.2) {u : String × Value} :
    update f r = .ok (some u) ↔ u.1 = f.channel ∧ f.Says r u.2 := by
  rw [update_eq]
  unfold Field.Says
  split
  · next h => simp [h]
  · next h =>
    simp only [h, Option.some.injEq]
    refine ⟨fun he => (by cases he), ?_⟩
    rintro ⟨-, v, rfl, hv, -⟩
    exact absurd rfl hv
  · next v hv h =>
    obtain ⟨k, hk⟩ := Value.mem_of_get? h
    simp only [h, map_ok_iff, Option.some.injEq]
    constructor
    · rintro ⟨w, hw, rfl⟩
      exact ⟨rfl, v, rfl, hv, (convert_some_iff (hr _ hk)).mp hw⟩
    · rintro ⟨channel, _, rfl, -, hw⟩
      exact ⟨u.2, (convert_some_iff (hr _ hk)).mpr hw, by rw [← channel]⟩

theorem update_error_iff (hr : ∀ e ∈ r, Json.Carries e.2) :
    (∃ e, update f r = .error e) ↔ f.Bursts r := by
  rw [update_eq]
  unfold Field.Bursts
  split
  · next h => simp [h]
  · next h => simp [h, Value.Vast]
  · next v hv h =>
    obtain ⟨k, hk⟩ := Value.mem_of_get? h
    simp only [h, map_error_iff, convert_error_iff (hr _ hk), Option.some.injEq, exists_eq_left']

theorem updatesOf_error_iff (hr : ∀ e ∈ r, Json.Carries e.2) :
    (∃ e, updatesOf r fs = .error e) ↔ ∃ f ∈ fs, f.Bursts r := by
  induction fs with
  | nil => simp [updatesOf]
  | cons f fs ih =>
    have first := update_error_iff (f := f) hr
    simp only [List.mem_cons, exists_eq_or_imp, ← first, ← ih]
    rw [updatesOf]
    rcases update f r with e | u
    · simp [bind, Except.bind]
    · rcases updatesOf r fs with e | us <;> simp [bind, Except.bind, pure, Except.pure]

theorem updatesOf_told (hr : ∀ e ∈ r, Json.Carries e.2) {us : List (String × Value)}
    (h : updatesOf r fs = .ok us) : Told r fs us := by
  induction fs generalizing us with
  | nil =>
    cases h
    exact .nil
  | cons f fs ih =>
    obtain ⟨u, hu, h⟩ := bind_eq_ok.mp h
    obtain ⟨vs, hvs, h⟩ := bind_eq_ok.mp h
    cases h
    have rest := ih hvs
    cases u with
    | none =>
      refine .silent (fun w hw => ?_) rest
      have := (update_some_iff (f := f) (u := (f.channel, w)) hr).mpr ⟨rfl, hw⟩
      rw [hu] at this
      cases this
    | some u =>
      obtain ⟨channel, hw⟩ := (update_some_iff hr).mp hu
      obtain ⟨c, w⟩ := u
      cases channel
      exact .said hw rest

theorem Told.channel_mem {us : List (String × Value)} (h : Told r fs us) {u : String × Value}
    (hu : u ∈ us) : u.1 ∈ fs.map (·.channel) := by
  induction h with
  | nil => cases hu
  | said _ _ ih =>
    rcases List.mem_cons.mp hu with rfl | hu
    · exact List.mem_cons_self
    · exact List.mem_cons_of_mem _ (ih hu)
  | silent _ _ ih => exact List.mem_cons_of_mem _ (ih hu)

/-- A field tells its own channel what it says, and nobody else tells that channel anything. -/
theorem Told.mem_iff {us : List (String × Value)} (h : Told r fs us)
    (apart : (fs.map (·.channel)).Nodup) (hf : f ∈ fs) {w : Value} :
    (f.channel, w) ∈ us ↔ f.Says r w := by
  induction h with
  | nil => cases hf
  | @said g gs x us hx told ih =>
    obtain ⟨alone, apart⟩ := List.nodup_cons.mp apart
    rcases List.mem_cons.mp hf with rfl | hg
    · have silent : (f.channel, w) ∉ us := fun hu => alone (told.channel_mem hu)
      simp only [List.mem_cons, silent, or_false, Prod.mk.injEq, true_and]
      exact ⟨fun same => same ▸ hx, fun hw => hw.unique hx⟩
    · have other : f.channel ≠ g.channel := fun same => alone (List.mem_map.mpr ⟨f, hg, same⟩)
      simp only [List.mem_cons, Prod.mk.injEq, other, false_and, false_or]
      exact ih apart hg
  | @silent g gs us none told ih =>
    obtain ⟨alone, apart⟩ := List.nodup_cons.mp apart
    rcases List.mem_cons.mp hf with rfl | hg
    · exact iff_of_false (fun hu => alone (told.channel_mem hu)) (none w)
    · exact ih apart hg

theorem channels_nodup (m : Method) : ((fields m).map (·.channel)).Nodup := by
  cases m <;> decide

theorem Field.says_congr {s : Reply.Entries} (h : Value.get? f.key s = Value.get? f.key r)
    {w : Value} : f.Says s w ↔ f.Says r w := by
  simp only [Field.Says, h]

/-- A reply gives its updates exactly if no number in it is beyond the doubles. They are what its
fields say, in the order of the table, and another value of one field, or none, leaves what the
other fields tell their channels as it is. -/
theorem updates_told {payload : List UInt8} {r : Reply.Entries} (h : Reply.decode payload = .ok r)
    (m : Method) :
    ((∃ e, updates m r = .error e) ↔ ∃ f ∈ fields m, f.Bursts r) ∧
    (∀ us, updates m r = .ok us → Told r (fields m) us) ∧
    ∀ key s, (∀ e ∈ s, Json.Carries e.2) →
      (∀ k, k ≠ key → Value.get? k s = Value.get? k r) →
      ∀ us vs, updates m r = .ok us → updates m s = .ok vs →
        ∀ f ∈ fields m, f.key ≠ key → ∀ w, (f.channel, w) ∈ vs ↔ (f.channel, w) ∈ us := by
  have hr := Reply.carries_decode h
  refine ⟨updatesOf_error_iff hr, fun us => updatesOf_told hr, ?_⟩
  intro key s hs same us vs hus hvs f hf other w
  calc (f.channel, w) ∈ vs
    _ ↔ f.Says s w := (updatesOf_told hs hvs).mem_iff (channels_nodup m) hf
    _ ↔ f.Says r w := f.says_congr (same f.key other)
    _ ↔ (f.channel, w) ∈ us := ((updatesOf_told hr hus).mem_iff (channels_nodup m) hf).symm

/-- A reply whose state of charge is no number. -/
def unreadableCharge : List UInt8 :=
  "\x7b\"id\":0,\"result\":\x7b\"soc\":\"high\",\"bat_temp\":25\x7d\x7d".toUTF8.toList

/-- That reply, and the same with the field made null. -/
theorem updates_told_unreadableCharge : ∃ r us vs, Reply.decode unreadableCharge = .ok r ∧
    updates .batteryStatus r = .ok us ∧ us.map (·.1) = ["batteryTemperature"] ∧
    (¬ ∃ f ∈ fields .batteryStatus, f.Bursts r) ∧ Told r (fields .batteryStatus) us ∧
    updates .batteryStatus ((.text "soc", .none) :: r) = .ok vs ∧
    ∀ w, ("batteryTemperature", w) ∈ vs ↔ ("batteryTemperature", w) ∈ us := by
  have run : ((Reply.decode unreadableCharge).toOption.bind fun r =>
      (updates .batteryStatus r).toOption.bind fun us =>
      (updates .batteryStatus ((.text "soc", .none) :: r)).toOption.map fun _ =>
        us.map (·.1)) = some ["batteryTemperature"] := by decide +kernel
  obtain ⟨r, hr, run⟩ := Option.bind_eq_some_iff.mp run
  obtain ⟨us, hus, run⟩ := Option.bind_eq_some_iff.mp run
  obtain ⟨vs, hvs, channels⟩ := Option.map_eq_some_iff.mp run
  rw [toOption_eq_some] at hr hus hvs
  obtain ⟨bursts, told, others⟩ := updates_told hr .batteryStatus
  refine ⟨r, us, vs, hr, hus, channels, fun hb => ?_, told us hus, hvs, ?_⟩
  · obtain ⟨e, he⟩ := bursts.mpr hb
    cases hus.symm.trans he
  · refine others "soc" _ ?_ ?_ us vs hus hvs ⟨"bat_temp", "batteryTemperature", .quantity "°C"⟩
      (by decide) (by decide)
    · exact List.forall_mem_cons.mpr ⟨.none, Reply.carries_decode hr⟩
    · intro k hk
      simp [Value.get?, Value.plainText?, Ne.symm hk]

/-- A reply whose state of charge has 310 digits. -/
def overlongCharge : List UInt8 :=
  "\x7b\"id\":0,\"result\":\x7b\"bat_temp\":25,\"soc\":1".toUTF8.toList
    ++ List.replicate 309 48 ++ "\x7d\x7d".toUTF8.toList

/-- Nothing of that reply is told, short as it is. -/
theorem not_updates_always : ¬ ∀ payload r m, payload.length ≤ 4096 →
    Reply.decode payload = .ok r → ∃ us, updates m r = .ok us := by
  intro all
  have short : overlongCharge.length ≤ 4096 := by decide +kernel
  have stops : ((Reply.decode overlongCharge).toOption.map fun r =>
      (updates .batteryStatus r).toOption.isNone) = some true := by decide +kernel
  obtain ⟨r, hr, stops⟩ := Option.map_eq_some_iff.mp stops
  obtain ⟨us, hus⟩ := all _ r .batteryStatus short (toOption_eq_some.mp hr)
  rw [hus] at stops
  cases stops

end Status
end BatteryLink
