import BatteryLink.Proofs.Verdicts
/-!
Where the checks of whole requests stop without a verdict: at a parameter whose name is no text, and at
bad values that cannot be written out or looked up.
-/
namespace BatteryLink.Check

variable {m : Method} {p : Entries}

theorem rank?_of_asText? {v : Value} {s : String} (h : v.asText? = some s) : rank? v = some 1 := by
  cases v <;> first | rfl | cases h

theorem firstUnordered?_texts {keys : List Value} (h : ∀ k ∈ keys, ∃ s, k.asText? = some s) :
    firstUnordered? keys = none := by
  fun_induction firstUnordered? keys with
  | case1 a b r _ ih => exact ih fun k hk => h k (List.mem_cons_of_mem _ hk)
  | case2 a b r unordered =>
    obtain ⟨s, hs⟩ := h a List.mem_cons_self
    obtain ⟨t, ht⟩ := h b (List.mem_cons_of_mem _ List.mem_cons_self)
    rw [rank?_of_asText? hs, rank?_of_asText? ht] at unordered
    exact absurd rfl unordered
  | case3 => rfl

/-- Names can be put in order and joined if all of them are texts. -/
theorem sortedNames_fault_iff {keys : List Value} :
    (∃ f, sortedNames keys = .error f) ↔ ∃ k ∈ keys, k.asText? = none := by
  by_cases texts : ∀ k ∈ keys, ∃ s, k.asText? = some s
  · refine iff_of_false (fun ⟨f, h⟩ => ?_) fun ⟨k, hk, strange⟩ => ?_
    · unfold sortedNames at h
      rw [firstUnordered?_texts texts] at h
      dsimp only at h
      split at h
      · next k hk =>
        have mem := List.mem_of_find?_eq_some hk
        obtain ⟨s, hs⟩ := texts k (List.mem_mergeSort.mp mem)
        simpa [hs] using List.find?_some hk
      · cases h
    · obtain ⟨s, hs⟩ := texts k hk
      cases strange.symm.trans hs
  · have stranger : ∃ k ∈ keys, k.asText? = none := by
      simpa [← Option.isSome_iff_exists] using texts
    refine iff_of_true ?_ stranger
    obtain ⟨k, hk, strange⟩ := stranger
    unfold sortedNames
    split
    · exact ⟨_, rfl⟩
    · dsimp only
      split
      · exact ⟨_, rfl⟩
      · next all =>
        exact absurd (List.find?_eq_none.mp all k (List.mem_mergeSort.mpr hk)) (by simp [strange])

/-- Parameters that all have names the method knows. -/
def Known (m : Method) (p : Entries) : Prop :=
  ∀ e ∈ p, ∃ s ∈ m.required ++ m.optional, e.1.asText? = some s

theorem isStranger_iff {names : List String} {k : Value} :
    (!(k.asText?.any names.contains)) = true ↔ ¬∃ s ∈ names, k.asText? = some s := by
  cases k.asText? <;> simp

theorem strangers_eq_nil {names : List String} :
    strangers names p = [] ↔ ∀ e ∈ p, ∃ s ∈ names, e.1.asText? = some s := by
  simp only [strangers, List.filter_eq_nil_iff, isStranger_iff, not_not, List.forall_mem_map]

theorem nameless_stranger {names : List String} :
    (∃ k ∈ strangers names p, k.asText? = none) ↔ ∃ e ∈ p, e.1.asText? = none := by
  simp only [strangers, List.mem_filter, isStranger_iff, List.mem_map]
  constructor
  · rintro ⟨_, ⟨⟨e, he, rfl⟩, -⟩, strange⟩
    exact ⟨e, he, strange⟩
  · rintro ⟨e, he, strange⟩
    exact ⟨e.1, ⟨⟨e, he, rfl⟩, by simp [strange]⟩, strange⟩

theorem required_judged (m : Method) (p : Entries) :
    Judged (match missing m.required p with
      | [] => .ok ()
      | absent => reject (.missingParameters m.name absent)) (Complete m.required p) False := by
  rw [← missing_eq_nil]
  split
  · next h => exact Judged.accept.congr (iff_of_true trivial h) Iff.rfl
  · next h => exact (Judged.refuse _).congr (iff_of_false id h) Iff.rfl

theorem known_judged (m : Method) (p : Entries) :
    Judged (match strangers (m.required ++ m.optional) p with
      | [] => .ok ()
      | strange => orFault (sortedNames strange) >>= fun names =>
        reject (.unknownParameters m.name names))
      (Known m p) (∃ e ∈ p, e.1.asText? = none) := by
  rw [Known, ← strangers_eq_nil, ← @nameless_stranger _ (m.required ++ m.optional)]
  split
  · next h => exact Judged.accept.congr (iff_of_true trivial h) (by simp [h])
  · next h =>
    rw [← sortedNames_fault_iff]
    cases sortedNames (strangers (m.required ++ m.optional) p) with
    | ok names => exact (Judged.refuse _).congr (iff_of_false id h) (by simp)
    | error f => exact ⟨iff_of_false nofun h, iff_of_true ⟨f, rfl⟩ ⟨f, rfl⟩⟩

/-- The device that is meant, if one is named. -/
def Addressed (p : Entries) : Prop := ∀ v, Value.get? "id" p = some v → Between 0 255 v

theorem addressed_judged (p : Entries) :
    Judged (match Value.get? "id" p with
      | some v => deviceId v "id"
      | none => .ok ()) (Addressed p) (Endless (Value.get "id" p)) := by
  unfold Addressed Value.get
  cases Value.get? "id" p with
  | some v => exact (deviceId_judged v "id").congr (by simp) Iff.rfl
  | none => exact Judged.accept.congr (by simp) (by simp [Endless])

theorem config_judged (m : Method) (v : Value) :
    Judged (if m = .setMode then modeChange v else .ok ()) (m = .setMode → ModeChange Flag v)
      (m = .setMode ∧ ModeChange.Stops v) := by
  split
  · next h => exact (modeChange_judged v).congr (by simp [h]) (by simp [h])
  · next h => exact Judged.accept.congr (by simp [h]) (by simp [h])

/-- Parameters that stop their check: one without a name, a whole number for the device that cannot be
written out, or such a change of mode. -/
def ParametersStop (m : Method) (p : Entries) : Prop :=
  Complete m.required p ∧
    ((∃ e ∈ p, e.1.asText? = none) ∨
      Known m p ∧
      (Endless (Value.get "id" p) ∨
        Addressed p ∧ m = .setMode ∧ ModeChange.Stops (Value.get "config" p)))

/-- Parameters that are accepted. -/
def ParametersGood (m : Method) (p : Entries) : Prop :=
  Complete m.required p ∧ Known m p ∧ Addressed p ∧
    (m = .setMode → ModeChange Flag (Value.get "config" p))

/-- Each part is looked at if those before it are accepted. -/
theorem parameters_eq {name : Value} (h : method name = .ok m) (p : Entries) :
    parameters name (.dict p) =
      (match missing m.required p with
        | [] => .ok ()
        | absent => reject (.missingParameters m.name absent)) >>= fun _ =>
      (match strangers (m.required ++ m.optional) p with
        | [] => .ok ()
        | strange => orFault (sortedNames strange) >>= fun names =>
          reject (.unknownParameters m.name names)) >>= fun _ =>
      (match Value.get? "id" p with
        | some v => deviceId v "id"
        | none => .ok ()) >>= fun _ =>
      if m = .setMode then modeChange (Value.get "config" p) else .ok () := by
  have run (f : Method → Checked Unit) : (Except.ok m >>= f) = f m := rfl
  unfold parameters
  rw [h, run]
  dsimp only
  rcases missing m.required p with _ | ⟨n, ns⟩
  · rcases strangers (m.required ++ m.optional) p with _ | ⟨k, ks⟩
    · cases Value.get? "id" p <;> rfl
    · change (orFault (sortedNames (k :: ks)) >>= _) = (orFault (sortedNames (k :: ks)) >>= _) >>= _
      cases sortedNames (k :: ks) <;> rfl
  · rfl

theorem parameters_judged {name : Value} (h : method name = .ok m) (p : Entries) :
    Judged (parameters name (.dict p)) (ParametersGood m p) (ParametersStop m p) := by
  rw [parameters_eq h]
  have all := (required_judged m p).seq <| (known_judged m p).seq <|
    (addressed_judged p).seq (config_judged m (Value.get "config" p))
  exact all.congr Iff.rfl (iff_of_eq (false_or _))

/-- A method and parameters that stop their check. -/
def RequestStops (name params : Value) : Prop :=
  ∃ m p, method name = .ok m ∧ params = .dict p ∧ ParametersStop m p

theorem method_ne_fault {name : Value} {f : Fault} : method name ≠ .error (.fault f) := by
  unfold method
  split
  · nofun
  · split <;> nofun

theorem parameters_stop_iff (name params : Value) :
    (∃ f, parameters name params = .error (.fault f)) ↔ RequestStops name params := by
  unfold RequestStops
  cases hm : method name with
  | error e =>
    have same : parameters name params = .error e := by
      unfold parameters
      rw [hm]
      rfl
    rw [same]
    refine iff_of_false ?_ nofun
    rintro ⟨f, ⟨⟩⟩
    exact method_ne_fault hm
  | ok m =>
    cases params with
    | dict p =>
      rw [(parameters_judged hm p).faults]
      constructor
      · exact fun stops => ⟨m, p, rfl, rfl, stops⟩
      · rintro ⟨_, _, ⟨⟩, ⟨⟩, stops⟩
        exact stops
    | none | bool _ | int _ | float _ | text _ | broken _ | bytes _ | list _ | quantity _ _ | switch _ =>
      unfold parameters
      rw [hm]
      exact iff_of_false nofun nofun

/-- The number of a request is whole and not negative, or a truth value. -/
def Numbered (v : Value) : Prop := (∃ b, v = .bool b) ∨ ∃ i, v = .int i ∧ 0 ≤ i

theorem commandId_judged (v : Value) :
    Judged (commandId v) (Numbered v) (¬Numbered v ∧ ¬v.Printable) := by
  refine (Judged.show_unless _ _ _).congr ?good (and_congr_left' (not_congr ?good))
  cases v <;> simp [Numbered]

/-- A command that stops its check: with a bad number that cannot be written out, or with such
parameters for its method. Absent parameters are an empty dictionary. -/
def CommandStops (v : Value) : Prop :=
  ∃ c, v = .dict c ∧ Complete ["id", "method"] c ∧
    (¬Numbered (Value.get "id" c) ∧ ¬(Value.get "id" c).Printable ∨
      Numbered (Value.get "id" c) ∧
        RequestStops (Value.get "method" c) ((Value.get? "params" c).getD (.dict [])))

theorem command_of_complete {c : Entries} (h : Complete ["id", "method"] c) :
    command (.dict c) = commandId (Value.get "id" c) >>= fun _ =>
      parameters (Value.get "method" c) ((Value.get? "params" c).getD (.dict [])) := by
  obtain ⟨i, hi⟩ := h "id" (by decide)
  obtain ⟨name, hname⟩ := h "method" (by decide)
  simp only [command, hi, hname]
  rfl

theorem command_of_incomplete {c : Entries} (h : ¬Complete ["id", "method"] c) :
    ∃ r, command (.dict c) = reject r := by
  unfold command
  cases hi : Value.get? "id" c with
  | none => exact ⟨.missingMember "id", by simp [hi, reject]; rfl⟩
  | some i =>
    cases hname : Value.get? "method" c with
    | none => exact ⟨.missingMember "method", by simp [hi, hname, reject]; rfl⟩
    | some name => exact absurd (by simp [Complete, hi, hname]) h

theorem command_stops_iff (v : Value) : (∃ f, command v = .error (.fault f)) ↔ CommandStops v := by
  unfold CommandStops
  cases v with
  | dict c =>
    by_cases complete : Complete ["id", "method"] c
    · rw [command_of_complete complete,
        ((commandId_judged _).seq ⟨Iff.rfl, parameters_stop_iff _ _⟩).faults]
      simp [complete]
    · obtain ⟨r, hr⟩ := command_of_incomplete complete
      rw [hr, (Judged.refuse r).faults]
      simp [complete]
  | none | bool _ | int _ | float _ | text _ | broken _ | bytes _ | list _ | quantity _ _ | switch _ =>
    exact iff_of_false nofun nofun

/-- Requests that stop the checks, with parameters and a method by themselves or as a whole command. All
others are accepted or refused. -/
theorem requests_stop (name params v : Value) :
    ((∃ f, parameters name params = .error (.fault f)) ↔ RequestStops name params) ∧
      ((∃ f, command v = .error (.fault f)) ↔ CommandStops v) :=
  ⟨parameters_stop_iff name params, command_stops_iff v⟩

/-- A list is no mode, and cannot be looked up among them. -/
theorem list_for_mode_stops : ¬∀ v f, command v ≠ .error (.fault f) := by
  intro h
  refine h (.dict [(.text "id", .int 0), (.text "method", .text "ES.SetMode"), (.text "params", .dict
    [(.text "id", .int 0), (.text "config", .dict [(.text "mode", .list [])])])]) (.unhashable "list") ?_
  rfl

end BatteryLink.Check
