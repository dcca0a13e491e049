import BatteryLink.Proofs.Json.RoundTrip
import BatteryLink.Proofs.Requests
/-!
What was checked is what the device reads. A request that was checked comes back from its text as
the very command that was asked for, so that the device would accept it on the same terms.
-/
namespace BatteryLink

open Text (Symbols)

/-- A text is kept as broken only if some half of a pair stands alone in it. -/
def Value.Formed (v : Value) : Prop :=
  ∀ s, v = .broken s → Symbols.chars? s = Option.none

theorem Text.Symbols.replacement_of_broken {s : Symbols} (h : chars? s = none) :
    '\uFFFD' ∈ (glyphs s).toList := by
  rw [glyphs, String.toList_ofList]
  induction s with
  | nil => cases h
  | cons x s ih =>
    cases x with
    | char c => exact List.mem_cons_of_mem _ (ih (by simpa [chars?] using h))
    | surrogate n => exact List.mem_cons_self

theorem Method.eq_of_ofName? {s : String} {m : Method} (h : ofName? s = some m) : m.name = s := by
  simpa using List.find?_some h

/-- Only the names of methods are accepted for a method. -/
theorem Check.method_eq {v : Value} {m : Method} (formed : v.Formed) (h : method v = .ok m) :
    v = .text m.name := by
  unfold method at h
  split at h
  · cases h
  · next s hs =>
    split at h
    · next n hn =>
      cases h
      obtain rfl := Method.eq_of_ofName? hn
      cases v with
      | text t =>
        cases hs
        rfl
      | broken t =>
        have shown : Symbols.glyphs t = m.name := Option.some.inj hs
        have strange := Symbols.replacement_of_broken (formed t rfl)
        rw [shown] at strange
        cases m <;> exact absurd strange (by decide)
      | switch on =>
        have shown : Value.switchText on = m.name := Option.some.inj hs
        cases m <;> cases on <;> exact absurd shown (by decide)
      | none | bool _ | int _ | float _ | bytes _ | list _ | dict _ | quantity _ _ => cases hs
    · cases h

namespace Request

open Check (Checked)

theorem command_envelope (method params : Value) : Check.command (envelope method params) =
    Check.parameters method (if params.truthy then params else .dict []) := rfl

theorem checked_of_build {method params : Value} {payload : String}
    (h : build method params true = .ok payload) : Check.command (envelope method params) = .ok () := by
  unfold build at h
  obtain ⟨⟨⟩, checked, -⟩ := bind_eq_ok.mp h
  exact checked

theorem method_of_build {method params : Value} {payload : String} (formed : method.Formed)
    (h : build method params true = .ok payload) : ∃ m : Method, method = text m.name := by
  have checked := checked_of_build h
  rw [command_envelope, Check.parameters] at checked
  obtain ⟨m, hm, -⟩ := bind_eq_ok.mp checked
  exact ⟨m, Check.method_eq formed hm⟩

/-- Parameters that are absent are an empty dictionary. -/
theorem envelope_eq (method : Value) (params : Option (List (String × Value))) :
    envelope method (params.elim .none object) =
      object [("id", .int 0), ("method", method), ("params", object (params.getD []))] := by
  rcases params with _ | _ | ⟨m, ms⟩ <;> rfl

theorem plain_envelope {m : Method} {params : List (String × Value)} (plain : (object params).Plain) :
    (object [("id", .int 0), ("method", text m.name), ("params", object params)]).Plain := by
  refine .dict (by simp) fun e he => ?_
  simp only [List.mem_cons, List.not_mem_nil, or_false] at he
  rcases he with rfl | rfl | rfl
  · exact .int 0
  · exact .text _
  · exact plain

/-- A request that is checked is written in ASCII, and both its text and its octets are read as the
command that was asked for: absent parameters are empty, and the members are in their order. That
command is a good one. -/
theorem build_comes_back (method : Value) (params : Option (List (String × Value))) (payload : String)
    (formed : method.Formed) (plain : ∀ ms ∈ params, (object ms).Plain)
    (h : build method (params.elim .none object) true = .ok payload) :
    let command := object [("id", .int 0), ("method", method), ("params", object (params.getD []))]
    Json.Ascii payload ∧
    Json.readSymbols (Symbols.ofString payload) = .ok command ∧
    Json.read payload.toUTF8.toList = .ok command ∧
    Check.command command = .ok () := by
  intro command
  obtain ⟨m, rfl⟩ := method_of_build formed h
  have written := write_of_build h
  have checked := checked_of_build h
  rw [envelope_eq] at written checked
  have whole : command.Plain := by
    refine plain_envelope ?_
    cases params with
    | none => exact .empty
    | some ms => exact plain ms rfl
  exact ⟨Json.ascii_of_plain whole _ payload written, Json.readSymbols_write whole written,
    Json.read_write whole written, checked⟩

/-- Values of many kinds, with a text that needs every kind of escape. -/
def assorted : List Value :=
  [.none, .bool true, .int (-12345678901234567890), .list [], object [], text "\"\\/\n\x01\x7fé🔋"]

def assortedParams : List (String × Value) :=
  [("id", .int 7), ("config", object [("mode", text "Auto"),
    ("auto_cfg", object [("enable", .int 1), ("\t", .list assorted)])])]

theorem build_comes_back_assorted : ∃ payload,
    build (text "ES.SetMode") (object assortedParams) true = .ok payload ∧
    Json.Ascii payload ∧
    Json.read payload.toUTF8.toList = .ok (object [("id", .int 0), ("method", text "ES.SetMode"),
      ("params", object assortedParams)]) := by
  have built : (build (text "ES.SetMode") (object assortedParams) true).toOption.isSome := by
    decide +kernel
  obtain ⟨payload, hp⟩ := Option.isSome_iff_exists.mp built
  rw [toOption_eq_some] at hp
  have values : (Value.list assorted).Plain := by
    refine .list ?_
    simp only [assorted, List.forall_mem_cons]
    exact ⟨.none, .bool _, .int _, .list (List.forall_mem_nil _),
      .empty, .text _, List.forall_mem_nil _⟩
  have plain : (object assortedParams).Plain := by
    refine .dict (by decide) (List.forall_mem_cons.mpr ⟨.int 7, List.forall_mem_singleton.mpr ?_⟩)
    refine .dict (by decide) (List.forall_mem_cons.mpr ⟨.text _, List.forall_mem_singleton.mpr ?_⟩)
    refine .dict (by decide) (List.forall_mem_cons.mpr ⟨.int 1, List.forall_mem_singleton.mpr ?_⟩)
    exact values
  obtain ⟨ascii, -, read, -⟩ := build_comes_back (text "ES.SetMode") (some assortedParams) payload nofun
    (by rintro _ ⟨⟩; exact plain) hp
  exact ⟨payload, hp, ascii, read⟩

end Request
end BatteryLink
