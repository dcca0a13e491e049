import BatteryLink.Proofs.Json.RoundTrip
/-!
Replies that are nested deeper than there is room for. They are not refused like a text that is not in
the grammar: some of them are in it, and good replies, and yet nobody gets to read them.
-/
namespace BatteryLink

open Text (Symbol Symbols)

namespace Json

open Grammar

/-- Brackets that are opened one after the other take up all the room that there is. -/
theorem value_brackets {room n fuel : Nat} (more : room < n) (enough : 2 * room < fuel) :
    value fuel room (List.replicate n (.char '[')) = tooDeep "array" := by
  induction room generalizing n fuel with
  | zero =>
    obtain ⟨n, rfl⟩ := Nat.exists_eq_add_one_of_ne_zero (Nat.ne_zero_of_lt more)
    obtain ⟨fuel, rfl⟩ := Nat.exists_eq_add_one_of_ne_zero (Nat.ne_zero_of_lt enough)
    rw [List.replicate_succ, value]
  | succ room ih =>
    obtain ⟨n, rfl⟩ : ∃ m, n = m + 1 + 1 := ⟨n - 2, by omega⟩
    obtain ⟨fuel, rfl⟩ : ∃ k, fuel = k + 1 + 1 := ⟨fuel - 2, by omega⟩
    have inside : value fuel room (List.replicate (n + 1) (.char '[')) = tooDeep "array" :=
      ih (by omega) (by omega)
    rw [List.replicate_succ] at inside ⊢
    rw [List.replicate_succ, value_list (skipSpace_cons rfl _) (by decide), elements, inside]
    rfl

/-- Such a text is not refused: it is too deep. -/
theorem read_brackets {n : Nat} (more : Value.maxDepth < n) : read (List.replicate n 91) =
    .error (.fault (.tooDeep "decoding a JSON array from a unicode string")) := by
  obtain ⟨n, rfl⟩ : ∃ m, n = m + 1 + 1 := ⟨n - 2, by have : Value.maxDepth = 970 := rfl; omega⟩
  have ascii : IsAscii (.char '[') := ⟨by decide, by decide⟩
  have written : List.replicate (n + 1 + 1) 91 =
      Encoding.utf8.write (List.replicate (n + 1 + 1) (.char '[')) := by
    have single : Encoding.utf8.octets (Symbol.char '[').code = [91] := rfl
    simp [Encoding.write, Encoding.mark, List.flatMap_replicate, single]
  have spells : Spells (List.replicate (n + 1 + 1) 91) (List.replicate (n + 1 + 1) (.char '[')) := by
    rw [written]
    exact spells_write (detect_write ascii ascii .utf8)
      (fun x hx => List.eq_of_mem_replicate hx ▸ .char _) (absurd · Bool.false_ne_true)
  have deep : value (2 * (n + 1 + 1) + 2) Value.maxDepth (List.replicate (n + 1 + 1) (.char '[')) =
      tooDeep "array" := value_brackets more (by omega)
  rw [read, decodeText_iff.mpr spells]
  dsimp only
  rw [readSymbols, List.length_replicate, List.replicate_succ, skipSpace_cons rfl,
    ← List.replicate_succ, deep]
  rfl

/-- `n` lists around an empty one. -/
def stacked : Nat → Value
  | 0 => .list []
  | n + 1 => .list [stacked n]

def stackedText : Nat → String
  | 0 => "[]"
  | n + 1 => "[" ++ stackedText n ++ "]"

theorem denotes_stacked (n : Nat) : Denotes (Symbols.ofString (stackedText n)) (stacked n) := by
  induction n with
  | zero => exact .emptyList blank_nil
  | succ n ih =>
    rw [stackedText, Symbols.ofString_append, Symbols.ofString_append]
    have items := Items.last ih blank_nil
    rw [List.append_nil] at items
    exact .list blank_nil items

theorem nesting_stacked (n : Nat) : nesting (Symbols.ofString (stackedText n)) = n + 1 := by
  induction n with
  | zero => exact blank_nil.even.balanced.nesting_between (.inl rfl) (.inl rfl)
  | succ n ih =>
    rw [stackedText, Symbols.ofString_append, Symbols.ofString_append]
    refine ((denotes_stacked n).balanced.nesting_between (.inl rfl) (.inl rfl)).trans ?_
    rw [ih]

/-- A member of an object. -/
def named (name text : String) : String := writeText name ++ ":" ++ text

theorem member_named {text : String} {v : Value} (name : String) (h : Denotes (Symbols.ofString text) v) :
    Member (Symbols.ofString (named name text)) (Symbols.ofString name, v) := by
  obtain ⟨body, between, chars⟩ := ofString_writeText name
  have entry := Member.entry chars blank_nil blank_nil h blank_nil
  rw [List.append_nil, List.append_nil] at entry
  rw [named, Symbols.ofString_append, Symbols.ofString_append, between]
  exact entry

theorem even_name (name : String) : Even (Symbols.ofString (writeText name ++ ":")) := by
  obtain ⟨body, between, chars⟩ := ofString_writeText name
  have colon : Even [.char ':'] := even_of_flat (List.forall_mem_singleton.mpr (by decide))
  rw [Symbols.ofString_append, between]
  exact chars.even.append colon

theorem nesting_named (name text : String) :
    nesting (Symbols.ofString (named name text)) = nesting (Symbols.ofString text) := by
  rw [named, Symbols.ofString_append]
  exact (even_name name).nesting_append _

def braced (text : String) : String := "\x7b" ++ text ++ "\x7d"

section
variable {text : String} {ms : List (Symbols × Value)} (h : Members (Symbols.ofString text) ms)
include h

theorem object_braced : Object (Symbols.ofString (braced text)) ms := by
  rw [braced, Symbols.ofString_append, Symbols.ofString_append]
  exact .members blank_nil h

theorem nesting_braced : nesting (Symbols.ofString (braced text)) =
    nesting (Symbols.ofString text) + 1 := by
  rw [braced, Symbols.ofString_append, Symbols.ofString_append]
  exact h.balanced.nesting_between (.inr rfl) (.inr rfl)

end

/-- Each character of ASCII is one octet. -/
theorem length_toUTF8 {t : String} (h : Ascii t) : t.toUTF8.toList.length = t.length := by
  have single : ∀ c ∈ t.toList, octets8 c.toNat = [.ofNat c.toNat] := fun c hc => if_pos (h c hc)
  rw [octets_ascii h, Encoding.write, Symbols.ofString, List.flatMap_map]
  change (t.toList.flatMap fun c => octets8 c.toNat).length = _
  rw [List.flatMap_congr single, ← List.map_eq_flatMap, List.length_map, String.length_toList]

theorem ascii_stackedText (n : Nat) : Ascii (stackedText n) := by
  induction n with
  | zero => decide
  | succ n ih => exact (Ascii.append (by decide) ih).append (by decide)

theorem length_stackedText (n : Nat) : (stackedText n).length = 2 * n + 2 := by
  induction n with
  | zero => rfl
  | succ n ih =>
    rw [stackedText, String.length_append, String.length_append, ih]
    change 1 + (2 * n + 2) + 1 = _
    omega

end Json

namespace Reply

open Json (Spells Ascii named braced stacked stackedText writeText)
open Json.Grammar

/-- The result of a reply: the device took something, and something else is nested deep in it. -/
def deepResult (n : Nat) : String :=
  braced (named "set_result" "true" ++ "," ++ named "x" (stackedText n))

def deepText (n : Nat) : String := braced (named "result" (deepResult n))

def deep (n : Nat) : List UInt8 := (deepText n).toUTF8.toList

/-- What the result says, in the order in which it says it. -/
def deepMembers (n : Nat) : List (Symbols × Value) :=
  [(Symbols.ofString "set_result", .bool true), (Symbols.ofString "x", stacked n)]

theorem members_deepResult (n : Nat) : Members
    (Symbols.ofString (named "set_result" "true" ++ "," ++ named "x" (stackedText n))) (deepMembers n) := by
  have word : Denotes (Symbols.ofString "true") (.bool true) := .word (by simp [Json.wordValues])
  rw [Symbols.ofString_append, Symbols.ofString_append]
  have members := Members.more (Json.member_named "set_result" word) Json.blank_nil
    (.last (Json.member_named "x" (Json.denotes_stacked n)))
  rwa [← List.append_cons] at members

theorem members_deepText (n : Nat) : Members (Symbols.ofString (named "result" (deepResult n)))
    [(Symbols.ofString "result", .dict (extend [] (deepMembers n)))] :=
  .last (Json.member_named "result" (.dict (Json.object_braced (members_deepResult n))))

theorem nesting_deepText (n : Nat) : Json.nesting (Symbols.ofString (deepText n)) = n + 3 := by
  have word : Json.Even (Symbols.ofString "true") := Json.even_of_flat (by decide)
  have comma : Json.Even (Symbols.ofString ",") := Json.even_of_flat (by decide)
  have first : Json.Even (Symbols.ofString (named "set_result" "true" ++ ",")) := by
    rw [named, Symbols.ofString_append, Symbols.ofString_append]
    exact ((Json.even_name _).append word).append comma
  rw [deepText, Json.nesting_braced (members_deepText n), Json.nesting_named, deepResult,
    Json.nesting_braced (members_deepResult n), Symbols.ofString_append, first.nesting_append,
    Json.nesting_named, Json.nesting_stacked]

theorem ascii_deepText (n : Nat) : Ascii (deepText n) := by
  have member : ∀ name text : String, Ascii text → Ascii (named name text) := fun name text h =>
    ((Json.ascii_writeSymbols _).append (by decide)).append h
  have between : ∀ text : String, Ascii text → Ascii (braced text) := fun text h =>
    (Ascii.append (by decide) h).append (by decide)
  refine between _ (member _ _ (between _ (((member _ _ ?_).append ?_).append (member _ _ ?_))))
  · decide
  · decide
  · exact Json.ascii_stackedText n

theorem spells_deep (n : Nat) : Spells (deep n) (Symbols.ofString (deepText n)) := by
  obtain ⟨r, starts⟩ : ∃ r, Symbols.ofString (deepText n) = .char '\x7b' :: .char '"' :: r := by
    obtain ⟨r, named⟩ := (members_deepText n).leads
    refine ⟨r ++ [.char '\x7d'], ?_⟩
    rw [deepText, braced, Symbols.ofString_append, Symbols.ofString_append, named]
    rfl
  exact Json.decodeText_iff.mp (Json.decodeText_ascii (ascii_deepText n) starts
    ⟨by decide, by decide⟩ ⟨by decide, by decide⟩)

theorem length_deep (n : Nat) : (deep n).length = 2 * n + 37 := by
  rw [deep, Json.length_toUTF8 (ascii_deepText n)]
  simp only [deepText, deepResult, braced, named, String.length_append, Json.length_stackedText]
  have names : (writeText "result").length = 8 ∧ (writeText "set_result").length = 12 ∧
      (writeText "x").length = 3 := by decide
  rw [names.1, names.2.1, names.2.2]
  change 1 + (8 + 1 + (1 + (12 + 1 + 4 + 1 + (3 + 1 + (2 * n + 2))) + 1)) + 1 = _
  omega

/-- The reply is in the grammar, and its result says that the device took something. -/
theorem results_deep (n : Nat) : ∃ text ms r, Spells (deep n) text ∧ Framed Object text ms ∧
    Results ms r ∧ saysAccepted r = true := by
  refine ⟨_, _, extend [] (deepMembers n), spells_deep n,
    ⟨[], _, [], Json.blank_nil, Json.object_braced (members_deepText n), Json.blank_nil, by simp [deepText]⟩,
    ⟨.inl rfl, rfl⟩, rfl⟩

/-- And yet it is not read as a reply with a result, if it is nested too deep. -/
theorem decode_deep {n : Nat} (more : Value.maxDepth < n + 3) (fits : (deep n).length ≤ Exchange.bufferSize)
    (r : Entries) : decode (deep n) ≠ .ok r := by
  intro h
  have shallow := ((decode_iff (fits.trans (by decide))).mp h).2
  rw [Json.levels_eq (spells_deep n), nesting_deepText] at shallow
  exact Nat.not_lt.mpr shallow more

end Reply
end BatteryLink
