import BatteryLink.CommandLine.Program
import BatteryLink.Proofs.Cycle
import BatteryLink.Proofs.Replies
import BatteryLink.Proofs.Updates
import Mathlib.Data.String.Basic
/-!
What stands on a board: the last content of each channel that something was published on, in
alphabetical order, whatever was published in between. All that a poll publishes can be written, and it
is printed unless a surrogate stands alone in it.
-/
namespace BatteryLink

open Text (Symbols)

/-- Texts in which no surrogate stands alone. -/
def Text.Symbols.Plain (s : Symbols) : Prop := ∀ x ∈ s, x.char?.isSome = true

theorem Text.Symbols.plain_iff {s : Symbols} : s.Plain ↔ ∃ t, s = .ofString t := by
  constructor
  · intro plain
    obtain ⟨cs, rfl⟩ : ∃ cs : List Char, s = cs.map .char := by
      induction s with
      | nil => exact ⟨[], rfl⟩
      | cons x s ih =>
        obtain ⟨first, rest⟩ := List.forall_mem_cons.mp plain
        obtain ⟨cs, rfl⟩ := ih rest
        cases x with
        | char c => exact ⟨c :: cs, rfl⟩
        | surrogate n => cases first
    exact ⟨String.ofList cs, by rw [ofString, String.toList_ofList]⟩
  · rintro ⟨t, rfl⟩
    exact List.forall_mem_map.mpr fun _ _ => rfl

theorem Text.Symbols.chars?_eq_none {s : Symbols} (h : ¬ s.Plain) : s.chars? = none := by
  cases hs : s.chars? with
  | none => rfl
  | some cs => exact absurd (chars?_eq_some.mp hs ▸ List.forall_mem_map.mpr fun _ _ => rfl) h

theorem typed_plain {s : Symbols} (h : s.Plain) : typed s = .ok (s.glyphs ++ "\n") := by
  obtain ⟨t, rfl⟩ := Symbols.plain_iff.mp h
  rw [typed, Symbols.ofString, Symbols.chars?_map_char]
  dsimp only
  rw [String.ofList_toList, ← Symbols.ofString, Symbols.glyphs_ofString]

theorem typed_strange {s : Symbols} (h : ¬ s.Plain) :
    ∃ f, typed s = .error f ∧ f.name = "UnicodeEncodeError" := by
  rw [typed, Symbols.chars?_eq_none h]
  exact ⟨_, rfl, rfl⟩

/-- What was published last on a channel. -/
def Last (ps : List (String × Published)) (channel : String) (content : Published) : Prop :=
  ∃ before after, ps = before ++ (channel, content) :: after ∧ ∀ p ∈ after, p.1 ≠ channel

theorem last_concat {ps : List (String × Published)} {p : String × Published} {channel : String}
    {content : Published} : Last (ps ++ [p]) channel content ↔
      p = (channel, content) ∨ Last ps channel content ∧ p.1 ≠ channel := by
  constructor
  · rintro ⟨before, after, split, other⟩
    rcases List.eq_nil_or_concat' after with rfl | ⟨after, q, rfl⟩
    · exact .inl (List.singleton_inj.mp (List.append_inj_right' split rfl))
    · rw [← List.cons_append, ← List.append_assoc] at split
      obtain ⟨rfl, same⟩ := List.append_inj' split rfl
      obtain rfl := List.singleton_inj.mp same
      obtain ⟨earlier, last⟩ := List.forall_mem_append.mp other
      exact .inr ⟨⟨before, after, rfl, earlier⟩, last p (List.mem_singleton_self p)⟩
  · rintro (rfl | ⟨⟨before, after, rfl, other⟩, last⟩)
    · exact ⟨ps, [], rfl, List.forall_mem_nil _⟩
    · refine ⟨before, after ++ [p], by simp, ?_⟩
      exact List.forall_mem_append.mpr ⟨other, List.forall_mem_singleton.mpr last⟩

/-- Whatever was published on a channel, something was published last. -/
theorem exists_last {ps : List (String × Published)} {p : String × Published} (h : p ∈ ps) :
    ∃ content, Last ps p.1 content := by
  induction ps using List.reverseRecOn with
  | nil => cases h
  | append_singleton ps q ih =>
    by_cases same : q.1 = p.1
    · exact ⟨q.2, last_concat.mpr (.inl (by rw [← same]))⟩
    · rcases List.mem_append.mp h with earlier | now
      · obtain ⟨content, last⟩ := ih earlier
        exact ⟨content, last_concat.mpr (.inr ⟨last, same⟩)⟩
      · exact absurd (congrArg Prod.fst (List.mem_singleton.mp now).symm) same

namespace Board

variable {b : Board} {channel : String} {p : Published}

def Ordered (b : Board) : Prop := b.Pairwise (·.1 < ·.1)

/-- The name of a channel is no hindrance. -/
theorem plain_line {text : Symbols} : (line channel text).Plain ↔ text.Plain :=
  List.forall_mem_append.trans (and_iff_right (Symbols.plain_iff.mpr ⟨_, rfl⟩))

theorem mem_put (h : b.Ordered) {q : String × Published} :
    q ∈ b.put channel p ↔ q = (channel, p) ∨ q ∈ b ∧ q.1 ≠ channel := by
  induction b with
  | nil => simp [put]
  | cons x r ih =>
    obtain ⟨above, rest⟩ := List.pairwise_cons.mp h
    unfold put
    split
    · next same =>
      rw [List.mem_cons, List.mem_cons, ← same]
      constructor
      · rintro (rfl | later)
        · exact .inl rfl
        · exact .inr ⟨.inr later, (above q later).ne'⟩
      · rintro (rfl | ⟨rfl | later, other⟩)
        · exact .inl rfl
        · exact absurd rfl other
        · exact .inr later
    · next other =>
      split
      · next less =>
        have absent : ∀ y ∈ x :: r, y.1 ≠ channel :=
          List.forall_mem_cons.mpr ⟨other, fun y hy => (less.trans (above y hy)).ne'⟩
        rw [List.mem_cons]
        exact or_congr_right (and_iff_left_of_imp (absent q)).symm
      · rw [List.mem_cons, List.mem_cons, ih rest, or_and_right, or_left_comm]
        refine or_congr_right (or_congr_left (and_iff_left_of_imp ?_).symm)
        rintro rfl
        exact other

theorem ordered_put (h : b.Ordered) : (b.put channel p).Ordered := by
  induction b with
  | nil => exact List.pairwise_singleton _ _
  | cons x r ih =>
    obtain ⟨above, rest⟩ := List.pairwise_cons.mp h
    unfold put
    split
    · exact List.pairwise_cons.mpr ⟨above, rest⟩
    · next other =>
      split
      · next less =>
        refine List.pairwise_cons.mpr ⟨List.forall_mem_cons.mpr ⟨less, fun y hy => ?_⟩, h⟩
        exact less.trans (above y hy)
      · next less =>
        refine List.pairwise_cons.mpr ⟨fun y hy => ?_, ih rest⟩
        rcases (mem_put rest).mp hy with rfl | ⟨later, -⟩
        · exact lt_of_le_of_ne (not_lt.mp less) other
        · exact above y later

end Board

namespace CommandLine

open Board (line)

theorem boardOf_concat (ns : List Notice) (n : Notice) : boardOf (ns ++ [n]) =
    match n.publication? with
    | some p => (boardOf ns).put p.1 p.2
    | none => boardOf ns := by
  unfold boardOf
  rw [List.foldl_append]
  cases n <;> rfl

/-- The board shows what was published last, in order. -/
theorem boardOf_shows (ns : List Notice) : (boardOf ns).Ordered ∧ ∀ channel content,
    (channel, content) ∈ boardOf ns ↔ Last (ns.filterMap Notice.publication?) channel content := by
  induction ns using List.reverseRecOn with
  | nil => exact ⟨List.Pairwise.nil, fun channel content => by simp [boardOf, Last]⟩
  | append_singleton ns n ih =>
    obtain ⟨ordered, shows_last⟩ := ih
    rw [boardOf_concat, List.filterMap_append]
    rcases h : n.publication? with - | p
    · rw [List.filterMap_cons_none h, List.filterMap_nil, List.append_nil]
      exact ⟨ordered, shows_last⟩
    · rw [List.filterMap_cons_some h, List.filterMap_nil]
      refine ⟨Board.ordered_put ordered, fun channel content => ?_⟩
      rw [last_concat, ← shows_last, Board.mem_put ordered, eq_comm, ne_comm]

/-- Lines that tell of all channels that something was published on: each once, in alphabetical order,
with what was published last. -/
structure Tells (ps : List (String × Published)) (lines : List (String × Symbols)) : Prop where
  ordered : lines.Pairwise (·.1 < ·.1)
  last : ∀ l ∈ lines, ∃ content, Last ps l.1 content ∧ content.brief = .ok l.2
  complete : ∀ p ∈ ps, p.1 ∈ lines.map (·.1)

/-- What is on the terminal once some lines have been typed. -/
def typescript (lines : List (String × Symbols)) : String :=
  String.join (lines.map fun l => Symbols.glyphs (line l.1 l.2) ++ "\n")

theorem typescript_cons (l : String × Symbols) (lines : List (String × Symbols)) :
    typescript (l :: lines) = Symbols.glyphs (line l.1 l.2) ++ "\n" ++ typescript lines :=
  String.join_cons

/-- Lines are typed one after the other, up to the first with a surrogate that stands alone. -/
theorem print_eq {b : Board} (printable : ∀ p ∈ b, ∃ text, p.2.brief = .ok text) :
    ∃ lines : List (String × Symbols), lines.map (·.1) = b.map (·.1) ∧
      (∀ l ∈ lines, ∃ content, (l.1, content) ∈ b ∧ content.brief = .ok l.2) ∧
      ((∀ l ∈ lines, l.2.Plain) → b.print = .ok (typescript lines)) ∧
      ((∃ l ∈ lines, ¬ l.2.Plain) → ∃ f, b.print = .error f ∧ f.name = "UnicodeEncodeError") := by
  induction b with
  | nil => exact ⟨[], rfl, List.forall_mem_nil _, fun _ => rfl, nofun⟩
  | cons p r ih =>
    obtain ⟨⟨text, brief⟩, rest⟩ := List.forall_mem_cons.mp printable
    obtain ⟨lines, channels, shown, typed_all, stopped⟩ := ih rest
    have first : Board.print (p :: r) =
        typed (line p.1 text) >>= fun t => Board.print r >>= fun u => .ok (t ++ u) := by
      rw [Board.print, brief]
      rfl
    refine ⟨(p.1, text) :: lines, congrArg (p.1 :: ·) channels, ?_, fun plain => ?_, ?_⟩
    · refine List.forall_mem_cons.mpr ⟨⟨p.2, List.mem_cons_self, brief⟩, fun l hl => ?_⟩
      obtain ⟨content, mem, text⟩ := shown l hl
      exact ⟨content, List.mem_cons_of_mem _ mem, text⟩
    · obtain ⟨now, later⟩ := List.forall_mem_cons.mp plain
      rw [first, typed_plain (Board.plain_line.mpr now), typed_all later, typescript_cons]
      rfl
    · rw [first]
      by_cases now : text.Plain
      · rintro ⟨l, hl, strange⟩
        rcases List.mem_cons.mp hl with rfl | later
        · exact absurd now strange
        · obtain ⟨f, fault, name⟩ := stopped ⟨l, later, strange⟩
          rw [typed_plain (Board.plain_line.mpr now), fault]
          exact ⟨f, rfl, name⟩
      · obtain ⟨f, fault, name⟩ := typed_strange (Board.plain_line.not.mpr now)
        rw [fault]
        exact fun _ => ⟨f, rfl, name⟩

/-- A board of things that can be written is printed line by line, if a terminal takes the lines. -/
theorem print_tells (ns : List Notice)
    (printable : ∀ p ∈ ns.filterMap Notice.publication?, ∃ text, p.2.brief = .ok text) :
    ∃ lines : List (String × Symbols), Tells (ns.filterMap Notice.publication?) lines ∧
      ((∀ l ∈ lines, l.2.Plain) → (boardOf ns).print = .ok (typescript lines)) ∧
      ((∃ l ∈ lines, ¬ l.2.Plain) →
        ∃ f, (boardOf ns).print = .error f ∧ f.name = "UnicodeEncodeError") := by
  obtain ⟨ordered, shows_last⟩ := boardOf_shows ns
  have briefs : ∀ p ∈ boardOf ns, ∃ text, p.2.brief = .ok text := by
    intro p hp
    obtain ⟨before, after, split, -⟩ := (shows_last p.1 p.2).mp hp
    exact printable p (split ▸ List.mem_append_right _ List.mem_cons_self)
  obtain ⟨lines, channels, shown, prints⟩ := print_eq briefs
  refine ⟨lines, ⟨?_, fun l hl => ?_, fun p hp => ?_⟩, prints⟩
  · rw [← List.pairwise_map, channels]
    exact List.pairwise_map.mpr ordered
  · obtain ⟨content, mem, text⟩ := shown l hl
    exact ⟨content, (shows_last _ _).mp mem, text⟩
  · obtain ⟨content, last⟩ := exists_last hp
    rw [channels]
    exact List.mem_map.mpr ⟨(p.1, content), (shows_last _ _).mpr last, rfl⟩

end CommandLine

namespace Status

/-- What a field gives can be printed. -/
theorem brief_of_convert {shape : Shape} {v w : Value} (h : convert shape v = .ok (some w)) :
    ∃ text, w.brief = .ok text := by
  cases shape with
  | quantity unit =>
    obtain ⟨f, -, rfl⟩ := map_ok_iff.mp h
    exact ⟨_, rfl⟩
  | number =>
    obtain ⟨f, -, rfl⟩ := map_ok_iff.mp h
    exact ⟨_, rfl⟩
  | switch =>
    obtain ⟨b, -, rfl⟩ := map_ok_iff.mp h
    exact ⟨_, rfl⟩
  | flag =>
    obtain ⟨f, -, rfl⟩ := map_ok_iff.mp h
    exact ⟨_, rfl⟩
  | text =>
    unfold convert at h
    dsimp only at h
    split at h
    -- Texts and switches stand for themselves, and a number for its digits.
    case h_1 | h_2 | h_3 =>
      cases h
      exact ⟨_, rfl⟩
    case h_4 | h_5 =>
      obtain ⟨text, -, h⟩ := bind_eq_ok.mp h
      cases h
      exact ⟨_, rfl⟩
    case h_6 => cases h

theorem brief_of_updatesOf {r : Reply.Entries} {fs : List Field} {us : List (String × Value)}
    (h : updatesOf r fs = .ok us) : ∀ u ∈ us, ∃ text, u.2.brief = .ok text := by
  induction fs generalizing us with
  | nil =>
    cases h
    exact List.forall_mem_nil _
  | cons f fs ih =>
    obtain ⟨first, now, h⟩ := bind_eq_ok.mp h
    obtain ⟨more, later, h⟩ := bind_eq_ok.mp h
    obtain rfl := Except.ok.inj h
    refine List.forall_mem_append.mpr ⟨fun u hu => ?_, ih later⟩
    unfold update at now
    split at now
    · cases now
      cases hu
    · rw [Option.mem_toList.mp hu] at now
      obtain ⟨w, converted, rfl⟩ := map_ok_iff.mp now
      exact brief_of_convert converted

end Status

namespace Poll

theorem Stage.brief_of_updates (stage : Stage) (a : Answered) :
    ∀ u ∈ stage.updates a, ∃ text, u.2.brief = .ok text := by
  unfold updates
  split
  · split
    · next m _ r _ =>
      cases hu : Status.updates m r with
      | error e => exact List.forall_mem_nil _
      | ok us => exact Status.brief_of_updatesOf hu
    · exact List.forall_mem_nil _
  · exact List.forall_mem_nil _

/-- All that a complete poll of a fresh session publishes can be printed. -/
theorem Complete.brief {s u : Session} {as : List (Stage × Answered)} {now : Moment}
    (h : Complete s u (as.flatMap fun p => p.1.updates p.2) now) (fresh : s.publications = []) :
    ∀ p ∈ u.publications, ∃ text, p.2.brief = .ok text := by
  rw [h.publications, fresh, List.nil_append]
  refine List.forall_mem_append.mpr ⟨List.forall_mem_map.mpr fun q hq => ?_,
    List.forall_mem_singleton.mpr ⟨_, rfl⟩⟩
  obtain ⟨x, -, hx⟩ := List.mem_flatMap.mp hq
  exact x.1.brief_of_updates x.2 q hx

end Poll
end BatteryLink
