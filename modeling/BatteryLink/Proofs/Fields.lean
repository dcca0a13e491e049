import BatteryLink.Proofs.Returns
import BatteryLink.Proofs.Settings
/-!
Fields of settings. Each field has a channel that writes to it and to nothing else, and holds the
last value that its channel has taken.
-/
namespace BatteryLink

open Routine (Cause Next Heeds isRefresh command)

namespace SlotField

/-- What a field holds. -/
@[reducible] def Content : SlotField → Type
  | enabled => Bool
  | start | stop => String
  | weekdays => Nat
  | power => Int

/-- The content that a value stands for, if it is right for the field. -/
def convert : (f : SlotField) → Value → Setting.Converted f.Content
  | enabled => Setting.switch
  | start | stop => Setting.time
  | weekdays => Setting.weekdays
  | power => Setting.power

end SlotField

namespace Slot

def content (p : Slot) : (f : SlotField) → f.Content
  | .enabled => p.enabled
  | .start => p.start
  | .stop => p.stop
  | .weekdays => p.weekSet
  | .power => p.power

def put (p : Slot) : (f : SlotField) → f.Content → Slot
  | .enabled, b => { p with enabled := b }
  | .start, t => { p with start := t }
  | .stop, t => { p with stop := t }
  | .weekdays, w => { p with weekSet := w }
  | .power, w => { p with power := w }

@[simp] theorem content_put_self (p : Slot) (f : SlotField) (a : f.Content) : (p.put f a).content f = a := by
  cases f <;> rfl

theorem content_put_other (p : Slot) {f g : SlotField} (h : f ≠ g) (a : f.Content) :
    (p.put f a).content g = p.content g := by
  cases f <;> cases g <;> first | rfl | exact absurd rfl h

theorem ext_content {p q : Slot} (h : ∀ f, p.content f = q.content f) : p = q := by
  have enabled : p.enabled = q.enabled := h .enabled
  have start : p.start = q.start := h .start
  have stop : p.stop = q.stop := h .stop
  have weekSet : p.weekSet = q.weekSet := h .weekdays
  have power : p.power = q.power := h .power
  cases p
  cases q
  cases enabled
  cases start
  cases stop
  cases weekSet
  cases power
  rfl

end Slot

/-- A field of the settings: of the passive setting, or of a slot. -/
inductive Field where
  | power
  | countdown
  | slot (index : Fin 4) (field : SlotField)
  deriving DecidableEq, Repr

namespace Field

@[reducible] def Content : Field → Type
  | power | countdown => Int
  | slot _ f => f.Content

def convert : (f : Field) → Value → Setting.Converted f.Content
  | power => Setting.power
  | countdown => Setting.countdown
  | slot _ f => f.convert

/-- The field that a channel writes to, if it writes to one. -/
def ofChannel? : Channel → Option Field
  | .control .passivePower => some power
  | .control .passiveCountdown => some countdown
  | .control _ => none
  | .slot i f => some (slot i f)

def ofId? (channel : String) : Option Field :=
  match Channel.parse channel with
  | .ok c => c.bind ofChannel?
  | .error _ => none

end Field

namespace Settings

def content (t : Settings) : (f : Field) → f.Content
  | .power => t.passive.power
  | .countdown => t.passive.countdown
  | .slot i f => (t.slot i).content f

def put (t : Settings) : (f : Field) → f.Content → Settings
  | .power, w => { t with passive := { t.passive with power := w } }
  | .countdown, n => { t with passive := { t.passive with countdown := n } }
  | .slot ⟨i, h⟩ f, a => { t with slots := t.slots.set i ((t.slot ⟨i, h⟩).put f a) h }

theorem put_slot (t : Settings) (i : Fin 4) (f : SlotField) (a : f.Content) :
    t.put (.slot i f) a = { t with slots := t.slots.set i.val ((t.slot i).put f a) i.isLt } := rfl

@[simp] theorem content_put_self (t : Settings) (f : Field) (a : f.Content) :
    (t.put f a).content f = a := by
  cases f with
  | power | countdown => rfl
  | slot i f =>
    rw [put_slot, content, slot_set, if_pos rfl]
    exact Slot.content_put_self _ f a

theorem content_put_other (t : Settings) {f g : Field} (h : f ≠ g) (a : f.Content) :
    (t.put f a).content g = t.content g := by
  cases f with
  | power | countdown => cases g <;> first | rfl | exact absurd rfl h
  | slot i f =>
    cases g with
    | power | countdown => rfl
    | slot j g =>
      rw [put_slot, content, slot_set]
      split
      · next same =>
        subst same
        exact Slot.content_put_other _ (fun he => h (congrArg _ he)) a
      · rfl

/-- Settings are their fields. -/
theorem ext_content {t u : Settings} (h : ∀ f, t.content f = u.content f) : t = u := by
  have power : t.passive.power = u.passive.power := h .power
  have countdown : t.passive.countdown = u.passive.countdown := h .countdown
  have slots : t.slots = u.slots := by
    refine Vector.ext fun i hi => ?_
    exact Slot.ext_content fun f => h (.slot ⟨i, hi⟩ f)
  rcases t with ⟨⟨p, n⟩, slots⟩
  rcases u with ⟨⟨q, m⟩, slots'⟩
  simp only at power countdown slots
  rw [power, countdown, slots]

/-- The settings after a value was written to a field. A value that is not right is not taken. -/
def written (t : Settings) (f : Field) (v : Value) : Settings :=
  match f.convert v with
  | .ok a => t.put f a
  | .error _ => t

theorem content_written_self (t : Settings) (f : Field) (v : Value) :
    (t.written f v).content f = (f.convert v).toOption.getD (t.content f) := by
  unfold written
  split <;> next h => simp [h, Except.toOption]

theorem content_written_other (t : Settings) {f g : Field} (h : f ≠ g) (v : Value) :
    (t.written f v).content g = t.content g := by
  unfold written
  split
  · exact t.content_put_other h _
  · rfl

end Settings

namespace Field

/-- The values that a field has taken, in their order. -/
def taken (f : Field) (writes : List (String × Value)) : List f.Content :=
  writes.filterMap fun (channel, v) =>
    if ofId? channel = some f then (f.convert v).toOption else none

theorem taken_cons (f : Field) (channel : String) (v : Value) (writes : List (String × Value)) :
    f.taken ((channel, v) :: writes) =
      (if ofId? channel = some f then (f.convert v).toOption else none).toList ++ f.taken writes := by
  unfold taken
  rw [List.filterMap_cons]
  split <;> next h => simp [h]

/-- The content of a field after a write, and after the writes that follow. -/
theorem latest_cons {f g : Field} {channel : String} {v : Value} (hf : ofId? channel = some f)
    (t : Settings) (writes : List (String × Value)) :
    (g.taken writes).getLast?.getD ((t.written f v).content g) =
      (g.taken ((channel, v) :: writes)).getLast?.getD (t.content g) := by
  rw [taken_cons, hf]
  by_cases h : f = g
  · subst h
    rw [if_pos rfl, Settings.content_written_self]
    cases (f.convert v).toOption with
    | none => rfl
    | some a =>
      rw [Option.toList_some, List.singleton_append, List.getLast?_cons]
      rfl
  · rw [if_neg (fun he => h (Option.some.inj he)), Settings.content_written_other t h]
    rfl

end Field

namespace Routine

/-- How a write ends: it returns, unless the number is one that no double can hold. -/
def writeResult (f : Field) (v : Value) : Except Trouble Outcome :=
  match f.convert v with
  | .error (.fault e) => .error (.fault e)
  | _ => .ok .nothing

variable {self : TaskId} {s : Session} {channel : String} {v : Value} {f : Field}

theorem write_eq {c : Channel} (hf : Field.ofChannel? c = some f) :
    write self c v = withValue (f.convert v) fun a => change fun t => t.put f a := by
  cases c with
  | slot i g =>
    cases hf
    cases g <;> rfl
  | control c =>
    cases c with
    | passivePower | passiveCountdown =>
      cases hf
      rfl
    | modeSelect | passiveActivate | manualActivate => cases hf

theorem exec_write_field (heeds : Heeds s v) (hf : Field.ofId? channel = some f) :
    (command self channel v).exec s =
      ((writeResult f v).map .done, { s with settings := s.settings.written f v }) := by
  rw [exec_heeded heeds]
  unfold Field.ofId? at hf
  split at hf
  · next parsed hp =>
    obtain ⟨c, rfl, hc⟩ := Option.bind_eq_some_iff.mp hf
    rw [hp]
    dsimp only
    rw [write_eq hc, exec_withValue]
    unfold writeResult Settings.written
    rcases f.convert v with (_ | _) | _ <;> rfl
  · cases hf

end Routine

namespace Crowd

variable {c : Crowd}

/-- Values written to channels, one after the other. -/
def writing (c : Crowd) (writes : List (String × Value)) : Crowd :=
  c.run (writes.map fun (channel, v) => .start (.command channel v))

/-- Nothing has happened but to the settings: nobody was told or asked anything, no job was left to
a scheduler, no request is under way that was not before, and the last result stands. The tasks that
were started have ended, `count` of them. -/
structure OnlySettings (c d : Crowd) (count : Nat) : Prop where
  session : d.session = { c.session with settings := d.session.settings }
  members : d.members = c.members
  jobs : d.jobs = c.jobs
  clock : d.clock = c.clock
  log : ∃ es : List Entry, d.log = es ++ c.log ∧ es.length = count ∧
    ∀ e ∈ es, e.after.outbox = [] ∧ ∀ next, e.result = .ok next → next = .done .nothing
  endings : ∃ xs : List Ending, d.endings = xs ++ c.endings ∧ xs.length = count

theorem OnlySettings.trans {d b : Crowd} {m n : Nat} (h : OnlySettings c d m) (k : OnlySettings d b n) :
    OnlySettings c b (n + m) := by
  obtain ⟨es, log, count, quiet⟩ := h.log
  obtain ⟨es', log', count', quiet'⟩ := k.log
  obtain ⟨xs, endings, ended⟩ := h.endings
  obtain ⟨xs', endings', ended'⟩ := k.endings
  constructor
  · rw [k.session, h.session]
  · rw [k.members, h.members]
  · rw [k.jobs, h.jobs]
  · rw [k.clock, h.clock]
  · refine ⟨es' ++ es, by rw [log', log, List.append_assoc],
      by rw [List.length_append, count, count'], ?_⟩
    exact fun e he => (List.mem_append.mp he).elim (quiet' e) (quiet e)
  · exact ⟨xs' ++ xs, by rw [endings', endings, List.append_assoc],
      by rw [List.length_append, ended, ended']⟩

theorem finishAt_none (jobs : List Entrusted) : Entrusted.finishAt jobs none = jobs := by
  simp [Entrusted.finishAt]

theorem others_next (ho : c.Orderly) : c.others c.nextTask = c.members := by
  refine List.filter_eq_self.mpr fun m hm => ?_
  have early : m.id < c.nextTask := (ho.alive m hm).2.fresh ho
  simpa using Nat.ne_of_lt early

/-- A turn without notices that is the last one of its task. -/
theorem advance_done {t : Task} {cause : Cause} {s : Session} {r : Except Trouble Outcome}
    (h : (cause.turn t.id).exec c.session = (r.map .done, s)) (swept : s.outbox = []) :
    c.advance t cause = { c with
      session := s
      log := ⟨t.id, t.operation, cause, c.session, r.map .done, s⟩ :: c.log }.finish t r := by
  have entered : c.entry t cause = ⟨t.id, t.operation, cause, c.session, r.map .done, s⟩ := by
    rw [entry, h]
  have idle : { s with outbox := [] } = s := by rw [← swept]
  have adopted : ∀ d : Crowd, d.adopt s = { d with session := s } := by
    intro d
    simp [adopt, Session.takeNotices, swept, idle]
  unfold advance
  dsimp only
  rw [entered, adopted]
  cases r <;> rfl

theorem step_write {channel : String} {v : Value} {f : Field} (ho : c.Orderly)
    (heeds : Heeds c.session v) (hf : Field.ofId? channel = some f) :
    let d := c.step (.start (.command channel v))
    OnlySettings c d 1 ∧ d.session.settings = c.session.settings.written f v := by
  intro d
  have same : d = _ := advance_done (Routine.exec_write_field heeds hf) ho.swept
  rw [same]
  refine ⟨⟨rfl, others_next ho, finishAt_none c.jobs, rfl, ⟨[_], rfl, rfl, ?_⟩, ⟨[_], rfl, rfl⟩⟩, rfl⟩
  rw [List.forall_mem_singleton]
  refine ⟨ho.swept, fun next hn => ?_⟩
  dsimp only at hn
  unfold Routine.writeResult at hn
  split at hn <;> cases hn
  rfl

/-- A value written to a channel that sets a field. The word for a poll is no value. -/
def SetsField (w : String × Value) : Prop := (Field.ofId? w.1).isSome ∧ isRefresh w.2 = false

instance : DecidablePred SetsField := fun w =>
  inferInstanceAs (Decidable ((Field.ofId? w.1).isSome ∧ isRefresh w.2 = false))

theorem writing_only (hc : c.Reachable) (live : c.session.disposed = false)
    {writes : List (String × Value)} (h : ∀ w ∈ writes, SetsField w) :
    OnlySettings c (c.writing writes) writes.length ∧
      ∀ f : Field, (c.writing writes).session.settings.content f =
        (f.taken writes).getLast?.getD (c.session.settings.content f) := by
  induction writes generalizing c with
  | nil =>
    exact ⟨⟨rfl, rfl, rfl, rfl, ⟨[], rfl, rfl, List.forall_mem_nil _⟩, ⟨[], rfl, rfl⟩⟩, fun f => rfl⟩
  | cons w writes ih =>
    obtain ⟨channel, v⟩ := w
    obtain ⟨⟨named, value⟩, rest⟩ := List.forall_mem_cons.mp h
    obtain ⟨f, hf⟩ := Option.isSome_iff_exists.mp named
    obtain ⟨first, settings⟩ := step_write hc.orderly ⟨live, value⟩ hf
    have still : (c.step (.start (.command channel v))).session.disposed = false := by
      rw [first.session, ← live]
    obtain ⟨more, latest⟩ := ih (hc.step _) still rest
    refine ⟨first.trans more, fun g => ?_⟩
    rw [← Field.latest_cons hf, ← settings]
    exact latest g

theorem OnlySettings.session_eq {d b : Crowd} {m n : Nat} (h : OnlySettings c d m) (k : OnlySettings c b n)
    (same : ∀ f, d.session.settings.content f = b.session.settings.content f) :
    d.session = b.session := by
  rw [h.session, k.session, Settings.ext_content same]

/-- A session that has not been disposed of is written to on channels that set a field, with any
values but the word for a poll. Then each field holds the last value that was right for it, in the
form that it was converted to, or what it held before; and nothing else has happened. So a write
changes no field but its own, writes to two fields come to the same in either order, and a value
that is not right changes nothing. -/
theorem last_value_taken (hc : c.Reachable) (live : c.session.disposed = false) :
    (∀ writes, (∀ w ∈ writes, SetsField w) → OnlySettings c (c.writing writes) writes.length ∧
      ∀ f : Field, (c.writing writes).session.settings.content f =
        (f.taken writes).getLast?.getD (c.session.settings.content f)) ∧
    (∀ w, SetsField w → ∀ f, Field.ofId? w.1 ≠ some f →
      (c.writing [w]).session.settings.content f = c.session.settings.content f) ∧
    (∀ w w', SetsField w → SetsField w' → Field.ofId? w.1 ≠ Field.ofId? w'.1 →
      (c.writing [w, w']).session = (c.writing [w', w]).session) ∧
    (∀ w, SetsField w → (∀ f, Field.ofId? w.1 = some f → (f.convert w.2).toOption = none) →
      (c.writing [w]).session = c.session) := by
  have only := fun writes (h : ∀ w ∈ writes, SetsField w) => writing_only hc live h
  refine ⟨only, fun w hw f other => ?_, fun w w' hw hw' apart => ?_, fun w hw wrong => ?_⟩
  · obtain ⟨-, latest⟩ := only [w] (List.forall_mem_singleton.mpr hw)
    rw [latest f, Field.taken_cons, if_neg other]
    rfl
  · have both : ∀ x ∈ [w, w'], SetsField x := by simpa using ⟨hw, hw'⟩
    have both' : ∀ x ∈ [w', w], SetsField x := by simpa using ⟨hw', hw⟩
    obtain ⟨here, latest⟩ := only _ both
    obtain ⟨there, latest'⟩ := only _ both'
    refine here.session_eq there fun f => ?_
    rw [latest, latest', Field.taken_cons, Field.taken_cons, Field.taken_cons, Field.taken_cons]
    by_cases named : Field.ofId? w.1 = some f
    · have other : Field.ofId? w'.1 ≠ some f := fun named' => apart (named.trans named'.symm)
      rw [if_neg other]
      simp [Field.taken]
    · rw [if_neg named]
      simp [Field.taken]
  · obtain ⟨here, latest⟩ := only [w] (List.forall_mem_singleton.mpr hw)
    obtain ⟨there, -⟩ := only [] (List.forall_mem_nil _)
    refine here.session_eq there fun f => ?_
    rw [latest, Field.taken_cons]
    by_cases named : Field.ofId? w.1 = some f
    · rw [if_pos named, wrong f named]
      rfl
    · rw [if_neg named]
      rfl

/-- A power that is taken, one that is beyond its bound, a text that is no time, and a slot. -/
def mixedWrites : List (String × Value) :=
  [("passivePower", .text " 800 "), ("passivePower", .int 5001), ("timePeriod2#start", .text "noon"),
    ("timePeriod2#end", .text "7:05"), ("timePeriod2#power", .quantity (.int (-900)) "W")]

theorem last_value_taken_mixed :
    let c := start { host := "10.0.0.2" } false
    let t := (c.writing mixedWrites).session.settings
    c.Reachable ∧ OnlySettings c (c.writing mixedWrites) 5 ∧
    t.passive.power = 800 ∧ (t.slot 2).start = "00:00" ∧ (t.slot 2).stop = "07:05" ∧
    (t.slot 2).power = -900 := by
  intro c t
  have reachable : c.Reachable := .start _ _
  obtain ⟨only, latest⟩ := (last_value_taken reachable rfl).1 mixedWrites (by decide +kernel)
  exact ⟨reachable, only, (latest .power).trans (by decide +kernel),
    (latest (.slot 2 .start)).trans (by decide +kernel),
    (latest (.slot 2 .stop)).trans (by decide +kernel),
    (latest (.slot 2 .power)).trans (by decide +kernel)⟩

end Crowd
end BatteryLink
