import BatteryLink.Proofs.Course
/-!
The requests of tasks. The text of a request begins with its method, so that every exchange shows
whether it changes the mode of the device. Those that do are the ones that orders ask for.
-/
namespace BatteryLink

open Routine (Cause Next Asked Purpose)

/-- How the text of a request for a method begins. -/
def Request.head (method : String) : String :=
  "\x7b\"id\":0,\"method\":" ++ Json.writeText method ++ ","

/-- Whether an exchange carries a request for a method. -/
def Exchange.calls (x : Exchange) (m : Method) : Bool :=
  (Request.head m.name).toList.isPrefixOf x.payload.toList

theorem Exchange.calls_eq {x : Exchange} {payload : String} (h : x.payload = payload) (m : Method) :
    x.calls m = (Request.head m.name).toList.isPrefixOf payload.toList := by
  rw [Exchange.calls, h]

namespace Request

open Check (Checked)

theorem write_of_build {method params : Value} {checked : Bool} {payload : String}
    (h : build method params checked = .ok payload) :
    Json.write (envelope method params) = .ok payload := by
  unfold build at h
  dsimp only at h
  have written : (orFault (Json.write (envelope method params)) : Checked String) = .ok payload := by
    split at h
    · obtain ⟨-, -, written⟩ := bind_eq_ok.mp h
      exact written
    · exact h
  cases hw : Json.write (envelope method params) with
  | error f =>
    rw [hw] at written
    cases written
  | ok s =>
    rw [hw] at written
    cases written
    rfl

theorem members_eq_head (method rest : String) :
    "\x7b" ++ ",".intercalate ["\"id\"" ++ ":" ++ "0", "\"method\"" ++ ":" ++ Json.writeText method, rest]
      ++ "\x7d" = head method ++ (rest ++ "\x7d") := by
  have opening : "\x7b\"id\":0,\"method\":" =
      "\x7b" ++ ("\"id\"" ++ (":" ++ ("0" ++ ("," ++ ("\"method\"" ++ ":"))))) := by decide +kernel
  unfold head
  rw [opening]
  simp only [String.intercalate_cons_cons, String.intercalate_singleton, String.append_assoc]

theorem head_prefix {method : String} {params : Value} {checked : Bool} {payload : String}
    (h : build (text method) params checked = .ok payload) :
    (head method).toList <+: payload.toList := by
  have zero : Value.intText number = .ok "0" := by decide +kernel
  have id : Json.writeSymbols (Text.Symbols.ofString "id") = "\"id\"" := by decide +kernel
  have key : Json.writeSymbols (Text.Symbols.ofString "method") = "\"method\"" := by decide +kernel
  -- the first two members are written alike, whatever the parameters are
  have written := write_of_build h
  unfold envelope object at written
  simp only [List.map_cons, List.map_nil, text, Json.write, Value.maxDepth, Json.writeWithin,
    Json.writeMembers, Json.memberName_text, zero, bind_eq_ok, Except.ok.injEq] at written
  obtain ⟨_, ⟨_, rfl, _, rfl, _, ⟨_, rfl, _, rfl, _, ⟨_, rfl, t, -, _, rfl, rfl⟩, rfl⟩, rfl⟩, rfl⟩ :=
    written
  rw [id, key, members_eq_head, String.toList_append]
  exact List.prefix_append _ _

theorem head_setMode {change deviceId : Value} {payload : String}
    (h : setMode change deviceId = .ok payload) :
    (head Method.setMode.name).toList <+: payload.toList := head_prefix h

end Request

/-- Whatever a turn returns, in whatever session, is of the kind `P`. -/
def Turn.Gives {α : Type} (P : α → Prop) (t : Turn α) : Prop := ∀ s a, (t.exec s).1 = .ok a → P a

namespace Turn.Gives

variable {α β : Type} {P : α → Prop} {Q : β → Prop} {t : Turn α}

theorem pure {a : α} (h : P a) : Turn.Gives P (Pure.pure a) := by
  intro s b hb
  cases hb
  exact h

theorem fail (f : Fault) : Turn.Gives P (Turn.fail f) := by
  intro s a ha
  cases ha

theorem throw (e : Trouble) : Turn.Gives P (MonadExcept.throw e) := by
  intro s a ha
  cases ha

theorem bind {f : α → Turn β} (ht : t.Gives P) (hf : ∀ a, P a → (f a).Gives Q) :
    (t >>= f).Gives Q := by
  intro s b hb
  rw [exec_bind] at hb
  rcases h : t.exec s with ⟨e | a, u⟩ <;> rw [h] at hb
  · cases hb
  · exact hf a (ht s a (by rw [h])) u b hb

theorem after {f : α → Turn β} (hf : ∀ a, (f a).Gives Q) : (t >>= f).Gives Q :=
  bind (P := fun _ => True) (fun _ _ _ => trivial) fun a _ => hf a

theorem tryCatch {f : Trouble → Turn α} (ht : t.Gives P) (hf : ∀ e, (f e).Gives P) :
    Turn.Gives P (MonadExcept.tryCatch t f) := by
  intro s a ha
  rw [exec_tryCatch] at ha
  rcases h : t.exec s with ⟨e | b, u⟩ <;> rw [h] at ha
  · exact hf e u a ha
  · exact ht s a (by rw [h, ha])

theorem exchange (payload : String) (timeout : Int) :
    (Turn.exchange payload timeout).Gives fun x => x.payload = payload := by
  intro s x hx
  cases hx
  rfl

end Turn.Gives

namespace Poll

theorem discoverText_calls : (Request.head Method.setMode.name).toList.isPrefixOf
    Request.discoverText.toList = false := by decide +kernel

theorem queryText_calls (m : Method) : (Request.head Method.setMode.name).toList.isPrefixOf
    (Request.queryText m).toList = false := by
  cases m <;> decide +kernel

/-- Polls leave the mode of the device alone. -/
def Next.Proper : Next → Prop
  | .ask x _ => x.calls .setMode = false
  | .ended _ => True

theorem discover_gives {α : Type} {P : α → Prop} {f : Exchange → Turn α} (timeout : Int)
    (hf : ∀ x : Exchange, x.calls .setMode = false → (f x).Gives P) :
    (Turn.exchange Request.discoverText timeout >>= f).Gives P := by
  refine (Turn.Gives.exchange _ timeout).bind fun x hx => hf x ?_
  exact (Exchange.calls_eq hx .setMode).trans discoverText_calls

theorem goOn_gives (now : Moment) (ms : List Method) : (goOn now ms).Gives Next.Proper := by
  cases ms with
  | nil => exact .after fun _ => .after fun _ => .pure trivial
  | cons m rest =>
    refine .after fun s => ?_
    split
    · exact .pure trivial
    · refine (Turn.Gives.exchange _ timeout).bind fun x hx => .pure ?_
      exact (Exchange.calls_eq hx .setMode).trans (queryText_calls m)

theorem begin_gives : begin.Gives Next.Proper := by
  refine .after fun s => ?_
  split
  · exact .pure trivial
  · exact discover_gives timeout fun x hx => .pure hx

theorem proceed_gives (now : Moment) (stage : Stage) (a : Answered) :
    (proceed now stage a).Gives Next.Proper := by
  cases stage with
  | probe =>
    refine .after fun reply => .after fun there => ?_
    split
    · exact goOn_gives now _
    · exact .pure trivial
  | query m rest => exact .after fun reply => .after fun _ => goOn_gives now rest

theorem giveUp_gives (e : Trouble) : (giveUp e).Gives Next.Proper := by
  unfold giveUp
  split
  · exact .fail _
  · exact .after fun _ => .after fun _ => .pure trivial

theorem resume_gives (now : Moment) (stage : Stage) (a : Answered) :
    (resume now stage a).Gives Next.Proper :=
  (proceed_gives now stage a).tryCatch giveUp_gives

end Poll

namespace Order

/-- An order that waits for the lock has a request that changes the mode, or makes some later. -/
def Kind.Proper : Kind → Prop
  | single payload _ => (Request.head Method.setMode.name).toList <+: payload.toList
  | manual _ => True

def Next.Proper : Next → Prop
  | .ask x _ => x.calls .setMode = true
  | _ => True

theorem exchange_gives {payload : String} (timeout : Int) (stage : Stage)
    (h : (Request.head Method.setMode.name).toList <+: payload.toList) :
    (do return .ask (← Turn.exchange payload timeout) stage : Turn Next).Gives Next.Proper := by
  refine (Turn.Gives.exchange payload timeout).bind fun x hx => .pure ?_
  exact (Exchange.calls_eq hx .setMode).trans (List.isPrefixOf_iff_prefix.mpr h)

theorem finish_gives (t : Tally) (toggle : Option String) : (finish t toggle).Gives Next.Proper := by
  refine .after fun _ => ?_
  split <;> exact .after fun _ => .pure trivial

theorem slotDone_gives (w : Writing) (ok : Bool) : (slotDone w ok).Gives Next.Proper := by
  unfold slotDone
  dsimp only
  split
  · exact finish_gives _ _
  · exact .pure trivial

theorem writeSlot_gives (w : Writing) : (writeSlot w).Gives Next.Proper := by
  refine .after fun s => ?_
  split
  · exact slotDone_gives w false
  · next payload h => exact exchange_gives _ _ (Request.head_setMode (h :))

theorem begin_gives {k : Kind} (h : k.Proper) : (begin k).Gives Next.Proper := by
  refine .after fun s => ?_
  split
  · exact .pure trivial
  · cases k with
    | single payload toggle => exact exchange_gives _ _ h
    | manual source =>
      dsimp only
      split
      · exact finish_gives _ _
      · exact writeSlot_gives _

theorem proceed_gives (stage : Stage) (a : Answered) : (proceed stage a).Gives Next.Proper := by
  refine .after fun ok => ?_
  cases stage with
  | single toggle => exact finish_gives _ toggle
  | slot w => exact slotDone_gives w ok

theorem holding_gives {t : Turn Next} (h : t.Gives Next.Proper) : (holding t).Gives Next.Proper := by
  refine (h.tryCatch fun e => .after fun _ => .throw e).bind fun next proper => ?_
  split
  · exact .after fun _ => .pure trivial
  · exact .pure proper

end Order

namespace Routine

def Asked.isOrder : Asked → Bool
  | .order _ => true
  | _ => false

/-- The exchanges that change the mode of the device are those of orders. -/
def Next.Proper : Next → Prop
  | .ask x k => x.calls .setMode = k.isOrder
  | .queue k => k.Proper
  | _ => True

def Cause.Proper : Cause → Prop
  | .granted k => k.Proper
  | _ => True

theorem conclude_gives (purpose : Purpose) {t : Turn Poll.Next} (h : t.Gives Poll.Next.Proper) :
    (conclude purpose t).Gives Next.Proper := by
  cases purpose with
  | answer | refresh =>
    refine h.bind fun next proper => ?_
    split
    · exact .pure proper
    · exact .pure trivial
  | followUp id toggle =>
    refine (h.tryCatch fun e => .after fun _ => .throw e).bind fun next proper => ?_
    split
    · exact .pure proper
    · exact .after fun _ => .pure trivial

theorem ofOrder_gives {t : Turn Order.Next} (h : t.Gives Order.Next.Proper) :
    (ofOrder t).Gives Next.Proper := by
  refine (Order.holding_gives h).bind fun next proper => ?_
  split
  · exact .pure proper
  · exact .pure trivial
  · exact .pure trivial

variable (self : TaskId)

theorem order_gives {k : Order.Kind} (h : k.Proper) : (order self k).Gives Next.Proper := by
  refine .after fun taken => ?_
  split
  · exact ofOrder_gives (Order.begin_gives h)
  · exact .pure h

theorem refuseOrder_gives : refuseOrder.Gives Next.Proper := .after fun _ => .pure trivial

theorem selectMode_gives (mode : Value) : (selectMode self mode).Gives Next.Proper := by
  unfold selectMode
  split
  · exact .fail _
  · exact refuseOrder_gives
  · next payload h =>
    obtain ⟨change, -, built⟩ := bind_eq_ok.mp h
    exact order_gives self (k := .single payload none) (Request.head_setMode built)

theorem activatePassive_gives (power countdown : Value) :
    (activatePassive self power countdown).Gives Next.Proper := by
  unfold activatePassive
  split
  · exact .fail _
  · exact .after fun _ => refuseOrder_gives
  · next payload h =>
    exact order_gives self (k := .single payload (some Order.passiveToggle)) (Request.head_setMode (h :))

theorem withValue_gives {α : Type} (x : Setting.Converted α) {f : α → Turn Next}
    (h : ∀ a, (f a).Gives Next.Proper) : (withValue x f).Gives Next.Proper := by
  unfold withValue
  split
  · exact h _
  · exact .pure trivial
  · exact .fail _

theorem change_gives (f : Settings → Settings) : (change f).Gives Next.Proper :=
  .after fun _ => .pure trivial

theorem whenOn_gives (v : Value) {t : Turn Next} (h : t.Gives Next.Proper) :
    (whenOn v t).Gives Next.Proper := by
  refine withValue_gives _ fun on => ?_
  split
  · exact h
  · exact .pure trivial

theorem write_gives (c : Channel) (v : Value) : (write self c v).Gives Next.Proper := by
  cases c with
  | slot i field => cases field <;> exact withValue_gives _ fun _ => change_gives _
  | control c =>
    cases c with
    | modeSelect => exact withValue_gives _ fun _ => selectMode_gives self _
    | passivePower | passiveCountdown => exact withValue_gives _ fun _ => change_gives _
    | passiveActivate => exact whenOn_gives v (.after fun _ => activatePassive_gives self _ _)
    | manualActivate => exact whenOn_gives v (order_gives self (k := .manual .settings) trivial)

theorem command_gives (channel : String) (v : Value) :
    (command self channel v).Gives Next.Proper := by
  intro s next h
  rw [exec_command] at h
  split at h
  · exact Turn.Gives.pure (P := Next.Proper) (a := .done .nothing) trivial s next h
  · split at h
    · exact conclude_gives _ Poll.begin_gives s next h
    · split at h
      · cases h
      · exact Turn.Gives.pure (P := Next.Proper) (a := .done .nothing) trivial s next h
      · exact write_gives self _ v s next h

theorem perform_gives (o : Operation) : (perform self o).Gives Next.Proper := by
  cases o with
  | connect => exact .after fun _ => Poll.discover_gives _ fun x hx => .pure hx
  | poll => exact conclude_gives .answer Poll.begin_gives
  | probe => exact Poll.discover_gives _ fun x hx => .pure hx
  | command channel v => exact command_gives self channel v
  | selectMode mode => exact selectMode_gives self mode
  | activatePassive power countdown => exact activatePassive_gives self power countdown
  | activateManual slots => exact order_gives self (k := .manual (.given slots)) trivial
  | followUp id toggle => exact conclude_gives _ Poll.begin_gives
  | dispose =>
    refine .after fun _ => .after fun s => .after fun _ => .after fun _ => .after fun _ => ?_
    split <;> exact .pure trivial

theorem answered_gives (now : Moment) (k : Asked) (a : Answered) :
    (answered now k a).Gives Next.Proper := by
  have polling : startPolling.Gives Next.Proper := by
    refine .after fun s => ?_
    split
    · exact .pure trivial
    · exact .after fun _ => .after fun _ => .pure trivial
  cases k with
  | firstProbe =>
    unfold answered firstAnswer
    dsimp only
    split
    · exact .after fun _ => polling
    · exact .after fun _ => .after fun _ => polling
  | probe => exact .after fun _ => .after fun _ => .pure trivial
  | poll stage purpose => exact conclude_gives purpose (Poll.resume_gives now stage a)
  | order stage => exact ofOrder_gives (Order.proceed_gives stage a)

theorem turn_gives {c : Cause} (h : c.Proper) : (c.turn self).Gives Next.Proper := by
  cases c with
  | started o => exact perform_gives self o
  | answered now k a => exact answered_gives now k a
  | rested w => exact ofOrder_gives (Order.writeSlot_gives w)
  | granted k => exact ofOrder_gives (Order.begin_gives h)

theorem Next.Resumes.proper {next : Next} {c : Cause} (h : next.Resumes c) (hp : next.Proper) :
    c.Proper := by
  cases next <;> cases c <;> first | trivial | exact h.elim | (cases h; exact hp)

end Routine

theorem Life.proper {t : TaskId} {o : Operation} {es : List Entry} (h : Life t o es) :
    ∀ e ∈ es, ∀ next, e.result = .ok next → next.Proper := by
  have turn : ∀ e : Entry, e.Sound → e.cause.Proper → ∀ next, e.result = .ok next → next.Proper := by
    intro e sound proper next hr
    refine Routine.turn_gives e.task proper e.before next ?_
    rw [sound.exec, hr]
  induction h with
  | @started e _ _ sound hc =>
    rw [List.forall_mem_singleton]
    exact turn e sound (by rw [hc]; trivial)
  | @resumed e f es next _ _ sound hr resumes _ ih =>
    rw [List.forall_mem_cons]
    exact ⟨turn e sound (resumes.proper (ih f List.mem_cons_self next hr)), ih⟩

/-- Whether a task waits for the answer to a request that changes the mode of the device. -/
def Routine.Next.setsMode : Next → Bool
  | .ask x _ => x.calls .setMode
  | _ => false

/-- Whether a turn begins a transaction that changes the mode of the device. -/
def Entry.setsMode (e : Entry) : Bool :=
  match e.result with
  | .ok next => next.setsMode
  | .error _ => false

theorem Routine.Next.Proper.setsMode_iff {next : Next} (h : next.Proper) :
    next.setsMode = true ↔ ∃ x stage, next = .ask x (.order stage) := by
  cases next with
  | ask x k =>
    change x.calls .setMode = k.isOrder at h
    change x.calls .setMode = true ↔ _
    rw [h]
    cases k <;> simp [Asked.isOrder]
  | pause _ | queue _ | stopRunner | done _ => simp [setsMode]

theorem Life.setsMode_iff {t : TaskId} {o : Operation} {es : List Entry} (h : Life t o es)
    {e : Entry} (he : e ∈ es) :
    e.setsMode = true ↔ ∃ x stage, e.result = .ok (.ask x (.order stage)) := by
  have proper := h.proper e he
  unfold Entry.setsMode
  cases hr : e.result with
  | error t => simp
  | ok next => simpa using (proper next hr).setsMode_iff

end BatteryLink
