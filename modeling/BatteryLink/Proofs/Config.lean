import BatteryLink.Proofs.Envelope
import BatteryLink.Proofs.Routine
/-!
Configurations that were accepted. What a dictionary says under its names decides whether it is
accepted and what comes of it; the order of its entries does not matter. Every configuration that
comes of one stays within its bounds and is itself accepted as it is.
-/
namespace BatteryLink

namespace Text

/-- A text that neither begins nor ends with a blank. -/
def Trimmed (s : List Char) : Prop := ∀ c, c ∈ s.head? ∨ c ∈ s.getLast? → isBlank c = false

theorem head?_dropWhile {s : List Char} {c : Char} (h : c ∈ (s.dropWhile isBlank).head?) :
    isBlank c = false := by
  simpa [Option.mem_def.mp h] using List.head?_dropWhile_not isBlank s

theorem trimmed_trimChars (s : List Char) : Trimmed (trimChars s) := by
  rw [trimChars]
  generalize ht : s.dropWhile isBlank = t
  rintro c (first | last)
  · obtain ⟨cut, split⟩ := List.dropWhile_suffix (l := t.reverse) isBlank
    have whole : t = (t.reverse.dropWhile isBlank).reverse ++ cut.reverse := by
      rw [← List.reverse_append, split, List.reverse_reverse]
    have begins : c ∈ t.head? := by
      rw [whole, List.head?_append, Option.mem_def.mp first]
      rfl
    exact head?_dropWhile (ht ▸ begins)
  · rw [List.getLast?_reverse] at last
    exact head?_dropWhile last

theorem Trimmed.dropWhile {s : List Char} (h : Trimmed s) : s.dropWhile isBlank = s := by
  cases s with
  | nil => rfl
  | cons c s => exact List.dropWhile_cons_of_neg (by simp [h c (.inl rfl)])

theorem Trimmed.reverse {s : List Char} (h : Trimmed s) : Trimmed s.reverse := by
  rintro c (first | last)
  · exact h c (.inr (by simpa using first))
  · exact h c (.inl (by simpa using last))

theorem Trimmed.trimChars {s : List Char} (h : Trimmed s) : trimChars s = s := by
  rw [Text.trimChars, h.dropWhile, h.reverse.dropWhile, List.reverse_reverse]

end Text

namespace Value

/-- The entries of a dictionary: its keys are well formed, and no text is the key of two of them. -/
structure IsMapping (entries : List (Value × Value)) : Prop where
  formed : ∀ e ∈ entries, e.1.Formed
  distinct : (entries.filterMap fun e => e.1.plainText?).Nodup

variable {es fs : List (Value × Value)} {key : String} {k v : Value}

theorem IsMapping.tail {e : Value × Value} (h : IsMapping (e :: es)) : IsMapping es :=
  ⟨fun f hf => h.formed f (List.mem_cons_of_mem e hf),
    h.distinct.sublist ((List.sublist_cons_self e es).filterMap _)⟩

theorem IsMapping.perm (h : IsMapping es) (p : es.Perm fs) : IsMapping fs :=
  ⟨fun e he => h.formed e (p.mem_iff.mpr he), (p.filterMap _).nodup_iff.mp h.distinct⟩

theorem get?_cons_eq : get? key ((k, v) :: es) =
    if k.plainText? = some key then some v else get? key es := by
  unfold get?
  rw [List.find?_cons]
  split <;> simp_all

theorem get?_eq_none : get? key es = .none ↔ ∀ e ∈ es, e.1.plainText? ≠ some key := by
  simp [get?]

/-- The key of the first entry stands there only once. -/
theorem IsMapping.fresh (h : IsMapping ((k, v) :: es)) (hk : k.plainText? = some key) :
    get? key es = .none := by
  have once : (key :: es.filterMap fun e => e.1.plainText?).Nodup := by
    simpa only [List.filterMap_cons, hk] using h.distinct
  exact get?_eq_none.mpr fun e he same =>
    (List.nodup_cons.mp once).1 (List.mem_filterMap.mpr ⟨e, he, same⟩)

theorem IsMapping.get?_eq_some (h : IsMapping es) :
    get? key es = some v ↔ ∃ k, (k, v) ∈ es ∧ k.plainText? = some key := by
  induction es with
  | nil => simp [get?]
  | cons e es ih =>
    obtain ⟨l, w⟩ := e
    rw [get?_cons_eq]
    by_cases hl : l.plainText? = some key
    · have absent := get?_eq_none.mp (h.fresh hl)
      rw [if_pos hl, Option.some.injEq]
      constructor
      · rintro rfl
        exact ⟨l, List.mem_cons_self, hl⟩
      · rintro ⟨k, member, hk⟩
        rcases List.mem_cons.mp member with first | later
        · cases first
          rfl
        · exact absurd hk (absent _ later)
    · rw [if_neg hl, ih h.tail]
      constructor
      · rintro ⟨k, member, hk⟩
        exact ⟨k, List.mem_cons_of_mem _ member, hk⟩
      · rintro ⟨k, member, hk⟩
        rcases List.mem_cons.mp member with first | later
        · cases first
          exact absurd hk hl
        · exact ⟨k, later, hk⟩

/-- What a dictionary gives for a name does not depend on the order of its entries. -/
theorem IsMapping.get?_perm (h : IsMapping es) (p : es.Perm fs) (key : String) :
    get? key es = get? key fs := by
  refine Option.ext fun v => ?_
  rw [h.get?_eq_some, (h.perm p).get?_eq_some]
  simp only [p.mem_iff]

end Value

namespace Config

open Setting (Converted complain)
open Value (IsMapping)

variable {es fs : List (Value × Value)} {c d : Config} {v : Value}

/-- The names under which a configuration is described. -/
inductive Name where
  | host
  | port
  | localPort
  | refreshInterval
  | failureThreshold
  deriving DecidableEq

def Name.key : Name → String
  | host => "host"
  | port => "port"
  | localPort => "local_port"
  | refreshInterval => "refresh_interval"
  | failureThreshold => "failure_threshold"

/-- What a configuration holds under a name. -/
def held (c : Config) : Name → Value
  | .host => .text c.host
  | .port => .int c.port
  | .localPort => .int c.localPort
  | .refreshInterval => .int c.refreshInterval
  | .failureThreshold => .int c.failureThreshold

/-- What is made of a value that is given for a name. -/
def Name.read : Name → Value → Converted Value
  | host, v => .text <$> toHost v
  | port, v => .int <$> intBetween 1 65535 v
  | localPort, v => .int <$> intBetween 0 65535 v
  | refreshInterval, v => .int <$> intFrom 1 v
  | failureThreshold, v => .int <$> intBetween 1 10 v

/-- What a name stands for if nothing is given for it. -/
def Name.usual : Name → Option Value
  | host => none
  | port => some (.int 30000)
  | localPort => some (.int 0)
  | refreshInterval => some (.int 60)
  | failureThreshold => some (.int 3)

theorem Name.key_inj {m n : Name} (h : m.key = n.key) : m = n := by
  cases m <;> cases n <;> simp [key] at h ⊢

theorem ext_held (h : ∀ n, c.held n = d.held n) : c = d := by
  have host := h .host
  have port := h .port
  have localPort := h .localPort
  have refreshInterval := h .refreshInterval
  have failureThreshold := h .failureThreshold
  cases c
  cases d
  simp_all [held]

/-- A configuration with one field of another. -/
def take (n : Name) (d c : Config) : Config :=
  match n with
  | .host => { c with host := d.host }
  | .port => { c with port := d.port }
  | .localPort => { c with localPort := d.localPort }
  | .refreshInterval => { c with refreshInterval := d.refreshInterval }
  | .failureThreshold => { c with failureThreshold := d.failureThreshold }

theorem held_take (n m : Name) (d c : Config) :
    (take n d c).held m = if m = n then d.held n else c.held m := by
  cases n <;> cases m <;> rfl

theorem take_congr {n : Name} {e : Config} (h : d.held n = e.held n) : take n d c = take n e c :=
  ext_held fun m => by rw [held_take, held_take, h]

/-- A field that is set to what a conversion gives, seen as the value that the field holds. -/
theorem set_eq_ok {α : Type} {x : Converted α} {wrap : α → Value} (put : α → Config)
    (get : Config → α) (inj : Function.Injective wrap) (get_put : ∀ a, get (put a) = a) :
    (do return put (← x)) = (.ok d : Converted Config) ↔
      wrap <$> x = .ok (wrap (get d)) ∧ d = put (get d) := by
  cases x with
  | error e => simp [Functor.map, Except.map, bind, Except.bind]
  | ok a =>
    simp only [Functor.map, Except.map, bind, Except.bind, pure, Except.pure, Except.ok.injEq,
      inj.eq_iff]
    constructor
    · rintro rfl
      rw [get_put]
      exact ⟨rfl, rfl⟩
    · rintro ⟨rfl, same⟩
      exact same.symm

/-- An entry under a name is taken if its value can be read. It changes one field. -/
theorem setField_key (n : Name) :
    setField c n.key v = .ok d ↔ n.read v = .ok (d.held n) ∧ d = take n d c := by
  have text : Function.Injective Value.text := fun _ _ h => Value.text.inj h
  have int : Function.Injective Value.int := fun _ _ h => Value.int.inj h
  cases n with
  | host => exact set_eq_ok (fun x => { c with host := x }) host text fun _ => rfl
  | port => exact set_eq_ok (fun x => { c with port := x }) port int fun _ => rfl
  | localPort =>
    exact set_eq_ok (fun x => { c with localPort := x }) localPort int fun _ => rfl
  | refreshInterval =>
    exact set_eq_ok (fun x => { c with refreshInterval := x }) refreshInterval int fun _ => rfl
  | failureThreshold =>
    exact set_eq_ok (fun x => { c with failureThreshold := x }) failureThreshold int fun _ => rfl

theorem setField_unknown {key : String} (h : ∀ n : Name, n.key ≠ key) :
    setField c key v = complain .unknownKey := by
  unfold setField
  split
  · exact absurd rfl (h .host)
  · exact absurd rfl (h .port)
  · exact absurd rfl (h .localPort)
  · exact absurd rfl (h .refreshInterval)
  · exact absurd rfl (h .failureThreshold)
  · rfl

/-- Only the text of a name is taken for a name: a broken text never is. -/
theorem plainText?_of_name {k : Value} (formed : k.Formed) {n : Name} (h : k.asText?.getD "" = n.key) :
    k.plainText? = some n.key := by
  cases k with
  | text s => exact congrArg some h
  | broken s =>
    have strange := Text.Symbols.replacement_of_broken (formed s rfl)
    have shown : Text.Symbols.glyphs s = n.key := h
    rw [shown] at strange
    cases n <;> exact absurd strange (by decide)
  | switch on => exact congrArg some h
  | none | bool _ | int _ | float _ | bytes _ | list _ | dict _ | quantity _ _ =>
    have nameless : "" = n.key := h
    cases n <;> exact absurd nameless (by decide)

theorem asText?_of_plainText? {k : Value} {key : String} (h : k.plainText? = some key) :
    k.asText? = some key := by
  cases k with
  | text s => exact h
  | switch on => exact h
  | none | bool _ | int _ | float _ | broken _ | bytes _ | list _ | dict _ | quantity _ _ => cases h

/-- What comes of entries that are taken without a complaint. -/
structure Takes (c : Config) (es : List (Value × Value)) (d : Config) : Prop where
  known : ∀ e ∈ es, ∃ n : Name, e.1.plainText? = some n.key
  given : ∀ (n : Name) (v : Value), Value.get? n.key es = some v → n.read v = .ok (d.held n)
  kept : ∀ n : Name, Value.get? n.key es = none → d.held n = c.held n

theorem takes_cons {k : Value} {n : Name} (mapping : IsMapping ((k, v) :: es))
    (hk : k.plainText? = some n.key) :
    Takes c ((k, v) :: es) d ↔ n.read v = .ok (d.held n) ∧ Takes (take n d c) es d := by
  have absent := mapping.fresh hk
  constructor
  · rintro ⟨known, given, kept⟩
    refine ⟨given n v (by rw [Value.get?_cons_eq, if_pos hk]),
      fun e he => known e (List.mem_cons_of_mem _ he), fun m w hm => ?_, fun m hm => ?_⟩
    · refine given m w ?_
      rw [Value.get?_cons_eq, if_neg, hm]
      rintro same
      obtain rfl := Name.key_inj (Option.some.inj (hk.symm.trans same))
      cases absent.symm.trans hm
    · rw [held_take]
      split
      · next same => rw [same]
      · next other =>
        refine kept m ?_
        rw [Value.get?_cons_eq, if_neg, hm]
        exact fun same => other (Name.key_inj (Option.some.inj (hk.symm.trans same))).symm
  · rintro ⟨read, known, given, kept⟩
    refine ⟨List.forall_mem_cons.mpr ⟨⟨n, hk⟩, known⟩, fun m w hm => ?_, fun m hm => ?_⟩
    all_goals
      rw [Value.get?_cons_eq] at hm
      split at hm
    · next same =>
      obtain rfl := Name.key_inj (Option.some.inj (hk.symm.trans same))
      cases hm
      exact read
    · exact given m w hm
    · cases hm
    · next other =>
      rw [kept m hm, held_take, if_neg]
      rintro rfl
      exact other hk

theorem setFields_cons {k : Value} : setFields c ((k, v) :: es) = .ok (d, []) ↔
    ∃ e, setField c (k.asText?.getD "") v = .ok e ∧ setFields e es = .ok (d, []) := by
  rw [setFields]
  cases setField c (k.asText?.getD "") v with
  | ok e => simp
  | error stop =>
    cases stop with
    | fault f => simp
    | refused complaint => simp [bind_eq_ok]

/-- Entries are taken without a complaint if every key is a name and every value can be read. -/
theorem setFields_eq_ok (mapping : IsMapping es) : setFields c es = .ok (d, []) ↔ Takes c es d := by
  induction es generalizing c with
  | nil =>
    simp only [setFields, Except.ok.injEq, Prod.mk.injEq, and_true]
    constructor
    · rintro rfl
      exact ⟨List.forall_mem_nil _, nofun, fun _ _ => rfl⟩
    · rintro ⟨-, -, kept⟩
      exact ext_held fun n => (kept n rfl).symm
  | cons e es ih =>
    obtain ⟨k, v⟩ := e
    rw [setFields_cons]
    simp only [ih mapping.tail]
    by_cases named : ∃ n : Name, n.key = k.asText?.getD ""
    · obtain ⟨n, hn⟩ := named
      have hk := plainText?_of_name (mapping.formed _ List.mem_cons_self) hn.symm
      have absent := mapping.fresh hk
      rw [takes_cons mapping hk, ← hn]
      simp only [setField_key]
      constructor
      · rintro ⟨e, ⟨read, put⟩, rest⟩
        have same := rest.kept n absent
        rw [put] at rest
        rw [same]
        refine ⟨read, ?_⟩
        rwa [take_congr same]
      · rintro ⟨read, rest⟩
        have same : d.held n = (take n d c).held n := by rw [held_take, if_pos rfl]
        exact ⟨take n d c, ⟨same ▸ read, take_congr same⟩, rest⟩
    · rw [setField_unknown (not_exists.mp named)]
      constructor
      · rintro ⟨e, refused, -⟩
        cases refused
      · rintro ⟨known, -, -⟩
        obtain ⟨n, hn⟩ := known _ List.mem_cons_self
        exact absurd ⟨n, by rw [asText?_of_plainText? hn]; rfl⟩ named

/-- What a dictionary says of a configuration: all its keys are names, and under each name the
configuration holds what was given for it, or else what is usual. -/
structure Describes (es : List (Value × Value)) (c : Config) : Prop where
  known : ∀ e ∈ es, ∃ n : Name, e.1.plainText? = some n.key
  given : ∀ (n : Name) (v : Value), Value.get? n.key es = some v → n.read v = .ok (c.held n)
  absent : ∀ n : Name, Value.get? n.key es = none → n.usual = some (c.held n)

/-- A dictionary is accepted exactly for the configuration that it described. -/
theorem ofEntries_eq_ok (mapping : IsMapping es) : ofEntries es = .ok c ↔ Describes es c := by
  have accepted : ofEntries es = .ok c ↔
      setFields { host := "" } es = .ok (c, []) ∧ Value.get? "host" es ≠ none := by
    unfold ofEntries
    rcases setFields { host := "" } es with f | ⟨d, issues⟩
    · simp [orFault, bind_eq_ok]
    · cases issues <;> cases Value.get? "host" es <;> simp [orFault, bind, Except.bind]
  rw [accepted, setFields_eq_ok mapping]
  constructor
  · rintro ⟨⟨known, given, kept⟩, named⟩
    refine ⟨known, given, fun n hn => ?_⟩
    rw [kept n hn]
    cases n with
    | host => exact absurd hn named
    | port | localPort | refreshInterval | failureThreshold => rfl
  · rintro ⟨known, given, absent⟩
    refine ⟨⟨known, given, fun n hn => ?_⟩, fun hn => ?_⟩
    · have usual := absent n hn
      cases n with
      | host => cases usual
      | port | localPort | refreshInterval | failureThreshold => exact (Option.some.inj usual).symm
    · cases absent .host hn

theorem Describes.perm (h : Describes es c) (mapping : IsMapping es) (p : es.Perm fs) : Describes fs c := by
  refine ⟨fun e he => h.known e (p.mem_iff.mpr he), fun n v hv => ?_, fun n hn => ?_⟩
  · exact h.given n v ((mapping.get?_perm p n.key).trans hv)
  · exact h.absent n ((mapping.get?_perm p n.key).trans hn)

theorem intBetween_eq_ok {low high i : Int} (h : intBetween low high v = .ok i) : low ≤ i ∧ i ≤ high := by
  obtain ⟨j, -, h⟩ := bind_eq_ok.mp h
  split at h
  · cases h
  · split at h
    · cases h
    · cases h
      omega

theorem intBetween_int {low high i : Int} (above : low ≤ i) (below : i ≤ high) :
    intBetween low high (.int i) = .ok i :=
  bind_eq_ok.mpr ⟨i, rfl, by rw [if_neg (by omega), if_neg (by omega)]⟩

theorem intBetween_int_eq_ok {low high i j : Int} :
    intBetween low high (.int i) = .ok j ↔ (low ≤ i ∧ i ≤ high) ∧ j = i := by
  constructor
  · intro h
    have within := intBetween_eq_ok h
    obtain ⟨k, whole, h⟩ := bind_eq_ok.mp h
    cases whole
    split at h
    · cases h
    · split at h
      · cases h
      · cases h
        exact ⟨within, rfl⟩
  · rintro ⟨within, rfl⟩
    exact intBetween_int within.1 within.2

theorem intFrom_eq_ok {low i : Int} (h : intFrom low v = .ok i) : low ≤ i := by
  obtain ⟨j, -, h⟩ := bind_eq_ok.mp h
  cases h
  exact le_max_left low j

theorem intFrom_int {low i : Int} (above : low ≤ i) : intFrom low (.int i) = .ok i :=
  congrArg Except.ok (max_eq_right above)

theorem toHost_eq_ok {host : String} (h : toHost v = .ok host) :
    host ≠ "" ∧ Text.Trimmed host.toList := by
  unfold toHost at h
  split at h
  · cases h
  · next s _ =>
    dsimp only at h
    split at h
    · cases h
    · next filled =>
      cases h
      refine ⟨by simpa using filled, ?_⟩
      rw [Text.trim, String.toList_ofList]
      exact Text.trimmed_trimChars s.toList

theorem toHost_text_eq_ok {s host : String} :
    toHost (.text s) = .ok host ↔ Text.trim s ≠ "" ∧ host = Text.trim s := by
  unfold toHost
  dsimp only [Value.asText?]
  split
  · next blank => exact iff_of_false nofun fun h => h.1 (String.isEmpty_iff.mp blank)
  · next filled =>
    rw [Except.ok.injEq, eq_comm, and_iff_right fun blank => filled (String.isEmpty_iff.mpr blank)]

theorem toHost_text {host : String} (filled : host ≠ "") (trimmed : Text.Trimmed host.toList) :
    toHost (.text host) = .ok host := by
  have same : Text.trim host = host := by rw [Text.trim, trimmed.trimChars, String.ofList_toList]
  simp [toHost, Value.asText?, same, filled]

/-- What holds of every configuration that was accepted. -/
structure Sound (c : Config) : Prop where
  host : c.host ≠ ""
  trimmed : Text.Trimmed c.host.toList
  port : 1 ≤ c.port ∧ c.port ≤ 65535
  localPort : 0 ≤ c.localPort ∧ c.localPort ≤ 65535
  refreshInterval : 1 ≤ c.refreshInterval
  failureThreshold : 1 ≤ c.failureThreshold ∧ c.failureThreshold ≤ 10

/-- What a configuration holds under a name was read from some value, or it is usual. -/
theorem Describes.source (h : Describes es c) (n : Name) :
    (∃ v, n.read v = .ok (c.held n)) ∨ n.usual = some (c.held n) := by
  cases given : Value.get? n.key es with
  | some v => exact .inl ⟨v, h.given n v given⟩
  | none => exact .inr (h.absent n given)

theorem read_eq_ok {α : Type} {x : Converted α} {wrap : α → Value} (inj : Function.Injective wrap)
    {a : α} (h : wrap <$> x = .ok (wrap a)) : x = .ok a := by
  cases x with
  | error e => cases h
  | ok b => exact congrArg Except.ok (inj (Except.ok.inj h))

theorem Describes.sound (h : Describes es c) : Sound c := by
  have text : Function.Injective Value.text := fun _ _ h => Value.text.inj h
  have int : Function.Injective Value.int := fun _ _ h => Value.int.inj h
  have host : c.host ≠ "" ∧ Text.Trimmed c.host.toList := by
    obtain ⟨v, read⟩ | usual := h.source .host
    · exact toHost_eq_ok (read_eq_ok text read)
    · cases usual
  refine ⟨host.1, host.2, ?_, ?_, ?_, ?_⟩
  · obtain ⟨v, read⟩ | usual := h.source .port
    · exact intBetween_eq_ok (read_eq_ok int read)
    · have same : 30000 = c.port := int (Option.some.inj usual)
      omega
  · obtain ⟨v, read⟩ | usual := h.source .localPort
    · exact intBetween_eq_ok (read_eq_ok int read)
    · have same : 0 = c.localPort := int (Option.some.inj usual)
      omega
  · obtain ⟨v, read⟩ | usual := h.source .refreshInterval
    · exact intFrom_eq_ok (read_eq_ok int read)
    · have same : 60 = c.refreshInterval := int (Option.some.inj usual)
      omega
  · obtain ⟨v, read⟩ | usual := h.source .failureThreshold
    · exact intBetween_eq_ok (read_eq_ok int read)
    · have same : 3 = c.failureThreshold := int (Option.some.inj usual)
      omega

/-- What a sound configuration holds is read as it is. -/
theorem Sound.read_held (h : Sound c) (n : Name) : n.read (c.held n) = .ok (c.held n) := by
  cases n with
  | host => exact congrArg (Value.text <$> ·) (toHost_text h.host h.trimmed)
  | port => exact congrArg (Value.int <$> ·) (intBetween_int h.port.1 h.port.2)
  | localPort => exact congrArg (Value.int <$> ·) (intBetween_int h.localPort.1 h.localPort.2)
  | refreshInterval => exact congrArg (Value.int <$> ·) (intFrom_int h.refreshInterval)
  | failureThreshold =>
    exact congrArg (Value.int <$> ·) (intBetween_int h.failureThreshold.1 h.failureThreshold.2)

/-- Only a fraction can be a fault. -/
theorem toInt_eq_fault {f : Fault} (h : toInt v = .error (.fault f)) : ∃ b, v = .float b := by
  cases v with
  | float b => exact ⟨b, rfl⟩
  | bool _ | int _ | none | list _ | dict _ | quantity _ _ => cases h
  | text _ | broken _ | bytes _ | switch _ =>
    simp only [toInt, Value.asText?, toInt.ofChars] at h
    split at h <;> cases h

theorem intBetween_eq_fault {low high : Int} {f : Fault} (h : intBetween low high v = .error (.fault f)) :
    ∃ b, v = .float b := by
  rcases bind_eq_error.mp h with h | ⟨i, -, h⟩
  · exact toInt_eq_fault h
  · split at h
    · cases h
    · split at h <;> cases h

theorem toHost_ne_fault {f : Fault} : toHost v ≠ .error (.fault f) := by
  intro h
  unfold toHost at h
  split at h
  · cases h
  · dsimp only at h
    split at h <;> cases h

theorem setField_eq_fault {name : String} {f : Fault} (h : setField c name v = .error (.fault f)) :
    ∃ b, v = .float b := by
  have field : ∀ {α : Type} {x : Converted α} {put : α → Config},
      (do return put (← x)) = (.error (.fault f) : Converted Config) → x = .error (.fault f) := by
    intro α x put h
    rcases bind_eq_error.mp h with h | ⟨a, -, h⟩
    · exact h
    · cases h
  unfold setField at h
  split at h
  · exact absurd (field h) toHost_ne_fault
  · exact intBetween_eq_fault (field h)
  · exact intBetween_eq_fault (field h)
  · rcases bind_eq_error.mp (field h) with h | ⟨a, -, h⟩
    · exact toInt_eq_fault h
    · cases h
  · exact intBetween_eq_fault (field h)
  · cases h

/-- Without fractions a dictionary is accepted or complained about. -/
theorem ofEntries_cases (whole : ∀ e ∈ es, ∀ b, e.2 ≠ .float b) :
    (∃ c, ofEntries es = .ok c) ∨ ∃ issues, ofEntries es = .error (.refused issues) := by
  have taken : ∀ c, ∃ d issues, setFields c es = .ok (d, issues) := by
    induction es with
    | nil => exact fun c => ⟨c, [], rfl⟩
    | cons e es ih =>
      intro c
      obtain ⟨first, whole⟩ := List.forall_mem_cons.mp whole
      rw [setFields]
      split
      · exact ih whole _
      · next fault => exact absurd (setField_eq_fault fault) (not_exists.mpr first)
      · obtain ⟨d, issues, h⟩ := ih whole c
        rw [h]
        exact ⟨d, _, rfl⟩
  obtain ⟨d, issues, h⟩ := taken { host := "" }
  unfold ofEntries
  rw [h]
  dsimp only [orFault, bind, Except.bind]
  split
  · exact .inl ⟨d, rfl⟩
  · exact .inr ⟨_, rfl⟩

/-- Complaints are about the keys that there are. -/
theorem setFields_keys {c d : Config} {issues : List Issue} (h : setFields c es = .ok (d, issues)) :
    ∀ i ∈ issues, ∃ e ∈ es, i.key = e.1 := by
  induction es generalizing c issues with
  | nil =>
    cases h
    exact List.forall_mem_nil _
  | cons e es ih =>
    have later : ∀ {c issues}, setFields c es = .ok (d, issues) → ∀ i ∈ issues, ∃ x ∈ e :: es, i.key = x.1 := by
      intro c issues h i hi
      obtain ⟨x, hx, key⟩ := ih h i hi
      exact ⟨x, List.mem_cons_of_mem e hx, key⟩
    rw [setFields] at h
    split at h
    · exact later h
    · cases h
    · obtain ⟨⟨d', issues'⟩, rest, he⟩ := bind_eq_ok.mp h
      cases he
      exact List.forall_mem_cons.mpr ⟨⟨e, List.mem_cons_self, rfl⟩, later rest⟩

/-- Or else about the host, which is missing. -/
theorem ofEntries_keys {issues : List Issue} (h : ofEntries es = .error (.refused issues)) :
    ∀ i ∈ issues, i.key = .text "host" ∨ ∃ e ∈ es, i.key = e.1 := by
  unfold ofEntries at h
  rcases bind_eq_error.mp h with fault | ⟨⟨c, found⟩, taken, h⟩
  · exact absurd fault orFault_ne_refused
  · dsimp only at h
    split at h
    · cases h
    · cases h
      have keys := setFields_keys (orFault_eq_ok.mp taken)
      refine List.forall_mem_append.mpr ⟨fun i hi => .inr (keys i hi), fun i hi => ?_⟩
      split at hi
      · rw [List.mem_singleton.mp hi]
        exact .inl rfl
      · cases hi

def entry (c : Config) (n : Name) : Value × Value := (.text n.key, c.held n)

/-- The fields of a configuration under their names. -/
def entries (c : Config) : List (Value × Value) :=
  [.host, .port, .localPort, .refreshInterval, .failureThreshold].map c.entry

theorem mem_entries {e : Value × Value} : e ∈ c.entries ↔ ∃ n, e = c.entry n := by
  constructor
  · intro he
    obtain ⟨n, -, hn⟩ := List.mem_map.mp he
    exact ⟨n, hn.symm⟩
  · rintro ⟨n, rfl⟩
    refine List.mem_map_of_mem ?_
    cases n <;> decide

theorem isMapping_entries (c : Config) : IsMapping c.entries := by
  refine ⟨fun e he => ?_, ?_⟩
  · obtain ⟨n, rfl⟩ := mem_entries.mp he
    exact nofun
  · change ["host", "port", "local_port", "refresh_interval", "failure_threshold"].Nodup
    decide

theorem get?_entries (c : Config) (n : Name) : Value.get? n.key c.entries = some (c.held n) :=
  (isMapping_entries c).get?_eq_some.mpr ⟨_, mem_entries.mpr ⟨n, rfl⟩, rfl⟩

/-- A sound configuration is what its own fields say. -/
theorem Sound.describes (h : Sound c) : Describes c.entries c := by
  refine ⟨fun e he => ?_, fun n v hv => ?_, fun n hn => ?_⟩
  · obtain ⟨n, rfl⟩ := mem_entries.mp he
    exact ⟨n, rfl⟩
  · cases (get?_entries c n).symm.trans hv
    exact h.read_held n
  · cases (get?_entries c n).symm.trans hn

theorem Sound.everySeconds (h : Sound c) :
    Plan.everySeconds (.int c.refreshInterval) = .ok (.every (.whole c.refreshInterval)) := by
  have busy : Plan.isIdle (.whole c.refreshInterval) = false :=
    decide_eq_false (not_le.mpr (Int.lt_of_add_one_le h.refreshInterval))
  simp [Plan.everySeconds, Plan.span?, busy]

theorem Sound.threshold (h : Sound c) (ownsRunner : Bool) :
    (Session.start c ownsRunner).health.threshold = c.failureThreshold :=
  max_eq_right h.failureThreshold.1

/-- An accepted configuration keeps its bounds. It comes of the dictionary in any order, and of its own
fields in any order. Its sessions count failures up to the threshold that it names, and schedule a
recurring poll that is a plan for its interval: no accepted interval is too short for one. -/
theorem ofEntries_normal (mapping : IsMapping es) (h : ofEntries es = .ok c) :
    Sound c ∧
    (∀ fs, fs.Perm es → ofEntries fs = .ok c) ∧
    (∀ fs, fs.Perm c.entries → ofEntries fs = .ok c) ∧
    (∀ ownsRunner, (Session.start c ownsRunner).health.threshold = c.failureThreshold) ∧
    ∃ plan, Plan.everySeconds (.int c.refreshInterval) = .ok plan ∧
      ∀ s : Session, s.config = c → s.disposed = false →
        Routine.startPolling.exec s = (.ok (.done .nothing),
          { s with
            nextJob := s.nextJob + 1
            pollJob := some s.nextJob
            outbox := s.outbox ++ [.scheduled s.nextJob plan .poll] }) := by
  have described := (ofEntries_eq_ok mapping).mp h
  have sound := described.sound
  refine ⟨sound, fun fs p => ?_, fun fs p => ?_, sound.threshold, _, sound.everySeconds, ?_⟩
  · exact (ofEntries_eq_ok (mapping.perm p.symm)).mpr (described.perm mapping p.symm)
  · have own := isMapping_entries c
    exact (ofEntries_eq_ok (own.perm p.symm)).mpr (sound.describes.perm own p.symm)
  · rintro s rfl live
    simp [Routine.startPolling, Turn.schedule, live]

/-- A dictionary whose values are of many types, and whose interval is too short. -/
def oddEntries : List (Value × Value) :=
  [(.text "failure_threshold", .text " +0_7\n"), (.text "refresh_interval", .float (.ofRatio true 5 2)),
    (.text "local_port", .bool true), (.text "host", .text "\t10.0.0.2 "),
    (.text "port", .bytes "30001".toUTF8.toList)]

theorem ofEntries_normal_odd :
    let c : Config := ⟨"10.0.0.2", 30001, 1, 1, 7⟩
    IsMapping oddEntries ∧ ofEntries oddEntries = .ok c ∧ Sound c ∧
      ofEntries oddEntries.reverse = .ok c ∧ ofEntries c.entries.reverse = .ok c := by
  intro c
  have mapping : IsMapping oddEntries := by
    refine ⟨fun e he s hs => ?_, by decide⟩
    simp only [oddEntries, List.mem_cons, List.not_mem_nil, or_false] at he
    rcases he with rfl | rfl | rfl | rfl | rfl <;> cases hs
  have accepted : ofEntries oddEntries = .ok c := toOption_eq_some.mp (by decide +kernel)
  obtain ⟨sound, shuffled, own, -⟩ := ofEntries_normal mapping accepted
  exact ⟨mapping, accepted, sound, shuffled _ (List.reverse_perm _), own _ (List.reverse_perm _)⟩

end Config
end BatteryLink
