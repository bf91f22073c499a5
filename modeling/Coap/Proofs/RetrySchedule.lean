import Coap.Proofs.Operation
import Mathlib.Algebra.GroupWithZero.Nat

/-!
# The schedule of retransmissions

When a confirmable message is sent again and when it is given up. The record of a message that has
been through so many of its events is fixed by the settings, the message and the time it was
scheduled at, whatever the sweeps were and whatever else went on; a sweep reads the next event off
that record, and moves it on to the next one only then.
-/
namespace Coap

theorem Millis.add_assoc (a b c : Millis) :
    Millis.add (Millis.add a b) c = Millis.add a (Millis.add b c) := by
  unfold add
  grind

namespace Config

variable (c : Config) (m : Message) (start : Millis)

/-- When so many events of a message that was scheduled at `start` are due. -/
def deadline (n : Nat) : Millis :=
  min (start + ((List.range n).map (c.backoff.delay c.ackTimeout)).sum) Millis.top

/-- The `n`th event of a message: all but the last send it again. -/
def retryEvent (n : Nat) : Exchanges.Event :=
  if n ≤ c.maxRetransmit then .retry m else .abandoned m.id m.token

/-- What is left of the record of a message after `n` of its events. -/
def record? (n : Nat) : Option Retry :=
  if n ≤ c.maxRetransmit then some ⟨c.deadline start (n + 1), n, m⟩ else none

theorem deadline_succ (n : Nat) :
    c.deadline start (n + 1) =
      Millis.add (c.deadline start n) (c.backoff.delay c.ackTimeout n) := by
  simp only [deadline, List.range_succ, List.map_append, List.sum_append, List.map_singleton,
    List.sum_singleton, Millis.add]
  grind

/-- The deadlines are reached by adding up the waits, and so is the span. -/
theorem deadline_eq_span (n : Nat) :
    c.deadline start n = Millis.add start (c.backoff.span c.ackTimeout n) := by
  induction n with
  | zero => simp [deadline, Backoff.span_zero, Millis.add]
  | succ n ih => rw [deadline_succ, ih, Backoff.span_succ, Millis.add_assoc]

theorem deadline_one : c.deadline start 1 = Millis.add start c.ackTimeout := by
  rw [deadline_eq_span, Backoff.span_succ, Backoff.span_zero]
  cases c.backoff <;> simp only [Backoff.delay, Backoff.factor, Millis.add, Millis.mul] <;> grind

/-! ## One record in one sweep -/

variable {c m start}

/-- The next event is there and is due. -/
def IsDue (c : Config) (start : Millis) (n : Nat) (now : Millis) : Prop :=
  n ≤ c.maxRetransmit ∧ c.deadline start (n + 1) ≤ now

instance {n : Nat} {now : Millis} : Decidable (c.IsDue start n now) :=
  inferInstanceAs (Decidable (_ ∧ _))

/-- The next retransmission is a wait after the one that was due, however late that one was. -/
theorem advance_eq (n : Nat) :
    Retry.advance c ⟨c.deadline start (n + 1), n, m⟩ = ⟨c.deadline start (n + 2), n + 1, m⟩ := by
  rw [deadline_succ c start (n + 1)]
  rfl

/-- A sweep that finds the next event due yields it and leaves the record of the one after. -/
theorem record?_of_due {n : Nat} {now : Millis} (hdue : c.IsDue start n now) :
    ((c.record? m start n).bind fun r => (r.verdict c now).event? m.id r) =
        some (c.retryEvent m (n + 1)) ∧
      ((c.record? m start n).bind fun r => (r.verdict c now).next? r) =
        c.record? m start (n + 1) := by
  obtain ⟨hleft, hnow⟩ := hdue
  rw [record?, if_pos hleft, Option.bind_some, Option.bind_some, Retry.verdict,
    if_neg (Nat.not_lt.2 hnow)]
  by_cases hlast : c.maxRetransmit ≤ n
  · have hover : ¬ n + 1 ≤ c.maxRetransmit := by omega
    rw [if_pos hlast, retryEvent, record?, if_neg hover, if_neg hover]
    exact ⟨rfl, rfl⟩
  · have hmore : n + 1 ≤ c.maxRetransmit := by omega
    rw [if_neg hlast, retryEvent, record?, if_pos hmore, if_pos hmore, advance_eq]
    exact ⟨rfl, rfl⟩

/-- Any other sweep passes over the record. -/
theorem record?_of_not_due {n : Nat} {now : Millis} (hdue : ¬ c.IsDue start n now) :
    ((c.record? m start n).bind fun r => (r.verdict c now).event? m.id r) = none ∧
      ((c.record? m start n).bind fun r => (r.verdict c now).next? r) = c.record? m start n := by
  by_cases hleft : n ≤ c.maxRetransmit
  · have hnow : now < c.deadline start (n + 1) := Nat.not_le.1 fun h => hdue ⟨hleft, h⟩
    rw [record?, if_pos hleft, Option.bind_some, Option.bind_some, Retry.verdict, if_pos hnow]
    exact ⟨rfl, rfl⟩
  · rw [record?, if_neg hleft]
    exact ⟨rfl, rfl⟩

end Config

namespace Exchanges

/-- The id of the message that an event is about. -/
def Event.id : Event → MessageId
  | .retry m => m.id
  | .abandoned id _ => id

variable {κ : Type} {x x' : Exchanges κ} {id : MessageId} {m : Message} {now : Millis}

/-! ## One record among the others -/

/-- Every record is kept under the id of its message. -/
def Filed (x : Exchanges κ) : Prop :=
  ∀ (id : MessageId) r, x.retries[id]? = some r → r.message.id = id

theorem Filed.apply (hfiled : x.Filed) (op : Operation κ) : (x.apply op).Filed := by
  intro id r' hr'
  rcases message_of_retries_apply hr' with ⟨r, hr, hmessage⟩ | ⟨-, hid⟩
  · rw [hmessage]
    exact hfiled id r hr
  · exact hid

theorem Filed.after (hfiled : x.Filed) (ops : List (Operation κ)) : (x.after ops).Filed := by
  induction ops generalizing x with
  | nil => exact hfiled
  | cons op ops ih => exact ih (hfiled.apply op)

theorem filed_new (config : Config) (lastId : MessageId) :
    (new config lastId : Exchanges κ).Filed := by
  intro id r hr
  cases Std.ExtTreeMap.getElem?_empty.symm.trans hr

/-- What a sweep yields for a record. -/
def eventOf (x : Exchanges κ) (now : Millis) (e : MessageId × Retry) : Option Event :=
  (e.2.verdict x.config now).event? e.1 e.2

theorem events_sweep (x : Exchanges κ) (now : Millis) :
    (x.sweep now).1 = x.retries.toList.filterMap (x.eventOf now) := rfl

theorem Filed.id_of_eventOf {r : Retry} {e : Event} (hfiled : x.Filed)
    (hr : x.retries[id]? = some r) (he : x.eventOf now (id, r) = some e) : e.id = id := by
  unfold eventOf at he
  cases hverdict : r.verdict x.config now with
  | waiting =>
    rw [hverdict] at he
    cases he
  | again next =>
    rw [hverdict] at he
    cases he
    exact hfiled id r hr
  | givenUp =>
    rw [hverdict] at he
    cases he
    rfl

/-- Records of other ids give no event of this one. -/
theorem Filed.filterMap_others (hfiled : x.Filed) {records : List (MessageId × Retry)}
    (hrecords : ∀ e ∈ records, x.retries[e.1]? = some e.2 ∧ e.1 ≠ id) :
    (records.filterMap (x.eventOf now)).filter (·.id == id) = [] := by
  rw [List.filter_eq_nil_iff]
  intro event hevent
  obtain ⟨e, he, hevent⟩ := List.mem_filterMap.1 hevent
  obtain ⟨hr, hne⟩ := hrecords e he
  rw [hfiled.id_of_eventOf hr hevent]
  simpa using hne

/-- The events of a sweep that are about an id come from the record of that id. -/
theorem Filed.filter_sweep (hfiled : x.Filed) (id : MessageId) (now : Millis) :
    (x.sweep now).1.filter (·.id == id) =
      (x.retries[id]?.bind fun r => x.eventOf now (id, r)).toList := by
  rw [events_sweep]
  cases hr : x.retries[id]? with
  | none =>
    apply hfiled.filterMap_others
    rintro ⟨id', r⟩ hmem
    have hr' := Std.ExtTreeMap.mem_toList_iff_getElem?_eq_some.1 hmem
    refine ⟨hr', ?_⟩
    rintro rfl
    cases hr.symm.trans hr'
  | some r =>
    obtain ⟨front, back, hlist⟩ :=
      List.append_of_mem (Std.ExtTreeMap.mem_toList_iff_getElem?_eq_some.2 hr)
    have hstands : ∀ e ∈ front ++ (id, r) :: back, x.retries[e.1]? = some e.2 := by
      rw [← hlist]
      exact fun e => Std.ExtTreeMap.mem_toList_iff_getElem?_eq_some.1
    have hdistinct := x.retries.distinct_keys_toList
    rw [hlist, List.pairwise_append, List.pairwise_cons] at hdistinct
    have hfront : ∀ e ∈ front, x.retries[e.1]? = some e.2 ∧ e.1 ≠ id := by
      intro e he
      refine ⟨hstands e (List.mem_append_left _ he), ?_⟩
      rintro rfl
      exact hdistinct.2.2 e he _ List.mem_cons_self Std.ReflCmp.compare_self
    have hback : ∀ e ∈ back, x.retries[e.1]? = some e.2 ∧ e.1 ≠ id := by
      intro e he
      refine ⟨hstands e (List.mem_append_right _ (List.mem_cons_of_mem _ he)), ?_⟩
      rintro rfl
      exact hdistinct.2.1.1 e he Std.ReflCmp.compare_self
    rw [hlist, List.filterMap_append, List.filter_append, hfiled.filterMap_others hfront,
      List.nil_append, Option.bind_some]
    cases hevent : x.eventOf now (id, r) with
    | none =>
      rw [List.filterMap_cons_none hevent]
      exact hfiled.filterMap_others hback
    | some event =>
      have hkept : (event.id == id) = true := beq_iff_eq.2 (hfiled.id_of_eventOf hr hevent)
      rw [List.filterMap_cons_some hevent, List.filter_cons, if_pos hkept,
        hfiled.filterMap_others hback]
      rfl

/-! ## Runs -/

/-- A message has been through `seen` of its events, in order, and its record is that of the next
one. -/
structure OnSchedule (c : Config) (m : Message) (start : Millis) (seen : List Event)
    (x : Exchanges κ) : Prop where
  config_eq : x.config = c
  filed : x.Filed
  seen_eq : seen = (List.range seen.length).map fun n => c.retryEvent m (n + 1)
  length_le : seen.length ≤ c.maxRetransmit + 1
  record : x.retries[m.id]? = c.record? m start seen.length

variable {c : Config} {start : Millis} {seen : List Event}

theorem onSchedule_schedule (hfiled : x.Filed) (hm : m.type = .confirmable) (start : Millis) :
    OnSchedule x.config m start [] (x.schedule m start) where
  config_eq := by
    rw [schedule, if_pos hm]
  filed := hfiled.apply (.schedule m start)
  seen_eq := rfl
  length_le := Nat.zero_le _
  record := by
    rw [schedule, if_pos hm, Std.ExtTreeMap.getElem?_insert, if_pos Std.ReflCmp.compare_self]
    rw [Config.record?, List.length_nil, if_pos (Nat.zero_le _), Config.deadline_one]

/-- A sweep yields at most one event of a message: the next one, if it is due. -/
theorem OnSchedule.filter_sweep (h : OnSchedule c m start seen x) (now : Millis) :
    (x.sweep now).1.filter (·.id == m.id) =
      if c.IsDue start seen.length now then [c.retryEvent m (seen.length + 1)] else [] := by
  rw [h.filed.filter_sweep, h.record]
  simp only [eventOf, h.config_eq]
  split
  · rename_i hdue
    rw [(Config.record?_of_due hdue).1]
    rfl
  · rename_i hdue
    rw [(Config.record?_of_not_due hdue).1]
    rfl

theorem OnSchedule.retries_sweep (h : OnSchedule c m start seen x) (now : Millis) :
    (x.sweep now).2.retries[m.id]? =
      c.record? m start
        (if c.IsDue start seen.length now then seen.length + 1 else seen.length) := by
  rw [Exchanges.retries_sweep, h.record, h.config_eq]
  split
  · rename_i hdue
    exact (Config.record?_of_due hdue).2
  · rename_i hdue
    exact (Config.record?_of_not_due hdue).2

/-- One operation moves a message on along its schedule exactly if it is a sweep that finds the
next event due. -/
theorem OnSchedule.apply {op : Operation κ} (h : OnSchedule c m start seen x)
    (hspares : Spares m.id x op) :
    OnSchedule c m start (seen ++ (x.yields op).filter (·.id == m.id)) (x.apply op) := by
  have hconfig := (x.limits_apply op).1.trans h.config_eq
  have hfiled := h.filed.apply op
  obtain ⟨now, rfl⟩ | ⟨hyields, hretries⟩ := retries_of_spares hspares
  · rw [yields, h.filter_sweep now]
    have hrecord := h.retries_sweep now
    by_cases hdue : c.IsDue start seen.length now
    · rw [if_pos hdue] at hrecord ⊢
      refine ⟨hconfig, hfiled, ?_, ?_, ?_⟩
      · rw [List.length_append, List.length_singleton, List.range_succ, List.map_append,
          ← h.seen_eq]
        rfl
      · rw [List.length_append, List.length_singleton]
        exact Nat.succ_le_succ hdue.1
      · rw [List.length_append, List.length_singleton]
        exact hrecord
    · rw [if_neg hdue] at hrecord ⊢
      rw [List.append_nil]
      exact ⟨hconfig, hfiled, h.seen_eq, h.length_le, hrecord⟩
  · rw [hyields, List.filter_nil, List.append_nil]
    exact ⟨hconfig, hfiled, h.seen_eq, h.length_le, hretries.trans h.record⟩

theorem OnSchedule.after {ops : List (Operation κ)} (h : OnSchedule c m start seen x)
    (hspares : Throughout (Spares m.id) x ops) :
    OnSchedule c m start (seen ++ (x.events ops).filter (·.id == m.id)) (x.after ops) := by
  induction ops generalizing x seen with
  | nil =>
    rw [events, List.filter_nil, List.append_nil]
    exact h
  | cons op ops ih =>
    rw [events, List.filter_append, ← List.append_assoc]
    exact ih (h.apply hspares.1) hspares.2

/-- **A confirmable message is sent again on schedule and then given up.** After any run it is
scheduled at `start`, and then anything happens that spares its record. The events about it so far
are the first of `retryEvent 1, …, retryEvent (maxRetransmit + 1)`, and a sweep at any time yields
the next one if there is one and its deadline has come, and otherwise none. The deadlines are as
far from `start` as the span of so many attempts. -/
theorem sent_again_on_schedule (config : Config) (lastId : MessageId)
    (earlier later : List (Operation κ)) (m : Message) (start now : Millis)
    (hm : m.type = .confirmable)
    (hspared : Throughout (Spares m.id)
      (((new config lastId).after earlier).apply (.schedule m start)) later) :
    let x := ((new config lastId).after earlier).apply (.schedule m start)
    let seen := (x.events later).filter (·.id == m.id)
    seen = ((List.range seen.length).map fun n => config.retryEvent m (n + 1)) ∧
      seen.length ≤ config.maxRetransmit + 1 ∧
      ((x.after later).sweep now).1.filter (·.id == m.id) =
        (if seen.length ≤ config.maxRetransmit ∧ config.deadline start (seen.length + 1) ≤ now
          then [config.retryEvent m (seen.length + 1)] else []) ∧
      ∀ n, config.deadline start n =
        Millis.add start (config.backoff.span config.ackTimeout n) := by
  intro x seen
  have hfiled := (filed_new config lastId : (new config lastId : Exchanges κ).Filed).after earlier
  have hstart := onSchedule_schedule hfiled hm start
  rw [(limits_after (new config lastId) earlier).1] at hstart
  have hschedule : OnSchedule config m start seen (x.after later) := hstart.after hspared
  exact ⟨hschedule.seen_eq, hschedule.length_le, hschedule.filter_sweep now,
    config.deadline_eq_span start⟩

/-- One retransmission, which a late sweep sends; the next deadline is no later for it. -/
def sampleRetries : List (Operation Unit) :=
  [.sweep 2999, .schedule { id := 8 } 2999, .sweep 5000, .deliver { id := 9 }, .acknowledge 8]

theorem sent_again_on_schedule_sample :
    let x := ((new { maxRetransmit := 1 } 6 : Exchanges Unit).after [.allocate]).apply
      (.schedule { id := 7 } 1000)
    Throughout (Spares 7) x sampleRetries ∧
      (x.events sampleRetries).filter (·.id == 7) = [.retry { id := 7 }] ∧
      ((x.after sampleRetries).sweep 7000).1.filter (·.id == 7) = [.abandoned 7 .empty] := by
  intro x
  have hspared : Throughout (Spares 7) x sampleRetries := by
    have hother : (8 : MessageId) ≠ 7 := by decide
    refine ⟨trivial, fun _ => hother, trivial, ?_, hother, trivial⟩
    rw [Spares, ends_deliver_iff]
    rintro ⟨p, hp⟩
    have hnobody : ((((x.apply (.sweep 2999)).apply (.schedule { id := 8 } 2999)).apply
      (.sweep 5000)).pending)[(7 : MessageId)]? = none := by decide +kernel
    cases hnobody.symm.trans hp.pending
  have hlength : ((x.events sampleRetries).filter (·.id == 7)).length = 1 := by decide +kernel
  have hdue : 1 ≤ 1 ∧ Config.deadline { maxRetransmit := 1 } 1000 2 ≤ 7000 := by decide +kernel
  obtain ⟨hseen, -, hnext, -⟩ := sent_again_on_schedule { maxRetransmit := 1 } 6 [.allocate]
    sampleRetries { id := 7 } 1000 7000 rfl hspared
  refine ⟨hspared, ?_, ?_⟩
  · rw [hlength] at hseen
    exact hseen
  · rw [hlength, if_pos hdue] at hnext
    exact hnext

end Exchanges
end Coap
