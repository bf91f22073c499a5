import Coap.Proofs.Answered
import Coap.Proofs.FreshIds

/-!
# Requests that are sent again and are still awaited

A request that goes out begins an exchange, which waits for the response, and a record, by which
the request is sent again. A response, a reset and the giving up of the request end both together.
Only the end of the exchange's time leaves the record behind: so as long as no sweep has found that
time over, a request that is sent again has somebody waiting for the answer.
-/
namespace Coap

namespace Exchanges

variable {κ : Type} {x : Exchanges κ} {op : Operation κ} {ops later : List (Operation κ)}
  {id : MessageId} {m : Message} {r : Retry} {p : Pending κ} {expiry start now : Millis}

open MessageId (next)

/-! ## Ids that are not drawn again -/

/-- What comes after a message that is scheduled begins anew. -/
theorem Orderly.after_schedule {before after : List (Operation κ)}
    (h : Orderly x (before ++ .schedule m now :: after)) :
    Orderly (x.after (before ++ [.schedule m now])) after := by
  generalize hops : before ++ .schedule m now :: after = ops at h
  induction h generalizing before with
  | nil x => cases before <;> cases hops
  | @other x op ops hop h ih =>
    cases before with
    | nil =>
      cases hops
      cases hop
    | cons first before =>
      cases hops
      exact ih rfl
  | @message x draw m' now' ops hdraw h ih =>
    rcases before with _ | ⟨first, _ | ⟨second, before⟩⟩
    · cases hops
      cases hdraw
    · cases hops
      exact h
    · cases hops
      exact ih rfl

theorem drawsFor_of_inserts (hop : op.isSchedule = false) (h : Inserts id x op) :
    id = next^[x.draws op] x.lastId ∧ 0 < x.draws op := by
  cases op with
  | register token delivery now =>
    obtain ⟨hid, hpos⟩ := lastId_of_register h
    rw [lastId_register] at hid
    exact ⟨hid, hpos⟩
  | schedule m now => cases hop
  | _ => exact h.elim

/-- Nothing is registered under an id that is not drawn. -/
theorem Orderly.not_inserts (h : Orderly x ops)
    (hid : ∀ k, 0 < k → k ≤ x.drawn ops → id ≠ next^[k] x.lastId) :
    Throughout (fun y op => ¬ Inserts id y op) x ops := by
  induction h with
  | nil x => trivial
  | @other x op ops hop h ih =>
    rw [drawn] at hid
    refine ⟨?_, ih ?_⟩
    · intro hinserts
      obtain ⟨heq, hpos⟩ := drawsFor_of_inserts hop hinserts
      exact hid _ hpos (Nat.le_add_right _ _) heq
    · intro k hk hle
      rw [lastId_apply, ← Function.iterate_add_apply]
      exact hid _ (by omega) (by omega)
  | @message x draw m now ops hdraw h ih =>
    have hdrawn : x.drawn (draw :: .schedule m now :: ops) =
        x.draws draw + ((x.apply draw).apply (.schedule m now)).drawn ops :=
      congrArg (x.draws draw + ·) (Nat.zero_add _)
    rw [hdrawn] at hid
    have hpos := hdraw.draws_pos
    refine ⟨?_, ?_, ih ?_⟩
    · intro hinserts
      have hop : draw.isSchedule = false := by cases hdraw <;> rfl
      obtain ⟨heq, -⟩ := drawsFor_of_inserts hop hinserts
      exact hid _ hpos (Nat.le_add_right _ _) heq
    · rintro rfl
      rw [hdraw.lastId_eq, lastId_apply] at hid
      exact hid _ hpos (Nat.le_add_right _ _) rfl
    · intro k hk hle
      rw [lastId_schedule, lastId_apply, ← Function.iterate_add_apply]
      exact hid _ (by omega) (by omega)

/-! ## The record and the exchange -/

/-- A sweep found the time over. -/
def Overdue (expiry : Millis) (ops : List (Operation κ)) : Prop :=
  ∃ now, .sweep now ∈ ops ∧ expiry ≤ now

theorem overdue_concat :
    Overdue expiry (ops ++ [op]) ↔ Overdue expiry ops ∨ ∃ now, op = .sweep now ∧ expiry ≤ now := by
  simp only [Overdue, List.mem_append, List.mem_singleton]
  grind

theorem retries_of_ends (h : Ends id x op) : (x.apply op).retries[id]? = none := by
  obtain ⟨m, p, rfl, hp⟩ := h
  rw [apply, hp.deliver]
  exact Std.ExtTreeMap.getElem?_erase_self

/-- What ends the exchange before its time is over ends the record as well. -/
theorem leavesPending_of_retries (hr : (x.apply op).retries[id]? = some r)
    (hop : ∀ now, op = .sweep now → now < expiry) : LeavesPending id expiry x op := by
  cases op with
  | cancel id' =>
    rintro rfl
    cases Std.ExtTreeMap.getElem?_erase_self.symm.trans hr
  | sweep now =>
    refine ⟨hop now rfl, ?_⟩
    intro token habandoned
    have hverdict := abandoned_mem_sweep_iff.1 ⟨token, habandoned⟩
    rw [apply, retries_sweep] at hr
    obtain ⟨r', hr', hgivenUp⟩ := Option.map_eq_some_iff.1 hverdict
    rw [hr', Option.bind_some, hgivenUp] at hr
    cases hr
  | clear => cases Std.ExtTreeMap.getElem?_empty.symm.trans hr
  | _ => trivial

/-- The exchange of an id that is not used again is there until a sweep finds its time over. -/
theorem not_overdue_of_pending (hstart : x.pending[id]? = some p)
    (hops : Throughout (fun y op => ¬ Inserts id y op) x ops) {p' : Pending κ}
    (hp' : (x.after ops).pending[id]? = some p') : p' = p ∧ ¬ Overdue p.expiry ops := by
  induction ops using List.reverseRecOn generalizing p' with
  | nil =>
    cases hstart.symm.trans hp'
    refine ⟨rfl, ?_⟩
    rintro ⟨now, hmem, -⟩
    cases hmem
  | append_singleton ops op ih =>
    obtain ⟨hearlier, hop⟩ := throughout_concat.1 hops
    rw [after_concat] at hp'
    rcases pending_apply_iff.1 hp' with ⟨hold, hleaves, -⟩ | ⟨token, delivery, now, rfl, hid, -⟩
    · obtain ⟨rfl, hnot⟩ := ih hearlier hold
      refine ⟨rfl, ?_⟩
      rw [overdue_concat, not_or]
      refine ⟨hnot, ?_⟩
      rintro ⟨now, rfl, hle⟩
      exact Nat.not_lt.2 hle hleaves.1
    · exact absurd hid hop

theorem pending_of_retries (hstart : x.pending[id]? = some p)
    (hops : Throughout (fun y op => ¬ Inserts id y op) x ops) (hnot : ¬ Overdue p.expiry ops)
    (hr : (x.after ops).retries[id]? = some r) : (x.after ops).pending[id]? = some p := by
  induction ops using List.reverseRecOn generalizing r with
  | nil => exact hstart
  | append_singleton ops op ih =>
    obtain ⟨hearlier, hop⟩ := throughout_concat.1 hops
    rw [overdue_concat, not_or] at hnot
    rw [after_concat] at hr ⊢
    obtain ⟨r', hr', -⟩ | ⟨⟨now, rfl⟩, hid⟩ := message_of_retries_apply hr
    · refine pending_apply_iff.2 (.inl ⟨ih hearlier hnot.1 hr', ?_, ?_⟩)
      · apply leavesPending_of_retries hr
        rintro now rfl
        exact Nat.not_le.1 fun hle => hnot.2 ⟨now, rfl, hle⟩
      · intro hends
        cases (retries_of_ends hends).symm.trans hr
    · exact absurd hid hop

/-! ## What a run has scheduled -/

/-- A request waits for its response under the id. -/
def Waiting (id : MessageId) (token : Token) (x : Exchanges κ) : Prop :=
  ∃ p, x.pending[id]? = some p ∧ p.token = token

/-- The run registered a request at a time and scheduled it right after that. -/
def Requested (x : Exchanges κ) (ops : List (Operation κ)) (m : Message) (start : Millis)
    (later : List (Operation κ)) : Prop :=
  ∃ earlier delivery now,
    ops = earlier ++ .register m.token delivery start :: .schedule m now :: later ∧
      ((x.after earlier).register m.token delivery start).1 = some m.id

/-- The run drew an id for a message that waits for no response, and scheduled it right after
that. -/
def Pinged (x : Exchanges κ) (ops : List (Operation κ)) (m : Message) : Prop :=
  ∃ earlier now later, ops = earlier ++ .allocate :: .schedule m now :: later ∧
    (x.after earlier).allocate.1 = m.id

theorem Requested.concat (h : Requested x ops m start later) (op : Operation κ) :
    Requested x (ops ++ [op]) m start (later ++ [op]) := by
  obtain ⟨earlier, delivery, now, rfl, hid⟩ := h
  exact ⟨earlier, delivery, now, by simp, hid⟩

/-- A message that is sent again was scheduled. -/
theorem exists_schedule_of_retries (hstart : x.retries[id]? = none)
    (hr : (x.after ops).retries[id]? = some r) :
    ∃ before now after, ops = before ++ .schedule r.message now :: after ∧ r.message.id = id := by
  induction ops using List.reverseRecOn generalizing r with
  | nil => cases hstart.symm.trans hr
  | append_singleton ops op ih =>
    rw [after_concat] at hr
    rcases message_of_retries_apply hr with ⟨r', hr', hmessage⟩ | ⟨⟨now, rfl⟩, hid⟩
    · obtain ⟨before, now, after, rfl, hid⟩ := ih hr'
      rw [hmessage]
      exact ⟨before, now, after ++ [op], by simp, hid⟩
    · exact ⟨ops, now, [], rfl, hid⟩

/-- It is a ping or a request. -/
theorem Orderly.pinged_or_requested (h : Orderly x ops) (hstart : x.retries[id]? = none)
    (hr : (x.after ops).retries[id]? = some r) :
    r.message.id = id ∧
      (Pinged x ops r.message ∨ ∃ start later, Requested x ops r.message start later) := by
  obtain ⟨before, now, after, rfl, hid⟩ := exists_schedule_of_retries hstart hr
  refine ⟨hid, ?_⟩
  obtain ⟨earlier, draw, rfl, hdraw⟩ := h.before_schedule
  cases hdraw with
  | allocate hid => exact .inl ⟨earlier, now, after, by simp, hid⟩
  | register delivery start hid =>
    exact .inr ⟨start, after, earlier, delivery, now, by simp, hid⟩

/-- **A request that is still sent again is awaited** exactly if no sweep has found its time over,
where fewer ids have been drawn than there are. -/
theorem Requested.waiting_iff (hrequested : Requested x ops m start later) (h : Orderly x ops)
    (hdrawn : x.drawn ops ≤ idCount) (hr : (x.after ops).retries[m.id]? = some r) :
    Waiting m.id m.token (x.after ops) ↔ ¬ Overdue (Millis.add start x.lifetime) later := by
  obtain ⟨earlier, delivery, now, rfl, hid⟩ := hrequested
  -- The state right after the request was scheduled, from which everything later is told.
  let begun := (x.after earlier).apply (.register m.token delivery start)
  let sent := begun.apply (.schedule m now)
  have hafter : x.after (earlier ++ .register m.token delivery start :: .schedule m now :: later) =
      sent.after later :=
    after_append x earlier _
  have hpending : sent.pending[m.id]? =
      some ⟨m.token, Millis.add start x.lifetime, delivery.callback?⟩ := by
    show (begun.schedule m now).pending[m.id]? = _
    rw [pending_schedule, ← (limits_after x earlier).2]
    exact pending_apply_iff.2 (.inr ⟨m.token, delivery, start, rfl, hid, rfl⟩)
  have hlast : m.id = sent.lastId ∧ sent.drawn later < idCount := by
    obtain ⟨hlast, hpos⟩ := lastId_of_register hid
    have hsum : x.drawn earlier +
        ((x.after earlier).draws (.register m.token delivery start) + (0 + sent.drawn later)) ≤
          idCount := by
      rw [drawn_append] at hdrawn
      exact hdrawn
    exact ⟨hlast.trans (lastId_schedule ..).symm, by omega⟩
  have hunused : Throughout (fun y op => ¬ Inserts m.id y op) sent later := by
    have hlater : Orderly sent later := by
      have hsplit : earlier ++ .register m.token delivery start :: .schedule m now :: later =
          (earlier ++ [.register m.token delivery start]) ++ .schedule m now :: later := by simp
      rw [hsplit] at h
      have hsent := h.after_schedule
      rwa [after_concat, after_concat] at hsent
    apply hlater.not_inserts
    intro k hk hle heq
    rw [hlast.1] at heq
    have hzero := MessageId.iterate_next_inj (k := 0) heq (Nat.zero_le k)
      (Nat.lt_of_le_of_lt hle hlast.2)
    omega
  rw [hafter] at hr ⊢
  constructor
  · rintro ⟨p, hp, -⟩
    exact (not_overdue_of_pending hpending hunused hp).2
  · intro hnot
    exact ⟨_, pending_of_retries hpending hunused hnot hr, rfl⟩

/-- A message that a sweep sends again keeps its record. -/
theorem Filed.retries_of_retry (hfiled : x.Filed) (h : .retry m ∈ (x.sweep now).1) :
    ∃ r, (x.sweep now).2.retries[m.id]? = some r := by
  obtain ⟨⟨id, r⟩, hmem, hevent⟩ := List.mem_filterMap.1 h
  have hr := Std.ExtTreeMap.mem_toList_iff_getElem?_eq_some.1 hmem
  have hid : m.id = id := by
    rw [← message_of_event? hevent]
    exact hfiled id r hr
  rw [hid, retries_sweep, hr, Option.bind_some]
  cases hverdict : r.verdict x.config now with
  | waiting => exact ⟨r, rfl⟩
  | again next => exact ⟨next, rfl⟩
  | givenUp =>
    simp only [hverdict] at hevent
    cases hevent

/-- A sweep that sends the request again leaves it awaited exactly if neither that sweep nor one
before it finds the time over. -/
theorem Requested.waiting_sweep_iff (hrequested : Requested x ops m start later)
    (h : Orderly x ops) (hdrawn : x.drawn ops ≤ idCount) (hfiled : (x.after ops).Filed)
    (hagain : .retry m ∈ ((x.after ops).sweep now).1) :
    Waiting m.id m.token ((x.after ops).sweep now).2 ↔
      ¬ Overdue (Millis.add start x.lifetime) later ∧ now < Millis.add start x.lifetime := by
  obtain ⟨r, hr⟩ := hfiled.retries_of_retry hagain
  -- The sweep is one more operation of the run; it draws no id.
  have hswept : ((x.after ops).sweep now).2 = x.after (ops ++ [.sweep now]) :=
    (after_concat x ops (.sweep now)).symm
  have hdrawn' : x.drawn (ops ++ [.sweep now]) ≤ idCount := by
    rw [drawn_concat]
    exact hdrawn
  have horderly : Orderly x (ops ++ [.sweep now]) := h.append (.other rfl (.nil _))
  rw [hswept] at hr ⊢
  rw [(hrequested.concat (.sweep now)).waiting_iff horderly hdrawn' hr, overdue_concat, not_or]
  refine and_congr_right' ?_
  constructor
  · exact fun hnot => Nat.not_le.1 fun hle => hnot ⟨now, rfl, hle⟩
  · rintro hlt ⟨_, heq, hle⟩
    cases heq
    exact Nat.not_le.2 hlt hle

end Exchanges

/-! ## Sessions -/

namespace Session

open Exchanges (Overdue Pinged Requested Waiting)

variable {κ ω : Type} {h : Host ω}

/-- **Who is asked again is awaited, unless the time of the exchange is over.** After any run of a
session that draws no id twice, every record is that of a ping or of a request that the run sent.
While the record of a request is there, the request waits under its id, with its token, exactly if
no sweep since has found the time of the exchange over. So a sweep that sends it again leaves it
awaited exactly if neither that sweep nor one before it came too late. -/
theorem resent_request_awaited {config : Config} {w w' : ω} {s : Session κ}
    (hcreate : create h config w = (.ok s, w')) (ops : List (Operation κ))
    (hdrawn : s.endpoint.exchanges.drawn (trace h ⟨s, w', []⟩ ops) ≤ Exchanges.idCount) :
    let past := trace h ⟨s, w', []⟩ ops
    let x := (run h ⟨s, w', []⟩ ops).exchanges
    ∀ id r, x.retries[id]? = some r →
      r.message.id = id ∧
      (Pinged s.endpoint.exchanges past r.message ∨
        ∃ start later, Requested s.endpoint.exchanges past r.message start later) ∧
      ∀ start later, Requested s.endpoint.exchanges past r.message start later →
        let expiry := Millis.add start config.exchangeLifetime
        (Waiting id r.message.token x ↔ ¬ Overdue expiry later) ∧
        ∀ now, .retry r.message ∈ (x.sweep now).1 →
          (Waiting id r.message.token (x.sweep now).2 ↔
            ¬ Overdue expiry later ∧ now < expiry) := by
  intro past x id r hr
  obtain ⟨lastId, hnew, hx⟩ := exchanges_run hcreate ops
  have hlifetime : s.endpoint.exchanges.lifetime = config.exchangeLifetime := by
    rw [hnew]
    rfl
  have hstart : s.endpoint.exchanges.retries[id]? = none := by
    rw [hnew]
    exact Std.ExtTreeMap.getElem?_empty
  have horderly : Exchanges.Orderly s.endpoint.exchanges past := orderly_trace h ⟨s, w', []⟩ ops
  have hfiled : (s.endpoint.exchanges.after past).Filed := hx ▸ filed_run hcreate ops
  rw [show x = s.endpoint.exchanges.after past from hx] at hr ⊢
  obtain ⟨rfl, hsent⟩ := horderly.pinged_or_requested hstart hr
  refine ⟨rfl, hsent, ?_⟩
  intro start later hrequested
  rw [← hlifetime]
  exact ⟨hrequested.waiting_iff horderly hdrawn hr,
    fun now => hrequested.waiting_sweep_iff horderly hdrawn hfiled⟩

/-- A hundred seconds pass each time the clock is read. -/
def slowHost : Host Nat := { sampleHost with readClock := fun w => (some w, w + 100000) }

/-- The third sweep comes too late: it sends the request again and nobody waits for the answer. -/
theorem resent_request_awaited_sample :
    let ops : List (Operation Unit) := [.sendRequest sampleRequest (some ()), .tick, .tick]
    let m : Message := { sampleRequest with id := 44945 }
    let x := (run slowHost ⟨sampleSession, 101000, []⟩ ops).exchanges
    create slowHost {} 1000 = (.ok sampleSession, 101000) ∧
      trace slowHost ⟨sampleSession, 101000, []⟩ ops =
        [.register m.token (.once (some ())) 101000, .schedule m 101000, .sweep 201000,
          .sweep 301000] ∧
      sampleSession.endpoint.exchanges.drawn (trace slowHost ⟨sampleSession, 101000, []⟩ ops) = 1 ∧
      Waiting 44945 m.token x ∧
      .retry m ∈ (x.sweep 401000).1 ∧
      ¬ Waiting 44945 m.token (x.sweep 401000).2 := by
  intro ops m x
  have hcreate : create slowHost {} 1000 = (.ok sampleSession, 101000) := by
    have hnow : slowHost.now 1000 = (.ok 1000, 101000) := by decide +kernel
    exact create_of_now hnow rfl
  have htrace : trace slowHost ⟨sampleSession, 101000, []⟩ ops =
      [.register m.token (.once (some ())) 101000, .schedule m 101000, .sweep 201000,
        .sweep 301000] := by decide +kernel
  have hdrawn : sampleSession.endpoint.exchanges.drawn
      (trace slowHost ⟨sampleSession, 101000, []⟩ ops) = 1 := by decide +kernel
  have hrecord : x.retries[(44945 : MessageId)]? = some ⟨115000, 2, m⟩ := by decide +kernel
  have hagain : .retry m ∈ (x.sweep 401000).1 := by decide +kernel
  have hrequested : Requested sampleSession.endpoint.exchanges
      (trace slowHost ⟨sampleSession, 101000, []⟩ ops) m 101000
      [.sweep 201000, .sweep 301000] := by
    rw [htrace]
    exact ⟨[], .once (some ()), 101000, rfl, by decide +kernel⟩
  have hexpiry : Millis.add 101000 (Config.exchangeLifetime {}) = 348000 := by decide +kernel
  have hintime : ¬ Overdue (κ := Unit) 348000 [.sweep 201000, .sweep 301000] := by
    rintro ⟨now, hmem, hle⟩
    simp only [List.mem_cons, Exchanges.Operation.sweep.injEq, List.not_mem_nil, or_false] at hmem
    rcases hmem with rfl | rfl <;> exact absurd hle (by decide)
  obtain ⟨-, -, hawaited⟩ :=
    resent_request_awaited hcreate ops (hdrawn ▸ by decide) 44945 _ hrecord
  obtain ⟨hwaiting, hswept⟩ := hawaited 101000 _ hrequested
  rw [hexpiry] at hwaiting hswept
  refine ⟨hcreate, htrace, hdrawn, hwaiting.2 hintime, hagain, ?_⟩
  intro hlate
  exact absurd ((hswept 401000 hagain).1 hlate).2 (by decide)

end Session
end Coap
