import Coap.Proofs.Run
import Mathlib.Data.List.Induction
import Mathlib.Logic.Function.Iterate

/-!
# Ids are unique for a cycle

Requests, pings and replies that are not confirmable draw their ids from one counter, which comes
round after 65535 ids. Only a request passes over ids, and only over those of pending requests. So
the id of a message that is registered may still be in use, but only if it has been in use all the
time that the counter took to come round.
-/
namespace Coap

namespace MessageId

theorem toNat_iterate_next (id : MessageId) (n : Nat) :
    (next^[n] id).toNat % 65535 = (id.toNat + n) % 65535 := by
  induction n with
  | zero => rfl
  | succ n ih =>
    rw [Function.iterate_succ_apply', toNat_next]
    omega

/-- Within a cycle no id comes twice. -/
theorem iterate_next_inj {id : MessageId} {k n : Nat} (h : next^[k] id = next^[n] id) (hk : k ≤ n)
    (hn : n < 65535) : k = n := by
  have hmod := toNat_iterate_next id k
  rw [h, toNat_iterate_next] at hmod
  omega

/-- After a cycle an id comes again. -/
theorem iterate_next_cycle {id : MessageId} {n : Nat} (hid : id ≠ 0) (hn : n + 1 = 65535) :
    next^[n + 1] id = id := by
  have hmod := toNat_iterate_next id (n + 1)
  have hlt := id.toNat_lt
  have hpos : id.toNat ≠ 0 := fun h => hid (UInt16.toNat_inj.1 h)
  apply UInt16.toNat_inj.1
  rw [Function.iterate_succ_apply', toNat_next] at hmod ⊢
  omega

end MessageId

namespace Exchanges

variable {κ : Type} {x : Exchanges κ} {op : Operation κ} {ops : List (Operation κ)}
  {id : MessageId} {token : Token} {delivery : Delivery κ} {now : Millis} {m : Message}

open MessageId (next)

/-! ## How many ids are drawn -/

/-- How many ids `firstFree` looks at. -/
def looked (taken : MessageId → Bool) : Nat → MessageId → Nat
  | 0, _ => 0
  | n + 1, last => if taken last.next then looked taken n last.next + 1 else 1

theorem firstFree_snd (taken : MessageId → Bool) (n : Nat) (last : MessageId) :
    (firstFree taken n last).2 = next^[looked taken n last] last := by
  induction n generalizing last with
  | zero => rfl
  | succ n ih =>
    rw [firstFree, looked]
    split
    · exact ih last.next
    · rfl

theorem firstFree_last {taken : MessageId → Bool} {n : Nat} {last last' : MessageId}
    (h : firstFree taken n last = (some id, last')) : id = last' ∧ 0 < looked taken n last := by
  induction n generalizing last with
  | zero => cases h
  | succ n ih =>
    rw [firstFree] at h
    rw [looked]
    split at h
    · rename_i htaken
      rw [if_pos htaken]
      exact ⟨(ih h).1, Nat.succ_pos _⟩
    · rename_i hfree
      rw [if_neg hfree]
      cases h
      exact ⟨rfl, Nat.one_pos⟩

/-- How many ids an operation draws. -/
def draws (x : Exchanges κ) : Operation κ → Nat
  | .allocate => 1
  | .register _ _ _ => looked x.pending.contains idCount x.lastId
  | _ => 0

/-- How many ids a run draws. -/
def drawn (x : Exchanges κ) : List (Operation κ) → Nat
  | [] => 0
  | op :: ops => x.draws op + (x.apply op).drawn ops

theorem drawn_append (x : Exchanges κ) (ops ops' : List (Operation κ)) :
    x.drawn (ops ++ ops') = x.drawn ops + (x.after ops).drawn ops' := by
  induction ops generalizing x with
  | nil => exact (Nat.zero_add _).symm
  | cons first ops ih =>
    rw [List.cons_append, drawn, drawn, ih, Nat.add_assoc]
    rfl

theorem drawn_concat (x : Exchanges κ) (ops : List (Operation κ)) (op : Operation κ) :
    x.drawn (ops ++ [op]) = x.drawn ops + (x.after ops).draws op :=
  drawn_append x ops [op]

theorem lastId_register (x : Exchanges κ) (token : Token) (delivery : Delivery κ) (now : Millis) :
    (x.register token delivery now).2.lastId =
      next^[x.draws (.register token delivery now)] x.lastId := by
  rw [draws, ← firstFree_snd, register]
  rcases firstFree x.pending.contains idCount x.lastId with ⟨_ | id, lastId⟩
  · rfl
  · cases delivery <;> rfl

theorem lastId_apply (x : Exchanges κ) (op : Operation κ) :
    (x.apply op).lastId = next^[x.draws op] x.lastId := by
  cases op with
  | register token delivery now => exact lastId_register x token delivery now
  | deliver m =>
    rcases x.deliver_cases m.token with ⟨c, -, h⟩ | ⟨id, p, -, h⟩ | ⟨-, -, h⟩ <;>
      rw [apply, h] <;> rfl
  | schedule m now =>
    rw [apply, schedule]
    split <;> rfl
  | _ => rfl

theorem lastId_after (x : Exchanges κ) (ops : List (Operation κ)) :
    (x.after ops).lastId = next^[x.drawn ops] x.lastId := by
  induction ops using List.reverseRecOn with
  | nil => rfl
  | append_singleton ops op ih =>
    rw [after_concat, lastId_apply, ih, drawn_concat, Nat.add_comm, Function.iterate_add_apply]

theorem lastId_of_register (h : (x.register token delivery now).1 = some id) :
    id = (x.register token delivery now).2.lastId ∧
      0 < x.draws (.register token delivery now) := by
  rw [lastId_register, draws, ← firstFree_snd]
  rw [register] at h
  rcases hfree : firstFree x.pending.contains idCount x.lastId with ⟨_ | id', lastId⟩
  · rw [hfree] at h
    cases h
  · rw [hfree] at h
    cases h
    exact firstFree_last hfree

/-! ## Runs that register messages under ids just drawn -/

/-- The operation draws the id of a message. -/
inductive DrawsFor (x : Exchanges κ) (m : Message) : Operation κ → Prop
  | allocate (h : x.allocate.1 = m.id) : DrawsFor x m .allocate
  | register (delivery : Delivery κ) (now : Millis)
      (h : (x.register m.token delivery now).1 = some m.id) :
      DrawsFor x m (.register m.token delivery now)

theorem DrawsFor.lastId_eq (h : DrawsFor x m op) : m.id = (x.apply op).lastId := by
  cases h with
  | allocate h => exact h.symm
  | register delivery now h => exact (lastId_of_register h).1

theorem DrawsFor.draws_pos (h : DrawsFor x m op) : 0 < x.draws op := by
  cases h with
  | allocate h => exact Nat.one_pos
  | register delivery now h => exact (lastId_of_register h).2

def Operation.isSchedule : Operation κ → Bool
  | .schedule _ _ => true
  | _ => false

/-- Every message is scheduled right after its id was drawn. -/
inductive Orderly : Exchanges κ → List (Operation κ) → Prop
  | nil (x : Exchanges κ) : Orderly x []
  | other {x : Exchanges κ} {op : Operation κ} {ops : List (Operation κ)}
      (hop : op.isSchedule = false) (h : Orderly (x.apply op) ops) : Orderly x (op :: ops)
  | message {x : Exchanges κ} {draw : Operation κ} {m : Message} {now : Millis}
      {ops : List (Operation κ)} (hdraw : DrawsFor x m draw)
      (h : Orderly ((x.apply draw).apply (.schedule m now)) ops) :
      Orderly x (draw :: .schedule m now :: ops)

theorem Orderly.append {ops' : List (Operation κ)} (h : Orderly x ops)
    (h' : Orderly (x.after ops) ops') : Orderly x (ops ++ ops') := by
  induction h with
  | nil x => exact h'
  | other hop _ ih => exact .other hop (ih h')
  | message hdraw _ ih => exact .message hdraw (ih h')

/-- The operation registers a message under the id, in one of the tables. -/
def Inserts (id : MessageId) (x : Exchanges κ) : Operation κ → Prop
  | .register token delivery now => (x.register token delivery now).1 = some id
  | .schedule m _ => m.id = id
  | _ => False

/-- An id that is registered is the one drawn last. -/
def InsertsLast (x : Exchanges κ) (op : Operation κ) : Prop :=
  ∀ id, Inserts id x op → id = (x.apply op).lastId

theorem insertsLast_of_isSchedule (hop : op.isSchedule = false) : InsertsLast x op := by
  intro id hinserts
  cases op with
  | register token delivery now => exact (lastId_of_register hinserts).1
  | schedule m now => cases hop
  | _ => exact hinserts.elim

theorem lastId_schedule (x : Exchanges κ) (m : Message) (now : Millis) :
    (x.apply (.schedule m now)).lastId = x.lastId :=
  lastId_apply x (.schedule m now)

theorem Orderly.insertsLast (h : Orderly x ops) : Throughout InsertsLast x ops := by
  induction h with
  | nil x => trivial
  | other hop _ ih => exact ⟨insertsLast_of_isSchedule hop, ih⟩
  | message hdraw _ ih =>
    refine ⟨insertsLast_of_isSchedule ?_, ?_, ih⟩
    · cases hdraw <;> rfl
    · rintro id rfl
      exact hdraw.lastId_eq.trans (lastId_schedule ..).symm

/-- What comes before a message that is scheduled. -/
theorem Orderly.before_schedule {before after : List (Operation κ)}
    (h : Orderly x (before ++ .schedule m now :: after)) :
    ∃ before' draw, before = before' ++ [draw] ∧ DrawsFor (x.after before') m draw := by
  generalize hops : before ++ .schedule m now :: after = ops at h
  induction h generalizing before with
  | nil x => cases before <;> cases hops
  | @other x op ops hop h ih =>
    cases before with
    | nil =>
      cases hops
      cases hop
    | cons first before =>
      cases hops
      obtain ⟨before', draw, rfl, hdraw⟩ := ih rfl
      exact ⟨op :: before', draw, rfl, hdraw⟩
  | @message x draw m' now' ops hdraw h ih =>
    rcases before with _ | ⟨first, _ | ⟨second, before⟩⟩
    · cases hops
      cases hdraw
    · cases hops
      exact ⟨[], draw, rfl, hdraw⟩
    · cases hops
      obtain ⟨before', draw', rfl, hdraw'⟩ := ih rfl
      exact ⟨draw :: _ :: before', draw', rfl, hdraw'⟩

/-! ## Ids that are in use -/

/-- Nothing is registered under the id. -/
structure Free (id : MessageId) (x : Exchanges κ) : Prop where
  pending : x.pending[id]? = none
  retries : x.retries[id]? = none

theorem Free.apply (h : Free id x) (hop : ¬ Inserts id x op) : Free id (x.apply op) := by
  refine ⟨?_, ?_⟩ <;> rw [Option.eq_none_iff_forall_ne_some]
  · intro p hp
    rcases pending_apply_iff.1 hp with ⟨hold, -⟩ | ⟨token, delivery, now, rfl, hid, -⟩
    · cases h.pending.symm.trans hold
    · exact hop hid
  · intro r hr
    rcases message_of_retries_apply hr with ⟨r', hold, -⟩ | ⟨⟨now, rfl⟩, hid⟩
    · cases h.retries.symm.trans hold
    · exact hop hid

/-- An id that was free is free until it is drawn. -/
theorem Free.after (h : Free id x) (hlast : Throughout InsertsLast x ops)
    (hdrawn : ∀ k ≤ x.drawn ops, id ≠ next^[k] x.lastId) : Free id (x.after ops) := by
  -- From the end: what the last operation inserts is told by all that was drawn up to it.
  induction ops using List.reverseRecOn with
  | nil => exact h
  | append_singleton ops op ih =>
    obtain ⟨hearlier, hop⟩ := throughout_concat.1 hlast
    rw [drawn_concat] at hdrawn
    have hfree := ih hearlier fun k hk => hdrawn k (Nat.le_add_right_of_le hk)
    rw [after_concat]
    apply hfree.apply
    intro hinserts
    apply hdrawn _ (Nat.le_refl _)
    rw [hop id hinserts, lastId_apply, lastId_after, Nat.add_comm, Function.iterate_add_apply]

/-- The exchange under the id was begun right before, for the message that is scheduled now. -/
def BegunFor (id : MessageId) (x : Exchanges κ) (before : List (Operation κ)) (op : Operation κ) :
    Prop :=
  ∃ before' m delivery now now', before = before' ++ [.register m.token delivery now] ∧
    op = .schedule m now' ∧ ((x.after before').register m.token delivery now).1 = some id ∧
    (x.after before').pending[id]? = none

/-- An operation finds nothing under the id that belongs to another message. -/
structure Alone (id : MessageId) (x : Exchanges κ) (before : List (Operation κ))
    (op : Operation κ) : Prop where
  retries : (x.after before).retries[id]? = none
  pending : (x.after before).pending[id]? = none ∨ BegunFor id x before op

theorem Free.alone {before : List (Operation κ)} (h : Free id (x.after before)) :
    Alone id x before op :=
  ⟨h.retries, .inl h.pending⟩

/-- Where an id that was free is drawn, nothing is registered under it, unless a whole cycle of ids
was drawn in between. -/
theorem free_of_drawsFor {earlier between : List (Operation κ)}
    (hlast : Throughout InsertsLast (x.after earlier) between) (hfree : Free m.id (x.after earlier))
    (hdraw : DrawsFor (x.after (earlier ++ between)) m op)
    (hdrawn : (x.after earlier).drawn (between ++ [op]) < idCount) :
    Free m.id (x.after (earlier ++ between)) := by
  have hid := hdraw.lastId_eq
  have hpos := hdraw.draws_pos
  rw [after_append] at hid hpos ⊢
  rw [← after_concat, lastId_after] at hid
  apply hfree.after hlast
  intro k hk heq
  rw [drawn_concat] at hid hdrawn
  have hsame := MessageId.iterate_next_inj (heq.symm.trans hid) (by omega) hdrawn
  omega

theorem alone_of_drawsFor {before : List (Operation κ)} {draw : Operation κ}
    (hfree : Free m.id (x.after before)) (hdraw : DrawsFor (x.after before) m draw) :
    Alone m.id x (before ++ [draw]) (.schedule m now) := by
  cases hdraw with
  | allocate h =>
    apply Free.alone
    rw [after_concat]
    exact hfree.apply id
  | register delivery now' h =>
    refine ⟨?_, .inr ⟨before, m, delivery, now', now, rfl, rfl, h, hfree.pending⟩⟩
    rw [after_concat]
    rcases hregister : (x.after before).register m.token delivery now' with ⟨id?, x'⟩
    obtain ⟨-, -, hretries, -⟩ := register_cases hregister
    rw [apply, hregister, hretries]
    exact hfree.retries

/-- A message is registered where no other one is, unless the id was in use during the whole last
cycle. -/
theorem Orderly.alone {earlier between later : List (Operation κ)}
    (h : Orderly x (earlier ++ between ++ op :: later))
    (hinserts : Inserts id (x.after (earlier ++ between)) op) (hfree : Free id (x.after earlier))
    (hdrawn : (x.after earlier).drawn (between ++ [op]) < idCount) :
    Alone id x (earlier ++ between) op := by
  have hlast := h.insertsLast
  rw [throughout_append, throughout_append] at hlast
  obtain ⟨⟨-, hlast⟩, -⟩ := hlast
  cases op with
  | register token delivery now =>
    have hdraw : DrawsFor (x.after (earlier ++ between)) { id, token }
      (.register token delivery now) := .register delivery now hinserts
    exact (free_of_drawsFor hlast hfree hdraw hdrawn).alone
  | schedule m now =>
    obtain rfl : m.id = id := hinserts
    obtain ⟨before, draw, hbefore, hdraw⟩ := h.before_schedule
    rcases List.eq_nil_or_concat between with rfl | ⟨between, last, rfl⟩
    -- The id was free even after it was drawn.
    · rw [List.append_nil]
      exact hfree.alone
    · rw [List.concat_eq_append] at hlast hdrawn hbefore ⊢
      rw [← List.append_assoc] at hbefore ⊢
      obtain ⟨rfl, hlast'⟩ := List.append_inj' hbefore rfl
      cases hlast'
      rw [drawn_concat] at hdrawn
      apply alone_of_drawsFor (free_of_drawsFor (throughout_concat.1 hlast).1 hfree hdraw _) hdraw
      exact Nat.lt_of_le_of_lt (Nat.le_add_right _ _) hdrawn
  | _ => exact hinserts.elim

/-- A request passes over the ids of pending requests. -/
theorem pending_of_register (h : (x.register token delivery now).1 = some id) :
    x.pending[id]? = none := by
  rcases hregister : x.register token delivery now with ⟨id?, x'⟩
  rw [hregister] at h
  obtain ⟨-, -, -, ⟨hnone, -⟩ | ⟨id', hid', hnew, -⟩⟩ := register_cases hregister
  · cases h.symm.trans hnone
  · cases h.symm.trans hid'
    exact hnew

theorem orderly_of_isSchedule (h : ∀ op ∈ ops, op.isSchedule = false) : Orderly x ops := by
  induction ops generalizing x with
  | nil => exact .nil x
  | cons op ops ih =>
    rw [List.forall_mem_cons] at h
    exact .other h.1 (ih h.2)

theorem after_replicate_allocate (x : Exchanges κ) (n : Nat) :
    x.after (List.replicate n .allocate) = { x with lastId := next^[n] x.lastId } := by
  induction n generalizing x with
  | zero => rfl
  | succ n ih =>
    rw [List.replicate_succ, Function.iterate_succ_apply]
    exact ih x.allocate.2

/-- The cycle is as long as an id may be in use: the ping that comes at its end is registered in
the place of the message that was registered at its beginning. -/
theorem overwritten_after_cycle (x : Exchanges κ) (now : Millis) {n : Nat} (hn : n + 1 = idCount)
    (hlast : x.lastId ≠ 0) :
    let x' := x.after (List.replicate n .allocate)
    let ping := Session.Action.pingMessage x'.allocate.1
    ((x'.after [.allocate, .schedule ping now]).retries[x.lastId]?).map (·.message) = some ping := by
  intro x' ping
  have hid : ping.id = x.lastId := by
    show next (x.after (List.replicate n .allocate)).lastId = _
    rw [after_replicate_allocate, ← Function.iterate_succ_apply' next n]
    exact MessageId.iterate_next_cycle hlast hn
  have hconfirmable : ping.type = .confirmable := rfl
  show ((x'.allocate.2.schedule ping now).retries[x.lastId]?).map _ = _
  rw [schedule, if_pos hconfirmable, ← hid]
  show Option.map _ (Std.ExtTreeMap.insert _ ping.id _)[ping.id]? = _
  rw [Std.ExtTreeMap.getElem?_insert_self]
  rfl

end Exchanges

/-! ## Sessions -/

namespace Session

open Exchanges (Orderly)

variable {κ ω : Type} {h : Host ω} {l : Live κ ω}

theorem orderly_arrival (h : Host ω) (a : Option (Arrival κ ω)) (x : Exchanges κ) :
    Orderly x (a.elim [] (·.exchangeOps h)) := by
  cases a with
  | none => exact .nil x
  | some a =>
    apply Exchanges.orderly_of_isSchedule
    intro op hop
    simp only [Option.elim, Arrival.exchangeOps, Endpoint.exchangeOps] at hop
    grind [Exchanges.Operation.isSchedule]

theorem orderly_pingOps (now : Millis) (s : Session κ) :
    Orderly s.endpoint.exchanges (Action.pingOps now s) := by
  unfold Action.pingOps
  split
  · exact .message (.allocate rfl) (.nil _)
  · exact .nil _

theorem orderly_requestOps (m : Message) (delivery : Delivery κ) (now : Millis) (x : Exchanges κ)
    (result : Except Failure (MessageId × Token)) :
    Orderly x (Action.requestOps m delivery now x result) := by
  unfold Action.requestOps
  cases hid : (x.register m.token delivery now).1 with
  | none => exact .other rfl (.nil _)
  | some id =>
    refine .message (.register delivery now hid) ?_
    cases result with
    | error f => exact .other rfl (.nil _)
    | ok _ => exact .nil _

theorem orderly_sendOps (h : Host ω) (m : Message) (delivery : Delivery κ) (l : Live κ ω) :
    Orderly l.exchanges (Action.sendOps h m delivery l) := by
  unfold Action.sendOps
  split
  · exact .nil _
  · exact orderly_requestOps ..

theorem exchanges_now {during : Activity} {r : Except Failure Millis} {l₁ : Live κ ω}
    (hclock : Action.now h during l = (r, l₁)) : l₁.exchanges = l.exchanges := by
  have hnow := Action.now_quiet (l := l) (h.keeps_const ()) during
  exact congrArg Endpoint.exchanges (Action.ensures_of_eq hnow hclock).2.endpoint

theorem orderly_atPresentOps (ops : Millis → Session κ → List (Exchanges.Operation κ))
    (hops : ∀ now s, Orderly s.endpoint.exchanges (ops now s)) (h : Host ω) (l : Live κ ω) :
    Orderly l.exchanges (Action.atPresentOps h ops l) := by
  unfold Action.atPresentOps
  rcases hclock : Action.now h .sweeping l with ⟨f | now, l₁⟩
  · exact .nil _
  · rw [← exchanges_now hclock]
    exact hops now l₁.session

theorem orderly_tickOps (h : Host ω) (l : Live κ ω) : Orderly l.exchanges (Action.tickOps h l) := by
  unfold Action.tickOps
  rcases hclock : Action.now h .sweeping l with ⟨f | now, l₁⟩
  · exact .nil _
  · obtain ⟨_, -, hswept⟩ := Action.sweep_moves h now l₁
    dsimp only
    rcases hsweep : Action.sweep h now l₁ with ⟨f | _, l₂⟩
    · exact .other rfl (.nil _)
    · rw [hsweep, exchanges_now hclock] at hswept
      refine .other rfl ?_
      rw [← show l₂.exchanges = l.exchanges.apply (.sweep now) from hswept.eq_after]
      exact orderly_pingOps now l₂.session

theorem orderly_exchangeOps (h : Host ω) (l : Live κ ω) (op : Operation κ) :
    Orderly l.exchanges (exchangeOps h l op) := by
  cases op with
  | receive datagram => exact orderly_arrival h _ _
  | collect => exact orderly_arrival h _ _
  | tick => exact orderly_tickOps h l
  | sendRequest m callback => exact orderly_sendOps ..
  | observe m callback => exact orderly_sendOps ..
  | unobserve token => exact .other rfl (.nil _)
  | exchangesTick =>
    rw [exchangeOps, Action.exchangesTickOps]
    split
    · exact orderly_atPresentOps (fun now _ => [.sweep now]) (fun _ _ => .other rfl (.nil _)) h l
    · exact .nil _
  | keepaliveTick =>
    rw [exchangeOps, Action.keepaliveTickOps]
    split
    · exact orderly_atPresentOps Action.pingOps orderly_pingOps h l
    · exact .nil _
  | dispose => exact .other rfl (.nil _)
  | _ => exact .nil _

theorem orderly_trace (h : Host ω) (l : Live κ ω) (ops : List (Operation κ)) :
    Orderly l.exchanges (trace h l ops) := by
  induction ops generalizing l with
  | nil => exact .nil _
  | cons op ops ih =>
    obtain ⟨_, -, hperform⟩ := perform_moves h l op
    apply (orderly_exchangeOps h l op).append
    rw [← hperform.eq_after]
    exact ih (perform h l op)

/-- **An id is unique for as long as the counter takes to come round.** In every run of a session, a
message that is registered, by a request or to be sent again, finds no record of another message
under its id and no exchange but the one begun for it right before, if the id was free at some
earlier point of the run and fewer ids than there are have been drawn since. Of a request's id it
holds at any rate that no request is pending under it.

Without the bound the rest is not so: nothing but a request passes over an id that is in use. -/
theorem ids_unique_for_a_cycle (h : Host ω) (l : Live κ ω) (ops : List (Operation κ))
    {earlier between later : List (Exchanges.Operation κ)} {op : Exchanges.Operation κ}
    {id : MessageId} (htrace : trace h l ops = earlier ++ between ++ op :: later)
    (hinserts : Exchanges.Inserts id (l.exchanges.after (earlier ++ between)) op) :
    (∀ token delivery now, op = .register token delivery now →
      (l.exchanges.after (earlier ++ between)).pending[id]? = none) ∧
    (Exchanges.Free id (l.exchanges.after earlier) →
      (l.exchanges.after earlier).drawn (between ++ [op]) < Exchanges.idCount →
      Exchanges.Alone id l.exchanges (earlier ++ between) op) := by
  have horderly := orderly_trace h l ops
  rw [htrace] at horderly
  refine ⟨?_, horderly.alone hinserts⟩
  rintro token delivery now rfl
  exact Exchanges.pending_of_register hinserts

/-- Two requests are sent; this is what comes before the second one is scheduled. -/
def sampleBefore : List (Exchanges.Operation Unit) :=
  [.register sampleRequest.token (.once none) 2000,
    .schedule { sampleRequest with id := 44945 } 2000,
    .register sampleRequest.token (.once none) 3000]

theorem ids_unique_for_a_cycle_sample :
    let start : Live Unit Nat := ⟨sampleSession, 2000, []⟩
    let last : Exchanges.Operation Unit := .schedule { sampleRequest with id := 44946 } 3000
    trace sampleHost start [.sendRequest sampleRequest none, .sendRequest sampleRequest none] =
        sampleBefore ++ [last] ∧
      Exchanges.Inserts 44946 (start.exchanges.after sampleBefore) last ∧
      Exchanges.Free 44946 start.exchanges ∧
      start.exchanges.drawn (sampleBefore ++ [last]) = 2 ∧
      Exchanges.Alone 44946 start.exchanges sampleBefore last := by
  intro start last
  have htrace : trace sampleHost start [.sendRequest sampleRequest none,
      .sendRequest sampleRequest none] = [] ++ sampleBefore ++ last :: [] := by decide +kernel
  have hdrawn : start.exchanges.drawn (sampleBefore ++ [last]) = 2 := by decide +kernel
  have hfree : Exchanges.Free 44946 start.exchanges := ⟨rfl, rfl⟩
  have hfew : start.exchanges.drawn (sampleBefore ++ [last]) < Exchanges.idCount :=
    hdrawn ▸ by decide
  obtain ⟨-, halone⟩ := ids_unique_for_a_cycle sampleHost start _ htrace
    (show Exchanges.Inserts 44946 _ last from rfl)
  exact ⟨htrace, rfl, hfree, hdrawn, halone hfree hfew⟩

end Session
end Coap
