import Coap.Proofs.Operation
import Mathlib.Data.List.Induction

/-!
# Responses are correlated with requests

Which callback a response calls, told from the run alone. A callback belongs to the registration
that brought it: the tables hold it nowhere else, so it is called where that entry is found, and
whether the entry is still there is a matter of what the operations since then have done.
-/
namespace Coap.Exchanges

variable {κ : Type} {x : Exchanges κ} {op : Operation κ} {ops : List (Operation κ)}
  {id : MessageId} {token : Token} {c : κ}

theorem called_eq_some_iff :
    x.called op = some c ↔ ∃ m, op = .deliver m ∧ (x.observers[m.token]? = some c ∨
      ∃ id p, x.Awaits m.token id p ∧ p.callback = some c) := by
  constructor
  · intro hcalled
    cases op with
    | deliver m =>
      refine ⟨m, rfl, ?_⟩
      rcases x.deliver_cases m.token with ⟨c', hc', h⟩ | ⟨id, p, hp, h⟩ | ⟨-, -, h⟩ <;>
        rw [called, h] at hcalled
      · cases hcalled
        exact .inl hc'
      · exact .inr ⟨id, p, hp, hcalled⟩
      · cases hcalled
    | _ => cases hcalled
  · rintro ⟨m, rfl, hc | ⟨id, p, hp, hc⟩⟩
    · rw [called, deliver_of_observer hc]
      rfl
    · rw [called, hp.deliver, ← hc]
      rfl

/-! ## Where a callback is held -/

/-- The tables hold the callback nowhere else. -/
structure HeldAt (c : κ) (pending : MessageId → Pending κ → Prop) (observed : Token → Prop)
    (x : Exchanges κ) : Prop where
  pending : ∀ (id : MessageId) p, x.pending[id]? = some p → p.callback = some c → pending id p
  observers : ∀ token : Token, x.observers[token]? = some c → observed token

/-- The tables do not hold the callback. -/
abbrev Unheld (c : κ) (x : Exchanges κ) : Prop := HeldAt c (fun _ _ => False) (fun _ => False) x

section HeldAt

variable {pending : MessageId → Pending κ → Prop} {observed : Token → Prop}

theorem Registers.callback?_eq {p : Pending κ} (h : Registers id p x op)
    (hp : p.callback = some c) : op.callback? = some c := by
  obtain ⟨token, delivery, now, rfl, -, rfl⟩ := h
  cases delivery with
  | once callback => exact hp
  | observer callback => cases hp

theorem HeldAt.apply (h : HeldAt c pending observed x) (hop : op.callback? ≠ some c) :
    HeldAt c pending observed (x.apply op) := by
  constructor
  · intro id p hp hc
    rcases pending_apply_iff.1 hp with ⟨hold, -, -⟩ | hnew
    · exact h.pending id p hold hc
    · exact absurd (hnew.callback?_eq hc) hop
  · intro token hc
    rcases observers_apply_iff.1 hc with ⟨hold, -⟩ | ⟨now, rfl, -⟩
    · exact h.observers token hold
    · exact absurd rfl hop

theorem HeldAt.after (h : HeldAt c pending observed x)
    (hops : ∀ op ∈ ops, op.callback? ≠ some c) : HeldAt c pending observed (x.after ops) := by
  induction ops generalizing x with
  | nil => exact h
  | cons op ops ih =>
    rw [List.forall_mem_cons] at hops
    exact ih (h.apply hops.1) hops.2

theorem unheld_new (config : Config) (lastId : MessageId) (c : κ) :
    Unheld c (new config lastId) := by
  constructor
  · intro id p hp
    cases Std.ExtTreeMap.getElem?_empty.symm.trans hp
  · intro token hc
    cases Std.ExtTreeMap.getElem?_empty.symm.trans hc

/-- What the tables do not hold is not called. -/
theorem HeldAt.not_mem_calls (h : Unheld c x) (hops : ∀ op ∈ ops, op.callback? ≠ some c) :
    c ∉ x.calls ops := by
  induction ops generalizing x with
  | nil => exact List.not_mem_nil
  | cons op ops ih =>
    rw [List.forall_mem_cons] at hops
    rw [calls, List.mem_append, Option.mem_toList]
    rintro (hcalled | hlater)
    · obtain ⟨m, -, hc | ⟨id, p, hp, hc⟩⟩ := called_eq_some_iff.1 hcalled
      · exact h.observers _ hc
      · exact h.pending id p hp.pending hc
    · exact ih (h.apply hops.1) hops.2 hlater

end HeldAt

/-! ## A request that waits for its first response -/

section Once

variable {expiry : Millis} {past : List (Operation κ)}

/-- Only the pending request of the id holds the callback. -/
abbrev HeldOnce (c : κ) (id : MessageId) (token : Token) (expiry : Millis) (x : Exchanges κ) :
    Prop :=
  HeldAt c (fun id' p => id' = id ∧ p = ⟨token, expiry, some c⟩) (fun _ => False) x

theorem HeldAt.called_iff_ends (h : HeldOnce c id token expiry x)
    (hpending : x.pending[id]? = some ⟨token, expiry, some c⟩) :
    x.called op = some c ↔ Ends id x op := by
  rw [called_eq_some_iff]
  constructor
  · rintro ⟨m, rfl, hc | ⟨id', p, hp, hc⟩⟩
    · exact (h.observers _ hc).elim
    · obtain ⟨rfl, -⟩ := h.pending id' p hp.pending hc
      exact ⟨m, p, rfl, hp⟩
  · rintro ⟨m, p, rfl, hp⟩
    cases hpending.symm.trans hp.pending
    exact ⟨m, rfl, .inr ⟨id, _, hp, rfl⟩⟩

theorem HeldAt.pending_of_called (h : HeldOnce c id token expiry x)
    (hcalled : x.called op = some c) : x.pending[id]? = some ⟨token, expiry, some c⟩ := by
  obtain ⟨m, -, hc | ⟨id', p, hp, hc⟩⟩ := called_eq_some_iff.1 hcalled
  · exact (h.observers _ hc).elim
  · obtain ⟨rfl, rfl⟩ := h.pending id' p hp.pending hc
    exact hp.pending

/-- The call uses the callback up. -/
theorem HeldAt.unheld_of_called (h : HeldOnce c id token expiry x) (hop : op.callback? ≠ some c)
    (hcalled : x.called op = some c) : Unheld c (x.apply op) := by
  have hends := (h.called_iff_ends (h.pending_of_called hcalled)).1 hcalled
  refine ⟨?_, (h.apply hop).observers⟩
  intro id' p hp hc
  obtain ⟨rfl, -⟩ := (h.apply hop).pending id' p hp hc
  rcases pending_apply_iff.1 hp with ⟨-, -, hkept⟩ | hnew
  · exact hkept hends
  · exact hop (hnew.callback?_eq hc)

theorem HeldAt.count_calls_le [DecidableEq κ] (h : HeldOnce c id token expiry x)
    (hops : ∀ op ∈ ops, op.callback? ≠ some c) : (x.calls ops).count c ≤ 1 := by
  induction ops generalizing x with
  | nil => exact Nat.zero_le _
  | cons op ops ih =>
    rw [List.forall_mem_cons] at hops
    rw [calls, List.count_append]
    by_cases hcalled : x.called op = some c
    · have hrest : ((x.apply op).calls ops).count c = 0 :=
        List.count_eq_zero.2 ((h.unheld_of_called hops.1 hcalled).not_mem_calls hops.2)
      rw [hrest, hcalled]
      simp
    · have hfirst : (x.called op).toList.count c = 0 := by
        rw [List.count_eq_zero, Option.mem_toList]
        exact hcalled
      rw [hfirst, Nat.zero_add]
      exact ih (h.apply hops.1) hops.2

/-- A response with the token that no observer takes, at which nothing has ended the wait under
the id and nothing with a smaller id waits for the same. -/
structure Reaches (x : Exchanges κ) (id : MessageId) (token : Token) (expiry : Millis)
    (past : List (Operation κ)) (op : Operation κ) : Prop where
  response : ∃ m, op = .deliver m ∧ m.token = token
  unobserved : (x.after past).observers[token]? = none
  waiting : Throughout (LeavesPending id expiry) x past
  smallest : ∀ id' p, id' < id → (x.after past).pending[id']? = some p → p.token ≠ token

/-- The first such response. -/
def FirstReaches (x : Exchanges κ) (id : MessageId) (token : Token) (expiry : Millis)
    (past : List (Operation κ)) (op : Operation κ) : Prop :=
  x.Reaches id token expiry past op ∧
    ∀ past' op', past' ++ [op'] <+: past → ¬ x.Reaches id token expiry past' op'

theorem reaches_iff_ends (hwaiting : Throughout (LeavesPending id expiry) x past)
    (hpending : (x.after past).pending[id]? = some ⟨token, expiry, some c⟩) :
    x.Reaches id token expiry past op ↔ Ends id (x.after past) op := by
  constructor
  · rintro ⟨⟨m, rfl, rfl⟩, hunobserved, -, hsmallest⟩
    exact ⟨m, _, rfl, hunobserved, hpending, rfl, hsmallest⟩
  · rintro ⟨m, p, rfl, hunobserved, hp, htoken, hsmallest⟩
    cases hpending.symm.trans hp
    cases htoken
    exact ⟨⟨m, rfl, rfl⟩, hunobserved, hwaiting, hsmallest⟩

/-- A request is pending until its wait is ended or a response reaches it. -/
theorem pending_after_iff (hpending : x.pending[id]? = some ⟨token, expiry, some c⟩)
    (hops : ∀ op ∈ ops, op.callback? ≠ some c) :
    (x.after ops).pending[id]? = some ⟨token, expiry, some c⟩ ↔
      Throughout (LeavesPending id expiry) x ops ∧
        ∀ past op, past ++ [op] <+: ops → ¬ x.Reaches id token expiry past op := by
  induction ops using List.reverseRecOn with
  | nil =>
    refine iff_of_true hpending ⟨trivial, ?_⟩
    intro past op h
    simp at h
  | append_singleton ops op ih =>
    rw [List.forall_mem_append, List.forall_mem_singleton] at hops
    have ih := ih hops.1
    -- Only the one registration brings the callback, so the entry is never put in anew.
    have hnew : ¬ Registers id ⟨token, expiry, some c⟩ (x.after ops) op := fun h =>
      hops.2 (h.callback?_eq rfl)
    have hlast :
        (∀ past op', past ++ [op'] <+: ops ++ [op] → ¬ x.Reaches id token expiry past op') ↔
        (∀ past op', past ++ [op'] <+: ops → ¬ x.Reaches id token expiry past op') ∧
          ¬ x.Reaches id token expiry ops op := by
      simp only [List.prefix_concat_iff, List.append_singleton_inj]
      grind
    rw [after_concat, pending_apply_iff, or_iff_left hnew, throughout_concat, hlast]
    constructor
    · rintro ⟨hpending', hleft, hends⟩
      obtain ⟨hwaiting, hfirst⟩ := ih.1 hpending'
      rw [← reaches_iff_ends hwaiting hpending'] at hends
      exact ⟨⟨hwaiting, hleft⟩, hfirst, hends⟩
    · rintro ⟨⟨hwaiting, hleft⟩, hfirst, hreaches⟩
      have hpending' := ih.2 ⟨hwaiting, hfirst⟩
      rw [reaches_iff_ends hwaiting hpending'] at hreaches
      exact ⟨hpending', hleft, hreaches⟩

/-- The callback is called by the first response that reaches its request. -/
theorem HeldAt.called_iff_firstReaches (h : HeldOnce c id token expiry x)
    (hpending : x.pending[id]? = some ⟨token, expiry, some c⟩)
    (hpast : ∀ op ∈ past, op.callback? ≠ some c) :
    (x.after past).called op = some c ↔ x.FirstReaches id token expiry past op := by
  have hafter := h.after hpast
  constructor
  · intro hcalled
    have hpending' := hafter.pending_of_called hcalled
    obtain ⟨hwaiting, hfirst⟩ := (pending_after_iff hpending hpast).1 hpending'
    rw [hafter.called_iff_ends hpending', ← reaches_iff_ends hwaiting hpending'] at hcalled
    exact ⟨hcalled, hfirst⟩
  · rintro ⟨hreaches, hfirst⟩
    have hpending' := (pending_after_iff hpending hpast).2 ⟨hreaches.waiting, hfirst⟩
    rwa [hafter.called_iff_ends hpending', ← reaches_iff_ends hreaches.waiting hpending']

theorem register_once_held {now : Millis} (hunheld : Unheld c x)
    (hid : (x.register token (.once (some c)) now).1 = some id) :
    HeldOnce c id token (Millis.add now x.lifetime)
        (x.apply (.register token (.once (some c)) now)) ∧
      (x.apply (.register token (.once (some c)) now)).pending[id]? =
        some ⟨token, Millis.add now x.lifetime, some c⟩ := by
  refine ⟨⟨?_, ?_⟩, pending_apply_iff.2 (.inr ⟨token, _, now, rfl, hid, rfl⟩)⟩
  · intro id' p hp hc
    rcases pending_apply_iff.1 hp with ⟨hold, -, -⟩ | ⟨_, _, _, heq, hid', rfl⟩
    · exact (hunheld.pending id' p hold hc).elim
    · cases heq
      cases hid.symm.trans hid'
      exact ⟨rfl, rfl⟩
  · intro token' hc
    rcases observers_apply_iff.1 hc with ⟨hold, -⟩ | ⟨_, heq, -⟩
    · exact hunheld.observers token' hold
    · cases heq

end Once

/-! ## An observer -/

section Observer

variable {past : List (Operation κ)}

/-- Only the observer of the token holds the callback. -/
abbrev HeldObserving (c : κ) (token : Token) (x : Exchanges κ) : Prop :=
  HeldAt c (fun _ _ => False) (· = token) x

theorem observers_after_iff (hobserver : x.observers[token]? = some c)
    (hops : ∀ op ∈ ops, op.callback? ≠ some c) :
    (x.after ops).observers[token]? = some c ↔ Throughout (LeavesObserver token) x ops := by
  induction ops using List.reverseRecOn with
  | nil => exact iff_of_true hobserver trivial
  | append_singleton ops op ih =>
    rw [List.forall_mem_append, List.forall_mem_singleton] at hops
    rw [after_concat, observers_apply_iff, throughout_concat, ih hops.1, or_iff_left]
    rintro ⟨now, rfl, -⟩
    exact hops.2 rfl

/-- The callback is called by the responses with the token for as long as it is left in place. -/
theorem HeldAt.called_iff_observed (h : HeldObserving c token x)
    (hobserver : x.observers[token]? = some c) (hpast : ∀ op ∈ past, op.callback? ≠ some c) :
    (x.after past).called op = some c ↔
      (∃ m, op = .deliver m ∧ m.token = token) ∧ Throughout (LeavesObserver token) x past := by
  rw [← observers_after_iff hobserver hpast, called_eq_some_iff]
  constructor
  · rintro ⟨m, rfl, hc | ⟨id, p, hp, hc⟩⟩
    · obtain rfl := (h.after hpast).observers _ hc
      exact ⟨⟨m, rfl, rfl⟩, hc⟩
    · exact ((h.after hpast).pending id p hp.pending hc).elim
  · rintro ⟨⟨m, rfl, rfl⟩, hc⟩
    exact ⟨m, rfl, .inl hc⟩

theorem register_observer_held {now : Millis} (hunheld : Unheld c x)
    (hid : (x.register token (.observer c) now).1.isSome) :
    HeldObserving c token (x.apply (.register token (.observer c) now)) ∧
      (x.apply (.register token (.observer c) now)).observers[token]? = some c := by
  refine ⟨⟨?_, ?_⟩, observers_apply_iff.2 (.inr ⟨now, rfl, hid⟩)⟩
  · intro id p hp hc
    rcases pending_apply_iff.1 hp with ⟨hold, -, -⟩ | ⟨_, _, _, heq, -, rfl⟩
    · exact hunheld.pending id p hold hc
    · cases heq
      cases hc
  · intro token' hc
    rcases observers_apply_iff.1 hc with ⟨hold, -⟩ | ⟨_, heq, -⟩
    · exact (hunheld.observers token' hold).elim
    · cases heq
      rfl

end Observer

/-! ## One response -/

theorem length_calls_deliver_le (x : Exchanges κ) (m : Message) :
    (x.calls [.deliver m]).length ≤ 1 := by
  rw [calls, calls, List.append_nil]
  cases x.called (.deliver m) <;> simp

theorem deliver_eq_none_iff :
    x.deliver token = none ↔ x.observers[token]? = none ∧
      ∀ (id : MessageId) p, x.pending[id]? = some p → p.token ≠ token := by
  rcases x.deliver_cases token with ⟨c, hobserver, h⟩ | ⟨id, p, hp, h⟩ | ⟨hnone, hnobody, h⟩ <;>
    rw [h]
  · simp [hobserver]
  · refine iff_of_false (by simp) ?_
    rintro ⟨-, hnobody⟩
    exact hnobody id p hp.pending hp.token_eq
  · exact iff_of_true rfl ⟨hnone, hnobody⟩

theorem apply_deliver_of_not_awaits {m : Message} (h : ∀ id p, ¬ x.Awaits m.token id p) :
    x.apply (.deliver m) = x := by
  rcases x.deliver_cases m.token with ⟨c, -, hd⟩ | ⟨id, p, hp, -⟩ | ⟨-, -, hd⟩
  · rw [apply, hd, Option.elim]
  · exact (h id p hp).elim
  · rw [apply, hd, Option.elim]

/-- **A response calls the callback of the request or observation that it belongs to.** A callback
is what one registration brought and no other operation of the run.

If it was to be called with the first response only, it is called at most once, and by the first
response that reaches its request. If it was to be called with every response, it is called by
exactly the responses with the token, until the observer is removed or replaced. A response calls
one callback or none, nobody takes it exactly if neither table knows the token, and it changes
nothing but to take the one request that it ends out of both tables. -/
theorem responses_correlated [DecidableEq κ] (config : Config) (lastId : MessageId) :
    (∀ (before later : List (Operation κ)) (token : Token) (c : κ) (now : Millis) (id : MessageId),
      let x := (new config lastId).after before
      let x' := x.apply (.register token (.once (some c)) now)
      (x.register token (.once (some c)) now).1 = some id →
      (∀ op ∈ before ++ later, op.callback? ≠ some c) →
      c ∉ (new config lastId).calls before ∧ (x'.calls later).count c ≤ 1 ∧
        ∀ op, (x'.after later).called op = some c ↔
          x'.FirstReaches id token (Millis.add now config.exchangeLifetime) later op) ∧
    (∀ (before later : List (Operation κ)) (token : Token) (c : κ) (now : Millis),
      let x := (new config lastId).after before
      let x' := x.apply (.register token (.observer c) now)
      (x.register token (.observer c) now).1.isSome →
      (∀ op ∈ before ++ later, op.callback? ≠ some c) →
      c ∉ (new config lastId).calls before ∧
        ∀ op, (x'.after later).called op = some c ↔
          (∃ m, op = .deliver m ∧ m.token = token) ∧
            Throughout (LeavesObserver token) x' later) ∧
    ∀ (x : Exchanges κ) (m : Message),
      (x.calls [.deliver m]).length ≤ 1 ∧
        (x.deliver m.token = none ↔ x.observers[m.token]? = none ∧
          ∀ (id : MessageId) p, x.pending[id]? = some p → p.token ≠ m.token) ∧
        ((∀ id p, ¬ x.Awaits m.token id p) → x.apply (.deliver m) = x) ∧
        ∀ id p, x.Awaits m.token id p → x.apply (.deliver m) =
          { x with pending := x.pending.erase id, retries := x.retries.erase id } := by
  refine ⟨?_, ?_, ?_⟩
  · intro before later token c now id x x' hid hops
    rw [List.forall_mem_append] at hops
    have hunheld := (unheld_new config lastId c).after hops.1
    obtain ⟨hheld, hpending⟩ := register_once_held hunheld hid
    rw [(limits_after (new config lastId) before).2] at hheld hpending
    exact ⟨(unheld_new config lastId c).not_mem_calls hops.1, hheld.count_calls_le hops.2,
      fun _ => hheld.called_iff_firstReaches hpending hops.2⟩
  · intro before later token c now x x' hid hops
    rw [List.forall_mem_append] at hops
    have hunheld := (unheld_new config lastId c).after hops.1
    obtain ⟨hheld, hobserver⟩ := register_observer_held hunheld hid
    exact ⟨(unheld_new config lastId c).not_mem_calls hops.1,
      fun _ => hheld.called_iff_observed hobserver hops.2⟩
  · intro x m
    refine ⟨length_calls_deliver_le x m, deliver_eq_none_iff, apply_deliver_of_not_awaits, ?_⟩
    intro id p hp
    rw [apply, hp.deliver]
    rfl

/-- An observer and then two responses, for the token of two requests. -/
def sampleNamesakes : List (Operation Nat) :=
  [.register .empty (.observer 3) 5, .deliver {}, .unobserve .empty, .deliver {}]

theorem responses_correlated_sample :
    let x := (new {} 0 : Exchanges Nat).after [.register .empty (.once (some 1)) 0]
    let x' := x.apply (.register .empty (.once (some 2)) 0)
    x'.calls (sampleNamesakes ++ [.deliver {}]) = [3, 1, 2] ∧
      x'.FirstReaches 2 .empty (Config.exchangeLifetime {}) sampleNamesakes (.deliver {}) ∧
      ((x'.apply (.register .empty (.observer 3) 5)).after [.deliver {}]).called (.deliver {}) =
        some 3 := by
  intro x x'
  have hcalls : x'.calls (sampleNamesakes ++ [.deliver {}]) = [3, 1, 2] := by decide +kernel
  have hcalled : (x'.after sampleNamesakes).called (.deliver {}) = some 2 := by decide +kernel
  have hid : (x.register .empty (.once (some 2)) 0).1 = some 2 := by decide +kernel
  have hid' : (x'.register .empty (.observer 3) 5).1.isSome := by decide +kernel
  obtain ⟨honce, hobserver, -⟩ := responses_correlated (κ := Nat) {} 0
  obtain ⟨-, -, hreaches⟩ := honce [.register .empty (.once (some 1)) 0] sampleNamesakes .empty 2 0
    2 hid (by simp [sampleNamesakes, Operation.callback?])
  obtain ⟨-, hobserved⟩ := hobserver
    [.register .empty (.once (some 1)) 0, .register .empty (.once (some 2)) 0] [.deliver {}] .empty
    3 5 hid' (by simp [Operation.callback?])
  exact ⟨hcalls, (hreaches _).1 hcalled, (hobserved _).2 ⟨⟨{}, rfl, rfl⟩, trivial, trivial⟩⟩

end Coap.Exchanges
