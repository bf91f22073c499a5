import Coap.Proofs.Exchanges

/-!
# Runs of the exchanges

The operations on the exchanges as data, a run as a list of them, and what one operation does to an
entry of each table: an entry that stands afterwards stood before or was put in. Whatever is said
of a run goes back to these lemmas.
-/
namespace Coap.Exchanges

/-- What the exchanges can be asked to do. -/
inductive Operation (κ : Type) where
  | allocate
  | register (token : Token) (delivery : Delivery κ) (now : Millis)
  | deliver (response : Message)
  | schedule (message : Message) (now : Millis)
  | acknowledge (id : MessageId)
  | cancel (id : MessageId)
  | unobserve (token : Token)
  | sweep (now : Millis)
  | clear
  deriving DecidableEq

variable {κ : Type}

/-- The callback that a registration brings. -/
def Operation.callback? : Operation κ → Option κ
  | .register _ (.once callback) _ => callback
  | .register _ (.observer callback) _ => some callback
  | _ => none

def apply (x : Exchanges κ) : Operation κ → Exchanges κ
  | .allocate => x.allocate.2
  | .register token delivery now => (x.register token delivery now).2
  | .deliver m => (x.deliver m.token).elim x (·.2)
  | .schedule m now => x.schedule m now
  | .acknowledge id => x.acknowledge id
  | .cancel id => x.cancel id
  | .unobserve token => x.unobserve token
  | .sweep now => (x.sweep now).2
  | .clear => x.clear

def after (x : Exchanges κ) (ops : List (Operation κ)) : Exchanges κ := ops.foldl apply x

/-- The callback that an operation calls. -/
def called (x : Exchanges κ) : Operation κ → Option κ
  | .deliver m => (x.deliver m.token).bind (·.1)
  | _ => none

/-- The callbacks that a run calls, in order. -/
def calls (x : Exchanges κ) : List (Operation κ) → List κ
  | [] => []
  | op :: ops => (x.called op).toList ++ (x.apply op).calls ops

/-- What an operation wants done. -/
def yields (x : Exchanges κ) : Operation κ → List Event
  | .sweep now => (x.sweep now).1
  | _ => []

/-- What a run wants done, in order. -/
def events (x : Exchanges κ) : List (Operation κ) → List Event
  | [] => []
  | op :: ops => x.yields op ++ (x.apply op).events ops

/-- Something holds of every operation of a run in the state that it finds. -/
def Throughout (P : Exchanges κ → Operation κ → Prop) : Exchanges κ → List (Operation κ) → Prop
  | _, [] => True
  | x, op :: ops => P x op ∧ Throughout P (x.apply op) ops

variable {x : Exchanges κ} {op : Operation κ} {id : MessageId} {token : Token}

theorem after_append (x : Exchanges κ) (ops ops' : List (Operation κ)) :
    x.after (ops ++ ops') = (x.after ops).after ops' :=
  List.foldl_append

theorem after_concat (x : Exchanges κ) (ops : List (Operation κ)) (op : Operation κ) :
    x.after (ops ++ [op]) = (x.after ops).apply op :=
  after_append x ops [op]

section
variable {P : Exchanges κ → Operation κ → Prop} {ops ops' : List (Operation κ)}

theorem throughout_append :
    Throughout P x (ops ++ ops') ↔ Throughout P x ops ∧ Throughout P (x.after ops) ops' := by
  induction ops generalizing x with
  | nil => exact (true_and _).symm.to_iff
  | cons first ops ih =>
    rw [List.cons_append, Throughout, Throughout, ih, and_assoc]
    rfl

theorem throughout_concat :
    Throughout P x (ops ++ [op]) ↔ Throughout P x ops ∧ P (x.after ops) op := by
  rw [throughout_append]
  exact and_congr_right' (and_true _).to_iff

end

/-! ## The tables after one operation -/

/-- The limits are fixed. -/
theorem limits_apply (x : Exchanges κ) (op : Operation κ) :
    (x.apply op).config = x.config ∧ (x.apply op).lifetime = x.lifetime := by
  cases op with
  | register token delivery now =>
    rcases hregister : x.register token delivery now with ⟨id?, x'⟩
    obtain ⟨hconfig, hlifetime, -⟩ := register_cases hregister
    simp only [apply, hregister]
    exact ⟨hconfig, hlifetime⟩
  | deliver m =>
    rcases x.deliver_cases m.token with ⟨c, -, h⟩ | ⟨id, p, -, h⟩ | ⟨-, -, h⟩ <;>
      simp only [apply, h] <;> exact ⟨rfl, rfl⟩
  | schedule m now => simp only [apply, schedule]; split <;> exact ⟨rfl, rfl⟩
  | _ => exact ⟨rfl, rfl⟩

theorem limits_after (x : Exchanges κ) (ops : List (Operation κ)) :
    (x.after ops).config = x.config ∧ (x.after ops).lifetime = x.lifetime := by
  induction ops generalizing x with
  | nil => exact ⟨rfl, rfl⟩
  | cons op ops ih =>
    obtain ⟨hconfig, hlifetime⟩ := x.limits_apply op
    obtain ⟨hconfig', hlifetime'⟩ := ih (x.apply op)
    exact ⟨hconfig'.trans hconfig, hlifetime'.trans hlifetime⟩

/-- The operation registers a request under the id. -/
def Registers (id : MessageId) (p : Pending κ) (x : Exchanges κ) (op : Operation κ) : Prop :=
  ∃ token delivery now, op = .register token delivery now ∧
    (x.register token delivery now).1 = some id ∧
    p = ⟨token, Millis.add now x.lifetime, delivery.callback?⟩

/-- The operation is a response that ends the pending request of the id. -/
def Ends (id : MessageId) (x : Exchanges κ) (op : Operation κ) : Prop :=
  ∃ m p, op = .deliver m ∧ x.Awaits m.token id p

/-- The operation is no reset of the id, no clearing, and no sweep that finds the time over or gives
the message up. -/
def LeavesPending (id : MessageId) (expiry : Millis) (x : Exchanges κ) : Operation κ → Prop
  | .cancel id' => id' ≠ id
  | .sweep now => now < expiry ∧ ∀ token, .abandoned id token ∉ (x.sweep now).1
  | .clear => False
  | _ => True

/-- The operation neither removes the observer of the token nor puts another in its place. -/
def LeavesObserver (token : Token) (x : Exchanges κ) : Operation κ → Prop
  | .register token' (.observer callback) now =>
    token' = token → (x.register token' (.observer callback) now).1 = none
  | .unobserve token' => token' ≠ token
  | .clear => False
  | _ => True

/-- A sweep gives a message up where its record is out of transmissions. -/
theorem abandoned_mem_sweep_iff {now : Millis} :
    (∃ token, .abandoned id token ∈ (x.sweep now).1) ↔ x.verdict? now id = some .givenUp := by
  simp only [sweep, verdict?, List.mem_filterMap, Prod.exists, Option.map_eq_some_iff,
    Std.ExtTreeMap.mem_toList_iff_getElem?_eq_some]
  constructor
  · rintro ⟨token, id', r, hr, hevent⟩
    cases hverdict : r.verdict x.config now with
    | waiting => rw [hverdict] at hevent; cases hevent
    | again next => rw [hverdict] at hevent; cases hevent
    | givenUp =>
      rw [hverdict] at hevent
      cases hevent
      exact ⟨r, hr, hverdict⟩
  · rintro ⟨r, hr, hverdict⟩
    exact ⟨r.message.token, id, r, hr, by rw [hverdict]; rfl⟩

theorem pending_sweep_iff {now : Millis} {p : Pending κ} :
    (x.sweep now).2.pending[id]? = some p ↔
      x.pending[id]? = some p ∧ LeavesPending id p.expiry x (.sweep now) := by
  have hverdict : (∃ token, .abandoned id token ∈ (x.sweep now).1) ↔ _ := abandoned_mem_sweep_iff
  simp only [sweep, Std.ExtTreeMap.getElem?_filter', Option.filter_eq_some_iff] at hverdict ⊢
  simp only [LeavesPending, ← not_exists, sweep, hverdict]
  simp

theorem ends_deliver_iff {m : Message} : Ends id x (.deliver m) ↔ ∃ p, x.Awaits m.token id p := by
  constructor
  · rintro ⟨m', p, hm, hp⟩
    cases hm
    exact ⟨p, hp⟩
  · rintro ⟨p, hp⟩
    exact ⟨m, p, rfl, hp⟩

theorem pending_deliver_iff {m : Message} {p : Pending κ} :
    (x.apply (.deliver m)).pending[id]? = some p ↔
      x.pending[id]? = some p ∧ ¬ Ends id x (.deliver m) := by
  rw [ends_deliver_iff]
  rcases x.deliver_cases m.token with ⟨c, hobserver, h⟩ | ⟨id', p', hp', h⟩ | ⟨-, hnobody, h⟩
  · have hends : ¬ ∃ p, x.Awaits m.token id p := by
      rintro ⟨p, hp⟩
      cases hobserver.symm.trans hp.unobserved
    simp [apply, h, hends]
  · have hends : (∃ p, x.Awaits m.token id p) ↔ id' = id := by
      constructor
      · rintro ⟨p, hp⟩
        exact (hp'.unique hp).1
      · rintro rfl
        exact ⟨p', hp'⟩
    simp only [apply, h, hends, Option.elim, cancel, getElem?_erase_eq_some_iff, ne_eq]
  · have hends : ¬ ∃ p, x.Awaits m.token id p := by
      rintro ⟨p, hp⟩
      exact hnobody id p hp.pending hp.token_eq
    simp [apply, h, hends]

theorem pending_register_iff {delivery : Delivery κ} {now : Millis} {p : Pending κ} :
    (x.apply (.register token delivery now)).pending[id]? = some p ↔
      x.pending[id]? = some p ∨ Registers id p x (.register token delivery now) := by
  have hregisters : Registers id p x (.register token delivery now) ↔
      (x.register token delivery now).1 = some id ∧
        p = ⟨token, Millis.add now x.lifetime, delivery.callback?⟩ := by
    constructor
    · rintro ⟨_, _, _, heq, h⟩
      cases heq
      exact h
    · exact fun h => ⟨token, delivery, now, rfl, h⟩
  rw [hregisters, apply]
  rcases hregister : x.register token delivery now with ⟨id?, x'⟩
  obtain ⟨-, -, -, ⟨rfl, hpending, -⟩ | ⟨id', rfl, hnew, hpending, -⟩⟩ := register_cases hregister
  · simp [hpending]
  · simp only [hpending, getElem?_insert_eq_some_iff, Option.some.injEq]
    grind

/-- **What is pending after an operation** was pending and was left alone, or was registered. -/
theorem pending_apply_iff {p : Pending κ} :
    (x.apply op).pending[id]? = some p ↔
      x.pending[id]? = some p ∧ LeavesPending id p.expiry x op ∧ ¬ Ends id x op ∨
        Registers id p x op := by
  cases op with
  | register token delivery now => simp [pending_register_iff, LeavesPending, Ends]
  | deliver m => simp [pending_deliver_iff, LeavesPending, Registers]
  | cancel id' =>
    simp [apply, cancel, LeavesPending, Ends, Registers, getElem?_erase_eq_some_iff]
  | sweep now => simp [apply, pending_sweep_iff, Ends, Registers]
  | schedule m now => simp [apply, pending_schedule, LeavesPending, Ends, Registers]
  | allocate => simp [apply, allocate, LeavesPending, Ends, Registers]
  | acknowledge id' => simp [apply, acknowledge, LeavesPending, Ends, Registers]
  | unobserve token => simp [apply, unobserve, LeavesPending, Ends, Registers]
  | clear => simp [apply, clear, LeavesPending, Ends, Registers]

theorem observers_register_iff {token' : Token} {delivery : Delivery κ} {now : Millis} {c : κ} :
    (x.apply (.register token' delivery now)).observers[token]? = some c ↔
      x.observers[token]? = some c ∧ LeavesObserver token x (.register token' delivery now) ∨
        ∃ now', Operation.register token' delivery now = .register token (.observer c) now' ∧
          (x.register token (.observer c) now').1.isSome := by
  rcases hregister : x.register token' delivery now with ⟨id?, x'⟩
  obtain ⟨-, -, -, ⟨rfl, -, hobservers⟩ | ⟨id', rfl, -, -, hobservers⟩⟩ :=
    register_cases hregister
  · cases delivery with
    | once callback => simp [apply, hregister, hobservers, LeavesObserver]
    | observer callback =>
      simp only [apply, hregister, hobservers, LeavesObserver]
      grind
  · cases delivery with
    | once callback => simp [apply, hregister, hobservers, observe, LeavesObserver]
    | observer callback =>
      simp only [apply, hregister, hobservers, observe, LeavesObserver,
        getElem?_insert_eq_some_iff]
      grind

/-- **Who observes after an operation** did so before and was left alone, or was registered. -/
theorem observers_apply_iff {c : κ} :
    (x.apply op).observers[token]? = some c ↔
      x.observers[token]? = some c ∧ LeavesObserver token x op ∨
        ∃ now, op = .register token (.observer c) now ∧
          (x.register token (.observer c) now).1.isSome := by
  cases op with
  | register token' delivery now => exact observers_register_iff
  | deliver m =>
    rcases x.deliver_cases m.token with ⟨c, -, h⟩ | ⟨id, p, -, h⟩ | ⟨-, -, h⟩ <;>
      simp [apply, h, cancel, LeavesObserver]
  | unobserve token' =>
    simp [apply, unobserve, LeavesObserver, getElem?_erase_eq_some_iff]
  | schedule m now => simp [apply, observers_schedule, LeavesObserver]
  | clear => simp [apply, clear, LeavesObserver]
  | _ => simp [apply, allocate, acknowledge, cancel, sweep, LeavesObserver]

/-- A message that is sent again after an operation was sent again before, or was scheduled. -/
theorem message_of_retries_apply {r' : Retry} (h : (x.apply op).retries[id]? = some r') :
    (∃ r, x.retries[id]? = some r ∧ r'.message = r.message) ∨
      (∃ now, op = .schedule r'.message now) ∧ r'.message.id = id := by
  cases op with
  | register token delivery now =>
    rcases hregister : x.register token delivery now with ⟨id?, x'⟩
    obtain ⟨-, -, hretries, -⟩ := register_cases hregister
    rw [apply, hregister, hretries] at h
    exact .inl ⟨r', h, rfl⟩
  | deliver m =>
    rcases x.deliver_cases m.token with ⟨c, -, hd⟩ | ⟨id', p, -, hd⟩ | ⟨-, -, hd⟩ <;>
      rw [apply, hd] at h
    · exact .inl ⟨r', h, rfl⟩
    · exact .inl ((cancel_shrinks id').retries id r' h)
    · exact .inl ⟨r', h, rfl⟩
  | schedule m now =>
    rcases retries_schedule h with ⟨rfl, rfl⟩ | hr
    · exact .inr ⟨⟨now, rfl⟩, rfl⟩
    · exact .inl ⟨r', hr, rfl⟩
  | acknowledge id' => exact .inl ((acknowledge_shrinks id').retries id r' h)
  | cancel id' => exact .inl ((cancel_shrinks id').retries id r' h)
  | sweep now => exact .inl ((sweep_shrinks now).retries id r' h)
  | clear => cases Std.ExtTreeMap.getElem?_empty.symm.trans h
  | allocate => exact .inl ⟨r', h, rfl⟩
  | unobserve token => exact .inl ⟨r', h, rfl⟩

/-- The operation neither removes the record of the id nor puts another in its place. -/
def Spares (id : MessageId) (x : Exchanges κ) : Operation κ → Prop
  | .deliver m => ¬ Ends id x (.deliver m)
  | .schedule m _ => m.type = .confirmable → m.id ≠ id
  | .acknowledge id' | .cancel id' => id' ≠ id
  | .clear => False
  | _ => True

theorem retries_sweep (x : Exchanges κ) (id : MessageId) (now : Millis) :
    (x.sweep now).2.retries[id]? =
      x.retries[id]?.bind fun r => (r.verdict x.config now).next? r :=
  Std.ExtTreeMap.getElem?_filterMap'

/-- Between sweeps nothing happens to a record that is spared. -/
theorem retries_of_spares (hspares : Spares id x op) :
    (∃ now, op = .sweep now) ∨
      x.yields op = [] ∧ (x.apply op).retries[id]? = x.retries[id]? := by
  cases op with
  | sweep now => exact .inl ⟨now, rfl⟩
  | register token delivery now =>
    rcases hregister : x.register token delivery now with ⟨id?, x'⟩
    obtain ⟨-, -, hretries, -⟩ := register_cases hregister
    rw [apply, hregister, hretries]
    exact .inr ⟨rfl, rfl⟩
  | deliver m =>
    refine .inr ⟨rfl, ?_⟩
    rcases x.deliver_cases m.token with ⟨c, -, h⟩ | ⟨id', p, hp, h⟩ | ⟨-, -, h⟩
    · rw [apply, h, Option.elim]
    · have hne : id' ≠ id := by
        rintro rfl
        exact hspares (ends_deliver_iff.2 ⟨p, hp⟩)
      rw [apply, h]
      exact getElem?_erase_of_ne hne
    · rw [apply, h, Option.elim]
  | schedule m now =>
    refine .inr ⟨rfl, ?_⟩
    rw [apply, schedule]
    split
    · rename_i hm
      exact getElem?_insert_of_ne (hspares hm)
    · rfl
  | acknowledge id' => exact .inr ⟨rfl, getElem?_erase_of_ne hspares⟩
  | cancel id' => exact .inr ⟨rfl, getElem?_erase_of_ne hspares⟩
  | clear => exact hspares.elim
  | allocate => exact .inr ⟨rfl, rfl⟩
  | unobserve token => exact .inr ⟨rfl, rfl⟩

end Coap.Exchanges
