import Coap.Proofs.FreshIds
import Mathlib.Data.List.Iterate
import Mathlib.Data.List.Perm.Subperm

/-!
# A free id is found if there is one

The search for a free id looks at as many ids as there are. From wherever it starts it meets each of
them once, in their cyclic order, and never zero. So it fails only when all of them are taken, and
else finds the one that comes first.
-/
namespace Coap

namespace MessageId

variable {id last : MessageId}

/-- All ids in the order in which they come after one: the larger ones, and then those from 1 up to
that one. -/
def cycle (last : MessageId) : List MessageId :=
  (List.range' (last.toNat + 1) (65535 - last.toNat) ++ List.range' 1 last.toNat).map UInt16.ofNat

theorem length_cycle (last : MessageId) : (cycle last).length = Exchanges.idCount := by
  have hlt := last.toNat_lt
  simp only [cycle, List.length_map, List.length_append, List.length_range', Exchanges.idCount]
  omega

theorem toNat_getElem_cycle {n : Nat} (h : n < (cycle last).length) :
    ((cycle last)[n]).toNat = (last.toNat + n) % 65535 + 1 := by
  have hlt := last.toNat_lt
  rw [length_cycle, Exchanges.idCount] at h
  simp only [cycle, List.getElem_map, List.getElem_append, List.length_range',
    List.getElem_range', UInt16.toNat_ofNat']
  split <;> omega

theorem toNat_iterate_next_succ (last : MessageId) (n : Nat) :
    (next^[n] last.next).toNat = (last.toNat + n) % 65535 + 1 := by
  rw [← Function.iterate_succ_apply, Function.iterate_succ_apply', toNat_next, toNat_iterate_next]

/-- Going from each id to the next one meets all of them in this order. -/
theorem iterate_next_eq_cycle (last : MessageId) :
    List.iterate next last.next Exchanges.idCount = cycle last := by
  apply List.ext_getElem
  · rw [List.length_iterate, length_cycle]
  · intro n hn hn'
    apply UInt16.toNat_inj.1
    rw [List.getElem_iterate, toNat_iterate_next_succ, toNat_getElem_cycle]

theorem mem_cycle_iff : id ∈ cycle last ↔ id ≠ 0 := by
  constructor
  · intro hid hzero
    obtain ⟨n, hn, rfl⟩ := List.getElem_of_mem hid
    have hnat := toNat_getElem_cycle hn
    rw [hzero] at hnat
    exact absurd hnat.symm (Nat.succ_ne_zero _)
  · intro hid
    have hlt := id.toNat_lt
    have hpos : id.toNat ≠ 0 := fun h => hid (UInt16.toNat_inj.1 h)
    refine List.mem_map.2 ⟨id.toNat, ?_, UInt16.ofNat_toNat⟩
    rw [List.mem_append, List.mem_range'_1, List.mem_range'_1]
    omega

theorem nodup_cycle (last : MessageId) : (cycle last).Nodup := by
  rw [List.Nodup, List.pairwise_iff_getElem]
  intro i j hi hj hlt heq
  have hnat := congrArg UInt16.toNat heq
  rw [toNat_getElem_cycle, toNat_getElem_cycle] at hnat
  rw [length_cycle, Exchanges.idCount] at hj
  omega

end MessageId

namespace Exchanges

open MessageId (next cycle)

variable {κ : Type} {x : Exchanges κ} {id : MessageId} {token : Token} {delivery : Delivery κ}
  {now : Millis} {op : Operation κ}

/-! ## The search -/

theorem firstFree_eq_find? (taken : MessageId → Bool) (n : Nat) (last : MessageId) :
    (firstFree taken n last).1 = (List.iterate next last.next n).find? (!taken ·) := by
  induction n generalizing last with
  | zero => rfl
  | succ n ih =>
    rw [firstFree, List.iterate, List.find?_cons]
    cases taken last.next with
    | true => exact ih last.next
    | false => rfl

/-- A registration takes the first id of the cycle that no pending request has. -/
theorem register_eq_find? (x : Exchanges κ) (token : Token) (delivery : Delivery κ) (now : Millis) :
    (x.register token delivery now).1 = (cycle x.lastId).find? (!x.pending.contains ·) := by
  rw [← MessageId.iterate_next_eq_cycle, ← firstFree_eq_find?, register]
  rcases firstFree x.pending.contains idCount x.lastId with ⟨_ | id, lastId⟩ <;> rfl

theorem register_eq_none_iff :
    (x.register token delivery now).1 = none ↔ ∀ id : MessageId, id ≠ 0 → id ∈ x.pending := by
  rw [register_eq_find?, List.find?_eq_none]
  simp [MessageId.mem_cycle_iff]

/-- Before the id that a registration takes come only ids that are taken. -/
theorem register_eq_some_iff :
    (x.register token delivery now).1 = some id ↔
      id ∉ x.pending ∧ ∃ front back, cycle x.lastId = front ++ id :: back ∧
        ∀ id' ∈ front, id' ∈ x.pending := by
  rw [register_eq_find?, List.find?_eq_some_iff_append]
  simp [← Std.ExtTreeMap.contains_iff_mem]

theorem ne_zero_of_register (h : (x.register token delivery now).1 = some id) : id ≠ 0 := by
  obtain ⟨-, front, back, hcycle, -⟩ := register_eq_some_iff.1 h
  have hid : id ∈ cycle x.lastId := by
    rw [hcycle]
    exact List.mem_append_right _ List.mem_cons_self
  exact MessageId.mem_cycle_iff.1 hid

/-! ## How many ids are taken -/

/-- No request waits under zero. -/
theorem zero_not_mem_apply (h : 0 ∉ x.pending) (op : Operation κ) : 0 ∉ (x.apply op).pending := by
  rw [Std.ExtTreeMap.mem_iff_isSome_getElem?, Option.isSome_iff_exists] at h ⊢
  rintro ⟨p, hp⟩
  rcases pending_apply_iff.1 hp with ⟨hold, -⟩ | ⟨token, delivery, now, -, hid, -⟩
  · exact h ⟨p, hold⟩
  · exact ne_zero_of_register hid rfl

theorem zero_not_mem_after (h : 0 ∉ x.pending) (ops : List (Operation κ)) :
    0 ∉ (x.after ops).pending := by
  induction ops generalizing x with
  | nil => exact h
  | cons op ops ih => exact ih (zero_not_mem_apply h op)

theorem zero_not_mem_run (config : Config) (lastId : MessageId) (ops : List (Operation κ)) :
    0 ∉ ((new config lastId : Exchanges κ).after ops).pending :=
  zero_not_mem_after Std.ExtTreeMap.not_mem_empty ops

theorem keys_subperm_cycle (h : 0 ∉ x.pending) (last : MessageId) :
    x.pending.keys.Subperm (cycle last) := by
  apply List.subperm_of_subset x.pending.nodup_keys
  intro id hid
  rw [MessageId.mem_cycle_iff]
  rintro rfl
  exact h (Std.ExtTreeMap.mem_keys.1 hid)

theorem size_pending_le (h : 0 ∉ x.pending) : x.pending.size ≤ idCount := by
  rw [← Std.ExtTreeMap.length_keys, ← MessageId.length_cycle x.lastId]
  exact (keys_subperm_cycle h x.lastId).length_le

/-- All ids are taken exactly if as many requests wait as there are ids. -/
theorem size_pending_eq_iff (h : 0 ∉ x.pending) :
    x.pending.size = idCount ↔ ∀ id : MessageId, id ≠ 0 → id ∈ x.pending := by
  rw [← Std.ExtTreeMap.length_keys, ← MessageId.length_cycle x.lastId]
  constructor
  · intro hlength id hid
    have hperm := (keys_subperm_cycle h x.lastId).perm_of_length_le hlength.ge
    exact Std.ExtTreeMap.mem_keys.1 (hperm.mem_iff.2 (MessageId.mem_cycle_iff.2 hid))
  · intro hall
    have hsub : (cycle x.lastId).Subperm x.pending.keys := by
      apply List.subperm_of_subset (MessageId.nodup_cycle _)
      exact fun id hid => Std.ExtTreeMap.mem_keys.2 (hall id (MessageId.mem_cycle_iff.1 hid))
    exact Nat.le_antisymm (keys_subperm_cycle h _).length_le hsub.length_le

/-- A registration adds a request as long as an id is left. -/
theorem size_register (h : 0 ∉ x.pending) :
    (x.register token delivery now).2.pending.size = min (x.pending.size + 1) idCount := by
  have hbound := size_pending_le h
  have hnone : (x.register token delivery now).1 = none ↔ _ := register_eq_none_iff
  rcases hregister : x.register token delivery now with ⟨id?, x'⟩
  rw [← size_pending_eq_iff h, hregister] at hnone
  obtain ⟨-, -, -, ⟨hid, hpending, -⟩ | ⟨id, hid, hfree, hpending, -⟩⟩ := register_cases hregister
  · rw [hpending, hnone.1 hid]
    rfl
  · have hsize : x.pending.size ≠ idCount := by
      intro hfull
      cases hid.symm.trans (hnone.2 hfull)
    rw [hpending, Std.ExtTreeMap.size_insert, contains_eq_false_iff.2 hfree,
      if_neg Bool.false_ne_true]
    omega

/-- As many requests wait as were registered one after the other, up to the number of ids. -/
theorem size_registering (config : Config) (lastId : MessageId) (token : Token)
    (delivery : Delivery κ) (now : Millis) (n : Nat) :
    ((new config lastId).after
        (List.replicate n (.register token delivery now))).pending.size = min n idCount := by
  induction n with
  | zero => rfl
  | succ n ih =>
    have hzero := zero_not_mem_run config lastId (List.replicate n (.register token delivery now))
    rw [List.replicate_succ', after_concat, apply, size_register hzero, ih]
    omega

/-- **A free id is found if there is one.** After any run a registration fails if and only if every
id from 1 to 65535 is that of a pending request, that is if as many requests wait as there are ids.
It then leaves pending requests, observers and messages to send again as they are. Else it takes the
first id that is not pending, in the cyclic order after the one given out last. Every request that
waited goes on waiting and one is added, for its lifetime; an observer is put in only if one is
registered, and under the token alone. -/
theorem takes_the_first_free_id (config : Config) (lastId : MessageId) (ops : List (Operation κ))
    (token : Token) (delivery : Delivery κ) (now : Millis) :
    let x := (new config lastId).after ops
    let r := x.register token delivery now
    (r.1 = none ↔ ∀ id : MessageId, id ≠ 0 → id ∈ x.pending) ∧
      (r.1 = none ↔ x.pending.size = idCount) ∧
      (r.1 = none →
        r.2.pending = x.pending ∧ r.2.observers = x.observers ∧ r.2.retries = x.retries) ∧
      ∀ id, r.1 = some id →
        (∃ front back, cycle x.lastId = front ++ id :: back ∧ ∀ id' ∈ front, id' ∈ x.pending) ∧
          id ≠ 0 ∧ id ∉ x.pending ∧ r.2.lastId = id ∧
          r.2.pending = x.pending.insert id
            ⟨token, min (now + x.lifetime) Millis.top, delivery.callback?⟩ ∧
          (∀ (id' : MessageId) p, x.pending[id']? = some p → r.2.pending[id']? = some p) ∧
          r.2.pending.size = x.pending.size + 1 ∧
          r.2.retries = x.retries ∧
          (∀ callback, delivery = .once callback → r.2.observers = x.observers) ∧
          ∀ callback, delivery = .observer callback →
            r.2.observers = x.observers.insert token callback := by
  intro x r
  have hzero : 0 ∉ x.pending := zero_not_mem_run config lastId ops
  have hnone : r.1 = none ↔ ∀ id : MessageId, id ≠ 0 → id ∈ x.pending := register_eq_none_iff
  obtain ⟨-, -, hretries, hcases⟩ := register_cases (Prod.eta r).symm
  refine ⟨hnone, hnone.trans (size_pending_eq_iff hzero).symm, ?_, ?_⟩
  · intro hfail
    rcases hcases with ⟨-, hpending, hobservers⟩ | ⟨id, hid, -⟩
    · exact ⟨hpending, hobservers, hretries⟩
    · cases hid.symm.trans hfail
  · intro id hid
    obtain ⟨hfree, hfirst⟩ := register_eq_some_iff.1 hid
    rcases hcases with ⟨hfail, -⟩ | ⟨id', hid', -, hpending, hobservers⟩
    · cases hfail.symm.trans hid
    · obtain rfl : id' = id := Option.some.inj (hid'.symm.trans hid)
      refine ⟨hfirst, ne_zero_of_register hid, hfree, (lastId_of_register hid).1.symm, hpending,
        ?_, ?_, hretries, ?_, ?_⟩
      · intro id p hp
        have hne : id' ≠ id := by
          rintro rfl
          exact hfree (Std.ExtTreeMap.mem_iff_isSome_getElem?.2 (hp ▸ rfl))
        rw [hpending, getElem?_insert_of_ne hne, hp]
      · rw [hpending, Std.ExtTreeMap.size_insert,
          if_neg (mt Std.ExtTreeMap.contains_iff_mem.1 hfree)]
      · rintro callback rfl
        exact hobservers
      · rintro callback rfl
        exact hobservers

/-- So many requests one after the other. -/
def sampleRequests (n : Nat) : List (Operation Unit) :=
  List.replicate n (.register .empty (.once none) 0)

/-- None is found where all are taken, and where one of them was given back, that one is. -/
theorem takes_the_first_free_id_samples :
    (((new {} 7).after (sampleRequests 65535)).register .empty (.observer ()) 0).1 = none ∧
      (((new {} 7).after (sampleRequests 65535 ++ [.cancel 40000])).register .empty (.observer ())
        0).1 = some 40000 := by
  obtain ⟨hall, hfull, -⟩ :=
    takes_the_first_free_id {} 7 (sampleRequests 65535) .empty (.observer ()) 0
  obtain ⟨hleft, -, -, hfound⟩ :=
    takes_the_first_free_id {} 7 (sampleRequests 65535 ++ [.cancel 40000]) .empty (.observer ()) 0
  have hnone := hfull.2 (size_registering {} 7 .empty (.once none) 0 65535)
  have hone : ∀ id : MessageId, id ≠ 0 →
      (id ∈ ((new {} 7).after (sampleRequests 65535 ++ [.cancel 40000])).pending ↔ id ≠ 40000) := by
    intro id hid
    rw [after_concat, apply, cancel, Std.ExtTreeMap.mem_erase, and_iff_left (hall.1 hnone id hid),
      Std.LawfulEqCmp.compare_eq_iff_eq.ne]
    exact ne_comm
  refine ⟨hnone, ?_⟩
  rcases hresult : (((new {} 7).after (sampleRequests 65535 ++ [.cancel 40000])).register .empty
    (.observer ()) 0).1 with _ | id
  · exact absurd rfl ((hone 40000 (by decide)).1 (hleft.1 hresult 40000 (by decide)))
  · obtain ⟨-, hid, hfree, -⟩ := hfound id hresult
    rw [hone id hid, not_not] at hfree
    rw [hresult, hfree]

end Exchanges
end Coap
