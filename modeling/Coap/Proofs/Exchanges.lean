import Coap.Exchanges.Sweep
import Coap.Dedup

/-! What the operations on the two tables take away and put in, entry by entry. -/
namespace Coap

namespace Exchanges

theorem contains_eq_false_iff {α β : Type} [Ord α] [Std.TransOrd α] {t : Std.ExtTreeMap α β}
    {k : α} : t.contains k = false ↔ t[k]? = none := by
  rw [Std.ExtTreeMap.contains_eq_isSome_getElem?, Option.isSome_eq_false_iff,
    Option.isNone_iff_eq_none]

section Entries

variable {α β : Type} [Ord α] [Std.TransOrd α] [Std.LawfulEqOrd α] {t : Std.ExtTreeMap α β}
  {k k' : α} {b b' : β}

theorem getElem?_erase_of_ne (h : k ≠ k') : (t.erase k)[k']? = t[k']? := by
  rw [Std.ExtTreeMap.getElem?_erase, if_neg fun hk => h (Std.LawfulEqCmp.eq_of_compare hk)]

theorem getElem?_insert_of_ne (h : k ≠ k') : (t.insert k b)[k']? = t[k']? := by
  rw [Std.ExtTreeMap.getElem?_insert, if_neg fun hk => h (Std.LawfulEqCmp.eq_of_compare hk)]

theorem getElem?_erase_eq_some_iff : (t.erase k)[k']? = some b ↔ t[k']? = some b ∧ k ≠ k' := by
  by_cases hk : k = k'
  · simp [hk]
  · simp [getElem?_erase_of_ne hk, hk]

theorem getElem?_insert_eq_some_iff :
    (t.insert k b)[k']? = some b' ↔ k = k' ∧ b = b' ∨ k ≠ k' ∧ t[k']? = some b' := by
  by_cases hk : k = k'
  · simp [hk]
  · simp [getElem?_insert_of_ne hk, hk]

theorem erase_of_none (h : t[k]? = none) : t.erase k = t := by
  apply Std.ExtTreeMap.ext_getElem?
  intro k'
  by_cases hk : k = k'
  · rw [← hk, Std.ExtTreeMap.getElem?_erase_self, h]
  · exact getElem?_erase_of_ne hk

theorem erase_comm (k k' : α) : (t.erase k).erase k' = (t.erase k').erase k := by
  apply Std.ExtTreeMap.ext_getElem?
  intro i
  rw [Option.ext_iff]
  intro b
  simp only [getElem?_erase_eq_some_iff]
  exact and_right_comm

/-- Taking a new entry out again leaves no trace of it. -/
theorem erase_insert_of_none (h : t[k]? = none) : (t.insert k b).erase k = t := by
  apply Std.ExtTreeMap.ext_getElem?
  intro k'
  by_cases hk : k = k'
  · rw [← hk, Std.ExtTreeMap.getElem?_erase_self, h]
  · rw [getElem?_erase_of_ne hk, getElem?_insert_of_ne hk]

end Entries

variable {κ : Type} {x x' x'' : Exchanges κ}

/-- Nothing was put in. A message that is still sent again is the one that was. -/
structure Shrinks (x x' : Exchanges κ) : Prop where
  observers : x'.observers = x.observers
  pending : ∀ (id : MessageId) p, x'.pending[id]? = some p → x.pending[id]? = some p
  retries : ∀ (id : MessageId) r', x'.retries[id]? = some r' →
    ∃ r, x.retries[id]? = some r ∧ r'.message = r.message

namespace Shrinks

theorem refl : x.Shrinks x := ⟨rfl, fun _ _ => id, fun _ r h => ⟨r, h, rfl⟩⟩

theorem trans (h : x.Shrinks x') (h' : x'.Shrinks x'') : x.Shrinks x'' := by
  refine ⟨h'.observers.trans h.observers, fun id p hp => h.pending id p (h'.pending id p hp), ?_⟩
  intro id r'' hr''
  obtain ⟨r', hr', hm'⟩ := h'.retries id r'' hr''
  obtain ⟨r, hr, hm⟩ := h.retries id r' hr'
  exact ⟨r, hr, hm'.trans hm⟩

end Shrinks

theorem getElem?_of_erase {α : Type} {t : Std.ExtTreeMap MessageId α} {id id' : MessageId} {a : α}
    (h : (t.erase id)[id']? = some a) : t[id']? = some a ∧ id' ≠ id := by
  obtain ⟨ha, hne⟩ := getElem?_erase_eq_some_iff.1 h
  exact ⟨ha, hne.symm⟩

theorem acknowledge_shrinks (id : MessageId) : x.Shrinks (x.acknowledge id) :=
  ⟨rfl, fun _ _ h => h, fun _ r h => ⟨r, (getElem?_of_erase h).1, rfl⟩⟩

theorem cancel_shrinks (id : MessageId) : x.Shrinks (x.cancel id) :=
  ⟨rfl, fun _ _ h => (getElem?_of_erase h).1, fun _ r h => ⟨r, (getElem?_of_erase h).1, rfl⟩⟩

theorem message_of_next? {c : Config} {now : Millis} {r r' : Retry}
    (h : (r.verdict c now).next? r = some r') : r'.message = r.message := by
  unfold Retry.verdict at h
  split at h
  · cases h
    rfl
  · split at h
    · cases h
    · cases h
      rfl

theorem sweep_shrinks (now : Millis) : x.Shrinks (x.sweep now).2 := by
  refine ⟨rfl, ?_, ?_⟩
  · intro id p hp
    simp only [sweep, Std.ExtTreeMap.getElem?_filter', Option.filter_eq_some_iff] at hp
    exact hp.1
  · intro id r' hr'
    simp only [sweep, Std.ExtTreeMap.getElem?_filterMap', Option.bind_eq_some_iff] at hr'
    obtain ⟨r, hr, hnext⟩ := hr'
    exact ⟨r, hr, message_of_next? hnext⟩

theorem message_of_event? {c : Config} {now : Millis} {id : MessageId} {r : Retry} {m : Message}
    (h : (r.verdict c now).event? id r = some (.retry m)) : r.message = m := by
  unfold Retry.verdict at h
  split at h
  · cases h
  · split at h
    · cases h
    · cases h
      rfl

/-- What a sweep sends again is the message of a record. -/
theorem retry_of_sweep {now : Millis} {m : Message} (h : .retry m ∈ (x.sweep now).1) :
    ∃ (id : MessageId) (r : Retry), x.retries[id]? = some r ∧ r.message = m := by
  obtain ⟨⟨id, r⟩, hmem, hevent⟩ := List.mem_filterMap.1 h
  exact ⟨id, r, Std.ExtTreeMap.mem_toList_iff_getElem?_eq_some.1 hmem, message_of_event? hevent⟩

theorem firstFree_some {taken : MessageId → Bool} {n : Nat} {last id last' : MessageId}
    (h : firstFree taken n last = (some id, last')) : taken id = false := by
  induction n generalizing last with
  | zero => cases h
  | succ n ih =>
    rw [firstFree] at h
    split at h
    · exact ih h
    · rename_i htaken
      cases h
      exact Bool.eq_false_iff.2 htaken

/-- A registration fails and leaves the tables as they are, or takes an id under which nothing
waits. -/
theorem register_cases {token : Token} {delivery : Delivery κ} {now : Millis}
    {id? : Option MessageId} (h : x.register token delivery now = (id?, x')) :
    x'.config = x.config ∧ x'.lifetime = x.lifetime ∧ x'.retries = x.retries ∧
      (id? = none ∧ x'.pending = x.pending ∧ x'.observers = x.observers ∨
        ∃ id, id? = some id ∧ x.pending[id]? = none ∧
          x'.pending =
            x.pending.insert id ⟨token, Millis.add now x.lifetime, delivery.callback?⟩ ∧
          x'.observers = (x.observe token delivery).observers) := by
  unfold register at h
  split at h
  · cases h
    exact ⟨rfl, rfl, rfl, .inl ⟨rfl, rfl, rfl⟩⟩
  · rename_i id lastId hfree
    have htaken := contains_eq_false_iff.1 (firstFree_some hfree)
    cases h
    cases delivery <;> exact ⟨rfl, rfl, rfl, .inr ⟨id, rfl, htaken, rfl, rfl⟩⟩

theorem register_none {token : Token} {delivery : Delivery κ} {now : Millis}
    (h : x.register token delivery now = (none, x')) : x.Shrinks x' := by
  obtain ⟨-, -, hretries, ⟨-, hpending, hobservers⟩ | ⟨id, hid, -⟩⟩ := register_cases h
  · exact ⟨hobservers, fun _ _ hp => hpending ▸ hp, fun _ r hr => ⟨r, hretries ▸ hr, rfl⟩⟩
  · cases hid

/-- A request whose first response alone is wanted. -/
theorem register_once {token : Token} {callback : Option κ} {now : Millis} {id : MessageId}
    (h : x.register token (.once callback) now = (some id, x')) :
    x.pending[id]? = none ∧
      x'.pending = x.pending.insert id ⟨token, Millis.add now x.lifetime, callback⟩ ∧
      x'.observers = x.observers ∧ x'.retries = x.retries := by
  obtain ⟨-, -, hretries, ⟨hid, -⟩ | ⟨id', hid, hnew, hpending, hobservers⟩⟩ := register_cases h
  · cases hid
  · cases hid
    exact ⟨hnew, hpending, hobservers, hretries⟩

theorem retries_schedule {m : Message} {now : Millis} {id : MessageId} {r : Retry}
    (h : (x.schedule m now).retries[id]? = some r) :
    id = m.id ∧ r.message = m ∨ x.retries[id]? = some r := by
  unfold schedule at h
  split at h
  · rcases getElem?_insert_eq_some_iff.1 h with ⟨hid, rfl⟩ | ⟨-, hr⟩
    · exact .inl ⟨hid.symm, rfl⟩
    · exact .inr hr
  · exact .inr h

theorem pending_schedule (m : Message) (now : Millis) :
    (x.schedule m now).pending = x.pending := by
  unfold schedule
  split <;> rfl

theorem observers_schedule (m : Message) (now : Millis) :
    (x.schedule m now).observers = x.observers := by
  unfold schedule
  split <;> rfl

section Responses

variable {token : Token} {id : MessageId}

/-- Of several pending requests with one token the one with the smallest id is found. -/
theorem awaiting?_eq_some_iff {p : Pending κ} :
    x.awaiting? token = some (id, p) ↔ x.pending[id]? = some p ∧ p.token = token ∧
      ∀ id' p', id' < id → x.pending[id']? = some p' → p'.token ≠ token := by
  have hordered := x.pending.ordered_keys_toList
  rw [awaiting?, List.find?_eq_some_iff_append]
  constructor
  · rintro ⟨htoken, front, back, hlist, hfront⟩
    rw [hlist] at hordered
    have hmem : (id, p) ∈ x.pending.toList := by
      rw [hlist]
      exact List.mem_append_right _ List.mem_cons_self
    refine ⟨Std.ExtTreeMap.mem_toList_iff_getElem?_eq_some.1 hmem, eq_of_beq htoken, ?_⟩
    intro id' p' hlt hp' htoken'
    have hmem' := Std.ExtTreeMap.mem_toList_iff_getElem?_eq_some.2 hp'
    rw [hlist] at hmem'
    rcases List.mem_append.1 hmem' with hold | hnew
    · have hmiss := hfront _ hold
      simp [htoken'] at hmiss
    · rcases List.mem_cons.1 hnew with heq | hlater
      · cases heq
        exact UInt16.lt_irrefl _ hlt
      · have hback := List.pairwise_cons.1 (List.pairwise_append.1 hordered).2.1
        exact UInt16.lt_asymm hlt (Std.compare_eq_lt.1 (hback.1 _ hlater))
  · rintro ⟨hp, htoken, hsmallest⟩
    obtain ⟨front, back, hlist⟩ :=
      List.append_of_mem (Std.ExtTreeMap.mem_toList_iff_getElem?_eq_some.2 hp)
    refine ⟨beq_iff_eq.2 htoken, front, back, hlist, ?_⟩
    rintro ⟨id', p'⟩ hfront
    have hlt : id' < id := by
      rw [hlist] at hordered
      exact Std.compare_eq_lt.1
        ((List.pairwise_append.1 hordered).2.2 _ hfront _ List.mem_cons_self)
    have hp' : x.pending[id']? = some p' := by
      apply Std.ExtTreeMap.mem_toList_iff_getElem?_eq_some.1
      rw [hlist]
      exact List.mem_append_left _ hfront
    simpa using hsmallest id' p' hlt hp'

theorem awaiting?_eq_none_iff :
    x.awaiting? token = none ↔
      ∀ (id : MessageId) p, x.pending[id]? = some p → p.token ≠ token := by
  rw [awaiting?, List.find?_eq_none]
  constructor
  · intro h id p hp
    simpa using h _ (Std.ExtTreeMap.mem_toList_iff_getElem?_eq_some.2 hp)
  · rintro h ⟨id, p⟩ hmem
    simpa using h id p (Std.ExtTreeMap.mem_toList_iff_getElem?_eq_some.1 hmem)

/-- A response with the token would end this pending request. -/
structure Awaits (x : Exchanges κ) (token : Token) (id : MessageId) (p : Pending κ) : Prop where
  unobserved : x.observers[token]? = none
  pending : x.pending[id]? = some p
  token_eq : p.token = token
  smallest : ∀ id' p', id' < id → x.pending[id']? = some p' → p'.token ≠ token

/-- A response goes to an observer, ends one pending request or finds nobody. -/
theorem deliver_cases (x : Exchanges κ) (token : Token) :
    (∃ c, x.observers[token]? = some c ∧ x.deliver token = some (some c, x)) ∨
      (∃ id p, x.Awaits token id p ∧ x.deliver token = some (p.callback, x.cancel id)) ∨
      x.observers[token]? = none ∧
        (∀ (id : MessageId) p, x.pending[id]? = some p → p.token ≠ token) ∧
        x.deliver token = none := by
  unfold deliver
  cases hobserver : x.observers[token]? with
  | some c => exact .inl ⟨c, rfl, rfl⟩
  | none =>
    cases hfind : x.awaiting? token with
    | some found =>
      obtain ⟨id, p⟩ := found
      obtain ⟨hp, htoken, hsmallest⟩ := awaiting?_eq_some_iff.1 hfind
      exact .inr (.inl ⟨id, p, ⟨hobserver, hp, htoken, hsmallest⟩, rfl⟩)
    | none => exact .inr (.inr ⟨rfl, awaiting?_eq_none_iff.1 hfind, rfl⟩)

theorem Awaits.awaiting?_eq {p : Pending κ} (h : x.Awaits token id p) :
    x.awaiting? token = some (id, p) :=
  awaiting?_eq_some_iff.2 ⟨h.pending, h.token_eq, h.smallest⟩

theorem Awaits.unique {id' : MessageId} {p p' : Pending κ} (h : x.Awaits token id p)
    (h' : x.Awaits token id' p') : id = id' ∧ p = p' := by
  have hsame := h.awaiting?_eq.symm.trans h'.awaiting?_eq
  cases hsame
  exact ⟨rfl, rfl⟩

theorem Awaits.deliver {p : Pending κ} (h : x.Awaits token id p) :
    x.deliver token = some (p.callback, x.cancel id) := by
  simp only [Exchanges.deliver, h.unobserved, h.awaiting?_eq]
  rfl

theorem deliver_of_observer {c : κ} (h : x.observers[token]? = some c) :
    x.deliver token = some (some c, x) := by
  simp only [deliver, h]

/-- Without observers a response ends the pending request of its token. -/
theorem deliver_some {callback : Option κ} (hobservers : x.observers = ∅)
    (h : x.deliver token = some (callback, x')) :
    x.Shrinks x' ∧ ∃ id p, x.pending[id]? = some p ∧ p.token = token ∧ p.callback = callback ∧
      x'.pending = x.pending.erase id := by
  rcases x.deliver_cases token with ⟨c, hc, -⟩ | ⟨id, p, hp, hd⟩ | ⟨-, -, hd⟩
  · rw [hobservers] at hc
    cases Std.ExtTreeMap.getElem?_empty.symm.trans hc
  · cases h.symm.trans hd
    exact ⟨cancel_shrinks id, id, p, hp.pending, hp.token_eq, rfl, rfl⟩
  · cases h.symm.trans hd

end Responses

end Exchanges

theorem Millis.add_le_add_right {a b : Millis} (h : a ≤ b) (c : Millis) :
    Millis.add a c ≤ Millis.add b c := by
  unfold add
  apply Nat.le_min.2
  constructor
  · exact Nat.le_trans (Nat.min_le_left ..) (Nat.add_le_add_right h c)
  · exact Nat.min_le_right ..

namespace Dedup

variable {d : Dedup} {id id' : MessageId} {expiry now : Millis}

theorem contains_eq_false_iff : d.contains id = false ↔ d.seen[id]? = none :=
  Exchanges.contains_eq_false_iff

theorem ne_of_contains_eq_false (hnew : d.contains id' = false)
    (h : d.seen[id]? = some expiry) : id ≠ id' := by
  rintro rfl
  rw [contains_eq_false_iff.1 hnew] at h
  cases h

theorem remember_of_seen (h : d.seen[id]? = some expiry) :
    (d.remember id' now).seen[id]? = some expiry := by
  rw [remember, Std.ExtTreeMap.getElem?_insertIfNew, if_neg]
  · exact h
  · rintro ⟨heq, hnew⟩
    obtain rfl := Std.LawfulEqCmp.eq_of_compare heq
    apply hnew
    rw [Std.ExtTreeMap.mem_iff_isSome_getElem?, h]
    rfl

theorem remember_new (hnew : d.contains id = false) :
    (d.remember id now).seen[id]? = some (Millis.add now d.lifetime) := by
  rw [remember, Std.ExtTreeMap.getElem?_insertIfNew, if_pos]
  refine ⟨Std.ReflCmp.compare_self, ?_⟩
  rw [Std.ExtTreeMap.mem_iff_isSome_getElem?, contains_eq_false_iff.1 hnew]
  exact Bool.false_ne_true

theorem remember_of_ne (hne : id ≠ id') : (d.remember id' now).seen[id]? = d.seen[id]? := by
  rw [remember, Std.ExtTreeMap.getElem?_insertIfNew, if_neg]
  rintro ⟨heq, -⟩
  exact hne (Std.LawfulEqCmp.eq_of_compare heq).symm

theorem forget_of_ne (hne : id ≠ id') : (d.forget id').seen[id]? = d.seen[id]? := by
  rw [forget, Std.ExtTreeMap.getElem?_erase, if_neg]
  intro heq
  exact hne (Std.LawfulEqCmp.eq_of_compare heq).symm

/-- What a sweep does not find expired stays. -/
theorem sweep_of_lt (h : d.seen[id]? = some expiry) (hlt : now < expiry) :
    (d.sweep now).seen[id]? = some expiry := by
  rw [sweep, Std.ExtTreeMap.getElem?_filter', h, Option.filter_some, if_pos]
  exact decide_eq_true hlt

end Dedup
end Coap
