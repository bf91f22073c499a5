import Coap.Proofs.Deduplication

/-!
# When a request that was answered may be asked again

A confirmable request that the application answered is closed: what comes again under its id is
acknowledged and goes no further. A sweep reopens the id when its time is over, and so does a reset
of that id at any time, whichever side's message the reset is meant for: the ids that the peer chose
and those chosen here are told apart by nothing.
-/
namespace Coap.Endpoint

variable {κ ω : Type} {app : Application ω} {s : Endpoint κ × ω} {m : Message}
  {now t expiry : Millis} {id : MessageId} {since : List (Input κ)}

/-- The application is asked about the message when it comes in. -/
def Dispatches (app : Application ω) (s : Endpoint κ × ω) (m : Message) (now : Millis) : Prop :=
  ∃ method, m.code.method? = some method ∧ Asks app method m s.2 (s.1.handle app now m s.2)

/-- The application does not fail on the message. -/
def Succeeds (app : Application ω) (s : Endpoint κ × ω) (m : Message) : Prop :=
  ∃ method answer, m.code.method? = some method ∧ (app method m s.2).1 = .ok answer

theorem Dispatches.processed (h : Dispatches app s m now) (htype : m.type = .confirmable)
    (hsucceeds : Succeeds app s m) : Processed app s m := by
  obtain ⟨method, hmethod, hasks⟩ := h
  obtain ⟨method', answer, hmethod', hanswer⟩ := hsucceeds
  refine ⟨⟨htype, .inl (Option.isSome_of_eq_some hmethod)⟩, (asks_iff htype hmethod).1 hasks, ?_⟩
  intro method'' reason hmethod'' herror
  cases hmethod'.symm.trans hmethod''
  cases hanswer.symm.trans herror

/-- An id stays remembered as long as nothing makes the endpoint forget it. -/
theorem seen_run_of_not_forgets (hseen : s.1.dedup.seen[id]? = some expiry)
    (hsince : ∀ i ∈ since, ¬ Forgets id expiry i) :
    (run app s since).1.dedup.seen[id]? = some expiry := by
  induction since generalizing s with
  | nil => exact hseen
  | cons i since ih =>
    obtain ⟨hfirst, hrest⟩ := List.forall_mem_cons.1 hsince
    exact ih (seen_step_iff.2 (.inl ⟨hseen, hfirst⟩)) hrest

/-- A request that is dispatched successfully is remembered from then on. -/
theorem seen_of_dispatched (h : Dispatches app s m t) (htype : m.type = .confirmable)
    (hsucceeds : Succeeds app s m) (hsince : ∀ i ∈ since,
      ¬ Forgets m.id (Millis.add t s.1.dedup.lifetime) i) :
    (run app s (.message m t :: since)).1.dedup.contains m.id = true := by
  have hseen : (step app s (.message m t)).1.dedup.seen[m.id]? =
      some (Millis.add t s.1.dedup.lifetime) :=
    seen_step_iff.2 (.inr ⟨h.processed htype hsucceeds, rfl, rfl⟩)
  rw [Dedup.contains, Std.ExtTreeMap.contains_eq_isSome_getElem?]
  have hlater : (run app (step app s (.message m t)) since).1.dedup.seen[m.id]? = _ :=
    seen_run_of_not_forgets hseen hsince
  exact Option.isSome_of_eq_some hlater

/-- **A request that was answered is not asked again until its time is over or its id is reset.**
After any run of an endpoint a confirmable request is dispatched successfully. Whatever comes in or
goes out then, as long as there is no sweep a lifetime later and no reset of its id, a confirmable
request with that id is acknowledged as a duplicate, and neither application nor tables see anything
of it. -/
theorem closed_until_expiry_or_reset (app : Application ω) (s : Endpoint κ × ω)
    (before since : List (Input κ)) (m m' : Message) (t now : Millis)
    (htype : m.type = .confirmable) (hdispatched : Dispatches app (run app s before) m t)
    (hsucceeds : Succeeds app (run app s before) m)
    (hsweeps : ∀ time, .sweep time ∈ since → time < Millis.add t s.1.dedup.lifetime)
    (hresets : ∀ r time, .message r time ∈ since → Handler.ofMessage r = .reset → r.id ≠ m.id)
    (htype' : m'.type = .confirmable) (hmethod' : m'.code.method?.isSome) (hid : m'.id = m.id) :
    let later := run app s (before ++ .message m t :: since)
    ¬ Dispatches app later m' now ∧
      later.1.handle app now m' later.2 =
        ⟨later.1, later.2, some (m'.ack m'.id), [.noted (.duplicateRequest m')]⟩ := by
  intro later
  have hlifetime : (run app s before).1.dedup.lifetime = s.1.dedup.lifetime :=
    lifetime_run s before
  have hkept : ∀ i ∈ since,
      ¬ Forgets m.id (Millis.add t (run app s before).1.dedup.lifetime) i := by
    rw [hlifetime]
    intro i hi hforgets
    cases i with
    | message r time => exact hresets r time hi hforgets.2 hforgets.1
    | sweep time => exact Nat.not_le.2 (hsweeps time hi) hforgets
    | exchange op => exact hforgets
  have hseen : later.1.dedup.contains m'.id = true := by
    rw [hid, show later = _ from run_append s before _]
    exact seen_of_dispatched hdispatched htype hsucceeds hkept
  obtain ⟨method, hmethod⟩ := Option.isSome_iff_exists.1 hmethod'
  refine ⟨?_, ?_⟩
  · rintro ⟨method', hmethod', hasks⟩
    cases hseen.symm.trans ((asks_iff htype' hmethod').1 hasks)
  · rw [handle_request hmethod, request_of_seen htype' hseen]

/-- A request of ours, under the id of the peer's. -/
def sampleOwnRequest : Message := { code := ⟨0, 1⟩, id := 7, token := ⟨[7, 7], by decide⟩ }

def sampleOwn : List (Input Unit) :=
  [.exchange (.register sampleOwnRequest.token (.once none) 0),
    .exchange (.schedule sampleOwnRequest 0)]

def sampleStart (lifetime : Millis) : Endpoint Unit × Unit :=
  (⟨{ lifetime }, .new {} 6⟩, ())

/-- An acknowledgement of id 7, a reset of another id and an early sweep reopen nothing. -/
theorem closed_until_expiry_or_reset_sample :
    let since : List (Input Unit) :=
      [.message { type := .acknowledgement, id := 7 } 20, .message { type := .reset, id := 9 } 50,
        .sweep 99]
    let closed := run sampleApplication (sampleStart 100)
      (sampleOwn ++ .message sampleGet 10 :: since)
    Dispatches sampleApplication (run sampleApplication (sampleStart 100) sampleOwn) sampleGet 10 ∧
      ¬ Dispatches sampleApplication closed sampleGet 99 := by
  intro since closed
  have hdispatched : Dispatches sampleApplication
      (run sampleApplication (sampleStart 100) sampleOwn) sampleGet 10 :=
    ⟨.get, rfl, (asks_iff rfl rfl).2 (by decide +kernel)⟩
  have hsweeps : ∀ time, .sweep time ∈ since → time < Millis.add 10 100 := by
    intro time hmem
    simp only [since, List.mem_cons, reduceCtorEq, Input.sweep.injEq, List.not_mem_nil, or_false,
      false_or] at hmem
    rw [hmem]
    decide +kernel
  have hresets : ∀ r time, .message r time ∈ since → Handler.ofMessage r = .reset →
      r.id ≠ sampleGet.id := by
    intro r time hmem hreset
    simp only [since, List.mem_cons, reduceCtorEq, Input.message.injEq, List.not_mem_nil,
      or_false] at hmem
    rcases hmem with ⟨rfl, -⟩ | ⟨rfl, -⟩
    · cases hreset
    · decide
  exact ⟨hdispatched, (closed_until_expiry_or_reset sampleApplication (sampleStart 100) sampleOwn
    since sampleGet sampleGet 10 99 rfl hdispatched ⟨.get, _, rfl, rfl⟩ hsweeps hresets rfl rfl
    rfl).1⟩

/-- **A reset of our own message reopens the peer's request**, at any time: our request 7 waits, the
peer's request 7 is answered, the peer rejects ours, and its own is asked again. And since times end,
the last of them is a lifetime later for all that come close to it. -/
theorem reopened_by_reset_or_at_the_end_of_time :
    (let asked := run sampleApplication (sampleStart 247000) sampleOwn
     let later := run sampleApplication (sampleStart 247000)
        (sampleOwn ++ [.message sampleGet 10, .message { type := .reset, id := 7 } 20])
     asked.1.exchanges.pending.contains 7 = true ∧
      asked.1.exchanges.retries.contains 7 = true ∧
      Dispatches sampleApplication asked sampleGet 10 ∧ Succeeds sampleApplication asked sampleGet ∧
      Dispatches sampleApplication later sampleGet 30) ∧
    (let start := sampleStart 247000
     let late := Millis.top - 1000
     let later := run sampleApplication start [.message sampleGet late, .sweep Millis.top]
     Millis.top < late + 247000 ∧
      Dispatches sampleApplication start sampleGet late ∧
      Succeeds sampleApplication start sampleGet ∧
      Dispatches sampleApplication later sampleGet Millis.top) := by
  refine ⟨⟨by decide +kernel, by decide +kernel, ?_, ⟨.get, _, rfl, rfl⟩, ?_⟩,
    by decide +kernel, ?_, ⟨.get, _, rfl, rfl⟩, ?_⟩ <;>
  exact ⟨.get, rfl, (asks_iff rfl rfl).2 (by decide +kernel)⟩

end Coap.Endpoint
