import Coap.Proofs.Aftermath
import Coap.Proofs.Unsent

/-!
# Work finds its timer armed

Each of the two sweeps has a timer, which works only while it is armed. Whatever puts work into a
table arms the timer of that table before it is over, and only a tick that leaves the table empty
disarms it. So between operations no work is left behind, whatever failed on the way.
-/
namespace Coap

namespace Exchanges

variable {κ : Type} {x x' : Exchanges κ}

theorem isIdle_iff : x.isIdle = true ↔ x.pending = ∅ ∧ x.retries = ∅ := by
  rw [isIdle, Bool.and_eq_true, Std.ExtTreeMap.isEmpty_iff, Std.ExtTreeMap.isEmpty_iff]

/-- Where nothing is put in there is no new work. -/
theorem Shrinks.isIdle (h : x.Shrinks x') (hidle : x.isIdle = true) : x'.isIdle = true := by
  obtain ⟨hpending, hretries⟩ := isIdle_iff.1 hidle
  refine isIdle_iff.2 ⟨?_, ?_⟩
  · apply Std.ExtTreeMap.ext_getElem?
    intro id
    rw [Std.ExtTreeMap.getElem?_empty, Option.eq_none_iff_forall_ne_some]
    intro p hp
    have hold := h.pending id p hp
    rw [hpending, Std.ExtTreeMap.getElem?_empty] at hold
    cases hold
  · apply Std.ExtTreeMap.ext_getElem?
    intro id
    rw [Std.ExtTreeMap.getElem?_empty, Option.eq_none_iff_forall_ne_some]
    intro r hr
    obtain ⟨r', hr', -⟩ := h.retries id r hr
    rw [hretries, Std.ExtTreeMap.getElem?_empty] at hr'
    cases hr'

theorem paired_of_isIdle (h : x.isIdle = true) : x.Paired := by
  intro id _
  rw [(isIdle_iff.1 h).2]
  exact Std.ExtTreeMap.getElem?_empty

end Exchanges

theorem Dedup.isEmpty_sweep {d : Dedup} (now : Millis) (h : d.isEmpty = true) :
    (d.sweep now).isEmpty = true := by
  rw [isEmpty, Std.ExtTreeMap.isEmpty_iff] at h ⊢
  apply Std.ExtTreeMap.ext_getElem?
  intro id
  rw [sweep, h, Std.ExtTreeMap.getElem?_filter']
  rfl

namespace Timer

/-- The timer is disarmed where it is idle. -/
def rest (t : Timer) (idle : Bool) : Timer := if idle then t.disarm else t

theorem armed_rest_iff {t : Timer} {idle : Bool} (h : idle = false → t.armed = true) :
    (t.rest idle).armed = true ↔ idle = false := by
  cases idle with
  | true => exact ⟨fun harmed => harmed.symm, fun hwork => hwork.symm⟩
  | false => exact ⟨fun _ => rfl, h⟩

end Timer

namespace Session

variable {κ ω : Type} {h : Host ω} {l : Live κ ω} {s s' : Session κ} {t : Timers}

/-- The timers run, and where there is work the timer that does it is armed. -/
def Attended (s : Session κ) : Prop :=
  ∃ t, s.timers = some t ∧ (s.endpoint.dedup.isEmpty = false → t.dedup.armed = true) ∧
    (s.endpoint.exchanges.isIdle = false → t.exchanges.armed = true)

/-- There is no new work, and the timers are as they were. -/
structure Eases (s s' : Session κ) : Prop where
  timers : s'.timers = s.timers
  dedup : s.endpoint.dedup.isEmpty = true → s'.endpoint.dedup.isEmpty = true
  exchanges : s.endpoint.exchanges.isIdle = true → s'.endpoint.exchanges.isIdle = true

theorem Eases.of_eq (htimers : s'.timers = s.timers) (hendpoint : s'.endpoint = s.endpoint) :
    s.Eases s' :=
  ⟨htimers, fun h => hendpoint ▸ h, fun h => hendpoint ▸ h⟩

theorem eases_swept (s : Session κ) (now : Millis) : s.Eases (s.swept now) :=
  ⟨rfl, Dedup.isEmpty_sweep now, (Exchanges.sweep_shrinks now).isIdle⟩

theorem Attended.eases (h : s.Attended) (heases : s.Eases s') : s'.Attended := by
  obtain ⟨t, ht, hdedup, hexchanges⟩ := h
  refine ⟨t, heases.timers.trans ht, ?_, ?_⟩
  · intro hwork
    apply hdedup
    rw [← Bool.not_eq_true] at hwork ⊢
    exact mt heases.dedup hwork
  · intro hwork
    apply hexchanges
    rw [← Bool.not_eq_true] at hwork ⊢
    exact mt heases.exchanges hwork

/-- Arming is enough, whatever work there is. -/
theorem attended_armed (htimers : s.timers.isSome) : s.armed.Attended := by
  obtain ⟨t, ht⟩ := Option.isSome_iff_exists.1 htimers
  refine ⟨_, by rw [armed, ht]; rfl, ?_, ?_⟩
  · intro (hwork : s.endpoint.dedup.isEmpty = false)
    simp only [hwork]
    rfl
  · intro (hwork : s.endpoint.exchanges.isIdle = false)
    simp only [hwork]
    rfl

theorem Attended.isSome (h : s.Attended) : s.timers.isSome := by
  obtain ⟨t, ht, -⟩ := h
  exact Option.isSome_of_eq_some ht

/-! ## Ticks of the timers -/

/-- The session once the timer of the ids seen may rest. -/
def restDedup (s : Session κ) : Session κ :=
  if s.endpoint.dedup.isEmpty then
    { s with timers := s.timers.map fun t => { t with dedup := t.dedup.disarm } }
  else s

/-- The session once the timer of the exchanges may rest. -/
def restExchanges (s : Session κ) : Session κ :=
  if s.endpoint.exchanges.isIdle then
    { s with timers := s.timers.map fun t => { t with exchanges := t.exchanges.disarm } }
  else s

theorem restDedup_eq (ht : s.timers = some t) : s.restDedup =
    { s with timers := some { t with dedup := t.dedup.rest s.endpoint.dedup.isEmpty } } := by
  obtain ⟨_, _, _, _, _, _, _⟩ := s
  cases ht
  unfold restDedup Timer.rest
  split <;> rfl

theorem restExchanges_eq (ht : s.timers = some t) : s.restExchanges =
    { s with timers := some { t with
      exchanges := t.exchanges.rest s.endpoint.exchanges.isIdle } } := by
  obtain ⟨_, _, _, _, _, _, _⟩ := s
  cases ht
  unfold restExchanges Timer.rest
  split <;> rfl

theorem Attended.restDedup (h : s.Attended) : s.restDedup.Attended ∧
    ∃ t, s.restDedup.timers = some t ∧
      (t.dedup.armed = true ↔ s.restDedup.endpoint.dedup.isEmpty = false) := by
  obtain ⟨t, ht, hdedup, hexchanges⟩ := h
  have hiff := Timer.armed_rest_iff hdedup
  rw [restDedup_eq ht]
  exact ⟨⟨_, rfl, hiff.2, hexchanges⟩, _, rfl, hiff⟩

theorem Attended.restExchanges (h : s.Attended) : s.restExchanges.Attended ∧
    ∃ t, s.restExchanges.timers = some t ∧
      (t.exchanges.armed = true ↔ s.restExchanges.endpoint.exchanges.isIdle = false) := by
  obtain ⟨t, ht, hdedup, hexchanges⟩ := h
  have hiff := Timer.armed_rest_iff hexchanges
  rw [restExchanges_eq ht]
  exact ⟨⟨_, rfl, hdedup, hiff.2⟩, _, rfl, hiff⟩

namespace Action

/-- What background work keeps it keeps whether or not the clock can be read. -/
theorem atPresent_attended {work : Millis → Action κ ω Unit} (hl : l.session.Attended)
    (hwork : ∀ now (l : Live κ ω), l.session.Attended → (work now l).2.session.Attended) :
    Ensures (atPresent h work) l fun r l' => r = .ok () ∧ l'.session.Attended :=
  ensures_atPresent (fun _ => hl) (fun now w _ => hwork now { l with world := w } hl) fun _ _ => id

/-- After a tick of its timer the ids seen have all the attention that they need, and no more. -/
theorem dedupTick_attended (hl : l.session.Attended) :
    Ensures (dedupTick h) l fun _ l' => l'.session.Attended ∧
      ∃ t, l'.session.timers = some t ∧
        (t.dedup.armed = true ↔ l'.session.endpoint.dedup.isEmpty = false) := by
  simp only [dedupTick, ensures_bind, ensures_session]
  rcases htimers : l.session.timers with _ | ⟨⟨_ | _, _⟩, _, _⟩
  · cases Option.isSome_iff_ne_none.1 hl.isSome htimers
  · have hattended := hl
    obtain ⟨t, ht, hdedup, -⟩ := hl
    cases htimers.symm.trans ht
    exact ⟨hattended, _, htimers, fun harmed => (Bool.false_ne_true harmed).elim, hdedup⟩
  · refine (atPresent_attended hl fun now l₁ hl₁ => ?_).bind_ok fun l₁ hl₁ => hl₁.restDedup
    obtain ⟨-, hsession, -⟩ := sweepDedup_ensures (l := l₁) (v := fun _ => ()) now
    rw [hsession]
    exact hl₁.eases ⟨rfl, Dedup.isEmpty_sweep now, id⟩

theorem exchangesTick_attended (hl : l.session.Attended) :
    Ensures (exchangesTick h) l fun _ l' => l'.session.Attended ∧
      ∃ t, l'.session.timers = some t ∧
        (t.exchanges.armed = true ↔ l'.session.endpoint.exchanges.isIdle = false) := by
  simp only [exchangesTick, ensures_bind, ensures_session]
  rcases htimers : l.session.timers with _ | ⟨_, ⟨_ | _, _⟩, _⟩
  · cases Option.isSome_iff_ne_none.1 hl.isSome htimers
  · have hattended := hl
    obtain ⟨t, ht, -, hexchanges⟩ := hl
    cases htimers.symm.trans ht
    exact ⟨hattended, _, htimers, fun harmed => (Bool.false_ne_true harmed).elim, hexchanges⟩
  · refine (atPresent_attended hl fun now l₁ hl₁ => ?_).bind_ok fun l₁ hl₁ => hl₁.restExchanges
    obtain ⟨hsession, -⟩ := sweepExchanges_ensures (l := l₁) (h.keeps_const ()) now
    rw [hsession]
    exact hl₁.eases ⟨rfl, id, (Exchanges.sweep_shrinks now).isIdle⟩

/-! ## Operations -/

theorem keepalive_attended (hl : l.session.Attended) (now : Millis) :
    (keepalive h now l).2.session.Attended := by
  rcases keepalive_cases h now l with ⟨interval, -, -, hping⟩ | ⟨-, hnothing⟩
  · rw [hping, ping_session]
    have harmed : (l.session.pinging now).armed.Attended := attended_armed hl.isSome
    exact harmed.eases (.of_eq rfl rfl)
  · rw [hnothing]
    exact hl

theorem tick_attended (hl : l.session.Attended) : (tick h l).2.session.Attended := by
  rcases tick_cases h l with ⟨cause, w, -, htick⟩ | ⟨now, w, -, hswept⟩
  · rw [htick]
    exact hl
  · have hsession := sweep_session h now { l with world := w }
    have heased : (l.session.swept now).Attended := hl.eases (eases_swept l.session now)
    rcases hswept with ⟨f, l', hsweep, htick⟩ | ⟨l', hsweep, htick⟩ <;>
      rw [Ensures, hsweep] at hsession <;> rw [← hsession] at heased <;> rw [htick]
    · exact heased
    · exact keepalive_attended heased now

theorem receive_attended (hl : l.session.Attended) (datagram : Bytes) :
    (receive h datagram l).2.session.Attended := by
  obtain ⟨auth, hsession | ⟨endpoint, hsession⟩⟩ := receive_session h datagram l <;> rw [hsession]
  · exact hl.eases (.of_eq rfl rfl)
  · exact attended_armed hl.isSome

/-- A request that fails adds no work. -/
theorem sendCorrelated_eases {m : Message} {delivery : Delivery κ} {f : Failure} {l' : Live κ ω}
    (hrun : sendCorrelated h m delivery l = (.error f, l')) : l.session.Eases l'.session := by
  obtain ⟨x, tokens, hsession⟩ := ensures_of_eq (sendCorrelated_session h m delivery l) hrun
  refine ⟨by rw [hsession], fun hempty => by rw [hsession]; exact hempty, ?_⟩
  intro hidle
  have hpaired := Exchanges.paired_of_isIdle hidle
  have hundone :=
    ensures_of_eq (sendCorrelated_undone (h := h) (m := m) hpaired delivery) hrun f rfl
  rw [Exchanges.isIdle_iff, hundone.pending, hundone.retries, ← Exchanges.isIdle_iff]
  exact hidle

theorem sendCorrelated_attended (hl : l.session.Attended) (m : Message) (delivery : Delivery κ) :
    (sendCorrelated h m delivery l).2.session.Attended := by
  rcases hrun : sendCorrelated h m delivery l with ⟨f | _, l'⟩
  · exact hl.eases (sendCorrelated_eases hrun)
  · obtain ⟨x, tokens, hsession⟩ := ensures_of_eq (sendCorrelated_session h m delivery l) hrun
    rw [hsession]
    exact attended_armed hl.isSome

theorem keepaliveTick_attended (hl : l.session.Attended) :
    (keepaliveTick h l).2.session.Attended := by
  show Ensures (keepaliveTick h) l fun _ l' => l'.session.Attended
  simp only [keepaliveTick, ensures_bind, ensures_session]
  split
  · exact (atPresent_attended hl fun now _ hl₁ => keepalive_attended hl₁ now).2
  · exact hl

theorem start_attended (l : Live κ ω) : (start l).2.session.Attended := by
  show Ensures start l fun _ l' => l'.session.Attended
  rw [start, ensures_bind, ensures_modifySession, ensures_armTimers]
  exact attended_armed rfl

end Action

open Session.Action

theorem perform_attended {op : Operation κ} (hl : l.session.Attended) (hop : op ≠ .dispose) :
    (perform h l op).session.Attended := by
  cases op with
  | receive datagram => exact receive_attended hl datagram
  | collect =>
    rcases perform_collect h l with ⟨-, hsession⟩ | ⟨datagram, world, -, hsession⟩ <;> rw [hsession]
    · exact hl
    · have hfound : ({ l with world } : Live κ ω).session.Attended := hl
      exact receive_attended hfound datagram
  | tick => exact tick_attended hl
  | sendRequest m callback =>
    rw [perform, Action.sendRequest, return_eq]
    exact sendCorrelated_attended hl m _
  | observe m callback =>
    rw [perform, Action.observe, return_eq]
    exact sendCorrelated_attended hl _ _
  | unobserve token => exact hl.eases ⟨rfl, id, id⟩
  | ensureAuthentication m force =>
    obtain ⟨auth, hsession⟩ := ensureAuthentication_session h m force l
    rw [perform, hsession]
    exact hl.eases (.of_eq rfl rfl)
  | refreshKeepalive =>
    rw [perform, refreshKeepalive_session h l]
    exact hl.eases (.of_eq rfl rfl)
  | setListener listener => exact hl.eases (.of_eq rfl rfl)
  | start => exact start_attended l
  | dedupTick => exact (dedupTick_attended hl).1
  | exchangesTick => exact (exchangesTick_attended hl).1
  | keepaliveTick => exact keepaliveTick_attended hl
  | dispose => exact absurd rfl hop

theorem run_attended {ops : List (Operation κ)} (hl : l.session.Attended)
    (hops : .dispose ∉ ops) : (run h l ops).session.Attended := by
  induction ops generalizing l with
  | nil => exact hl
  | cons op ops ih =>
    rw [List.mem_cons, not_or] at hops
    exact ih (perform_attended hl (Ne.symm hops.1)) hops.2

/-- **No work is stranded.** Whatever happens to a session once its timers were started, in any
order and with any failures, as long as the session is not disposed of: while ids are remembered
the timer that forgets them is armed, and while a request waits or a message is to be sent again so
is the timer of the exchanges. After a tick of either timer it is armed exactly if something is left
in its table. -/
theorem timers_armed_for_work (h : Host ω) (l : Live κ ω) (ops : List (Operation κ))
    (hops : .dispose ∉ ops) :
    let l' := run h (perform h l .start) ops
    (∃ t, l'.session.timers = some t ∧
      (l'.session.endpoint.dedup.isEmpty = false → t.dedup.armed = true) ∧
      (l'.exchanges.isIdle = false → t.exchanges.armed = true)) ∧
    (∃ t, (perform h l' .dedupTick).session.timers = some t ∧
      (t.dedup.armed = true ↔ (perform h l' .dedupTick).session.endpoint.dedup.isEmpty = false)) ∧
    ∃ t, (perform h l' .exchangesTick).session.timers = some t ∧
      (t.exchanges.armed = true ↔ (perform h l' .exchangesTick).exchanges.isIdle = false) := by
  intro l'
  have hl' : l'.session.Attended := run_attended (start_attended l) hops
  exact ⟨hl', (dedupTick_attended hl').2, (exchangesTick_attended hl').2⟩

/-- A request arms the timer of the exchanges, and a tick before its time is over leaves it so. The
timer of the ids seen is armed once a peer is heard. -/
theorem timers_armed_for_work_sample :
    let h := { sampleHost with credentialsRequired := false }
    let l : Live Unit Nat := ⟨sampleSession, 2000, []⟩
    let asked := run h (perform h l .start) [.sendRequest sampleRequest none]
    let heard := run h (perform h l .start)
      [.sendRequest sampleRequest none, .receive [64, 1, 0, 1]]
    (∃ t, (perform h asked .exchangesTick).session.timers = some t ∧ t.exchanges.armed = true) ∧
    (∃ t, (perform h asked .dedupTick).session.timers = some t ∧ t.dedup.armed = false) ∧
    ∃ t, heard.session.timers = some t ∧ t.dedup.armed = true ∧ t.exchanges.armed = true := by
  intro h l asked heard
  have hwaiting : (perform h asked .exchangesTick).exchanges.isIdle = false := by decide +kernel
  have hunheard : (perform h asked .dedupTick).session.endpoint.dedup.isEmpty = true := by
    decide +kernel
  have hremembered : heard.session.endpoint.dedup.isEmpty = false := by decide +kernel
  have hunanswered : heard.exchanges.isIdle = false := by decide +kernel
  obtain ⟨-, ⟨t₁, ht₁, hrests⟩, t₂, ht₂, hworks⟩ :=
    timers_armed_for_work h l [.sendRequest sampleRequest none] (by simp)
  obtain ⟨⟨t₃, ht₃, hremembers, hwaits⟩, -⟩ :=
    timers_armed_for_work h l [.sendRequest sampleRequest none, .receive [64, 1, 0, 1]] (by simp)
  have hdisarmed : t₁.dedup.armed = false := by
    rw [← Bool.not_eq_true]
    exact fun harmed => Bool.false_ne_true ((hrests.1 harmed).symm.trans hunheard)
  exact ⟨⟨t₂, ht₂, hworks.2 hwaiting⟩, ⟨t₁, ht₁, hdisarmed⟩,
    t₃, ht₃, hremembers hremembered, hwaits hunanswered⟩

end Session
end Coap
