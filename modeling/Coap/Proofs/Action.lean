import Coap.Session.Background
import Coap.Session.Inbound
import Coap.Session.Outbound

/-!
Rules for what an action ensures of its outcome and of the state it leaves, one for each way to
build an action and one for each action that is a single step. What a longer action ensures is
read off them; nothing else opens the monad.
-/
namespace Coap.Session

variable {κ ω α β γ : Type}

/-- The state after a message was handled. -/
def Live.after (l : Live κ ω) (turn : Turn κ ω) : Live κ ω :=
  ⟨{ l.session with endpoint := turn.endpoint }, turn.world, turn.effects.reverse ++ l.history⟩

/-- The token under which a request goes out. -/
def tokenFor (s : Session κ) (m : Message) : Token :=
  if m.token.isEmpty then s.tokens.nextToken.1 else m.token

namespace Action

theorem bind_of_ok {a : Action κ ω α} {f : α → Action κ ω β} {l l' : Live κ ω} {x : α}
    (ha : a l = (.ok x, l')) : (a >>= f) l = f x l' := by
  show ExceptT.bindCont f (a l).1 (a l).2 = _
  rw [ha]
  rfl

theorem bind_of_error {a : Action κ ω α} {f : α → Action κ ω β} {l l' : Live κ ω} {e : Failure}
    (ha : a l = (.error e, l')) : (a >>= f) l = (.error e, l') := by
  show ExceptT.bindCont f (a l).1 (a l).2 = _
  rw [ha]
  rfl

def Ensures (a : Action κ ω α) (l : Live κ ω) (Q : Except Failure α → Live κ ω → Prop) : Prop :=
  Q (a l).1 (a l).2

theorem Ensures.imp {a : Action κ ω α} {l : Live κ ω}
    {Q R : Except Failure α → Live κ ω → Prop} (h : Ensures a l Q)
    (himp : ∀ r l', Q r l' → R r l') : Ensures a l R :=
  himp _ _ h

/-- The second part runs only where the first one did not fail. -/
theorem ensures_bind {a : Action κ ω α} {f : α → Action κ ω β} {l : Live κ ω}
    {Q : Except Failure β → Live κ ω → Prop} :
    Ensures (a >>= f) l Q ↔ Ensures a l fun r l' =>
      match r with
      | .ok x => Ensures (f x) l' Q
      | .error e => Q (.error e) l' := by
  have hrun : (a >>= f) l = ExceptT.bindCont f (a l).1 (a l).2 := rfl
  cases ha : (a l).1 <;> simp only [Ensures, hrun, ha] <;> rfl

theorem Ensures.bind {a : Action κ ω α} {f : α → Action κ ω β} {l : Live κ ω}
    {Q : Except Failure α → Live κ ω → Prop} {R : Except Failure β → Live κ ω → Prop}
    (ha : Ensures a l Q) (hok : ∀ x l', Q (.ok x) l' → Ensures (f x) l' R)
    (herror : ∀ e l', Q (.error e) l' → R (.error e) l') : Ensures (a >>= f) l R := by
  apply ensures_bind.2
  apply ha.imp
  intro r l' hr
  cases r with
  | ok x => exact hok x l' hr
  | error e => exact herror e l' hr

/-- An action that does not fail hands on its value. -/
theorem Ensures.bind_ok {a : Action κ ω α} {f : α → Action κ ω β} {l : Live κ ω} {x : α}
    {Q : Live κ ω → Prop} {R : Except Failure β → Live κ ω → Prop}
    (ha : Ensures a l fun r l' => r = .ok x ∧ Q l')
    (hok : ∀ l', Q l' → Ensures (f x) l' R) : Ensures (a >>= f) l R := by
  refine ha.bind ?_ ?_
  · intro _ l' hl'
    obtain ⟨hx, hl'⟩ := hl'
    cases hx
    exact hok l' hl'
  · intro _ _ hr
    obtain ⟨hx, _⟩ := hr
    cases hx

/-- What is looked at in the state is as before, however the action ends. -/
def Leaves (v : Live κ ω → γ) (a : Action κ ω α) : Prop := ∀ l, v (a l).2 = v l

theorem Leaves.bind {v : Live κ ω → γ} {a : Action κ ω α} {f : α → Action κ ω β}
    (ha : Leaves v a) (hf : ∀ x, Leaves v (f x)) : Leaves v (a >>= f) := by
  intro l
  have hfirst := ha l
  rcases hrun : a l with ⟨e | x, l'⟩ <;> rw [hrun] at hfirst
  · rw [bind_of_error hrun]
    exact hfirst
  · rw [bind_of_ok hrun]
    exact (hf x l').trans hfirst

theorem ensures_ite {c : Prop} [Decidable c] {a b : Action κ ω α} {l : Live κ ω}
    {Q : Except Failure α → Live κ ω → Prop} :
    Ensures (if c then a else b) l Q ↔ if c then Ensures a l Q else Ensures b l Q := by
  split <;> exact Iff.rfl

section
variable {l : Live κ ω} {Q : Except Failure α → Live κ ω → Prop}
  {U : Except Failure Unit → Live κ ω → Prop}

@[simp] theorem ensures_pure {x : α} : Ensures (pure x) l Q ↔ Q (.ok x) l := Iff.rfl

@[simp] theorem ensures_throw {e : Failure} : Ensures (throw e) l Q ↔ Q (.error e) l := Iff.rfl

@[simp] theorem ensures_session {Q : Except Failure (Session κ) → Live κ ω → Prop} :
    Ensures session l Q ↔ Q (.ok l.session) l := Iff.rfl

@[simp] theorem ensures_modifySession {f : Session κ → Session κ} :
    Ensures (modifySession f) l U ↔ U (.ok ()) { l with session := f l.session } := Iff.rfl

@[simp] theorem ensures_emit {es : List (Effect κ)} :
    Ensures (emit es) l U ↔ U (.ok ()) { l with history := es.reverse ++ l.history } := Iff.rfl

@[simp] theorem ensures_note {n : Notice} :
    Ensures (note n) l U ↔ U (.ok ()) { l with history := .noted n :: l.history } := Iff.rfl

@[simp] theorem ensures_call {f : ω → α × ω} :
    Ensures (call f) l Q ↔ Q (.ok (f l.world).1) { l with world := (f l.world).2 } := Iff.rfl

@[simp] theorem ensures_outcome {a : Action κ ω β}
    {Q : Except Failure (Except Failure β) → Live κ ω → Prop} :
    Ensures (outcome a) l Q ↔ Ensures a l fun r l' => Q (.ok r) l' := Iff.rfl

@[simp] theorem ensures_handle {h : Host ω} {now : Millis} {m : Message}
    {Q : Except Failure (Option Message) → Live κ ω → Prop} :
    Ensures (handle h now m) l Q ↔
      Q (.ok (l.session.endpoint.handle h.application now m l.world).reply)
        (l.after (l.session.endpoint.handle h.application now m l.world)) := Iff.rfl

@[simp] theorem ensures_now {h : Host ω} {during : Activity}
    {Q : Except Failure Millis → Live κ ω → Prop} :
    Ensures (now h during) l Q ↔
      Q ((h.now l.world).1.mapError fun cause => ⟨cause, during⟩)
        { l with world := (h.now l.world).2 } := by
  rw [now, ensures_bind, ensures_call]
  rcases (h.now l.world).1 with cause | now <;> exact Iff.rfl

theorem now_eq (h : Host ω) (during : Activity) (l : Live κ ω) :
    now h during l = ((h.now l.world).1.mapError fun cause => ⟨cause, during⟩,
      { l with world := (h.now l.world).2 }) :=
  (ensures_now (Q := fun r l' => (r, l') = ((h.now l.world).1.mapError _, _))).2 rfl

theorem now_of_error {h : Host ω} {cause : Cause} {w : ω}
    (hclock : h.now l.world = (.error cause, w)) (during : Activity) :
    now h during l = (.error ⟨cause, during⟩, { l with world := w }) := by
  rw [now_eq, hclock]
  rfl

theorem now_of_ok {h : Host ω} {t : Millis} {w : ω} (hclock : h.now l.world = (.ok t, w))
    (during : Activity) : now h during l = (.ok t, { l with world := w }) := by
  rw [now_eq, hclock]
  rfl

@[simp] theorem ensures_ensureToken {m : Message}
    {Q : Except Failure Message → Live κ ω → Prop} :
    Ensures (ensureToken m) l Q ↔
      Q (.ok { m with token := l.session.tokenFor m })
        (if m.token.isEmpty then
          { l with session := { l.session with tokens := l.session.tokens.nextToken.2 } }
        else l) := by
  unfold ensureToken tokenFor
  by_cases hempty : m.token.isEmpty
  · simp only [hempty, if_true, ensures_bind]
    exact Iff.rfl
  · simp only [hempty]
    exact Iff.rfl

@[simp] theorem ensures_register {m : Message} {delivery : Delivery κ} {now : Millis}
    {Q : Except Failure (Option MessageId) → Live κ ω → Prop} :
    Ensures (register m delivery now) l Q ↔
      Q (.ok (l.session.endpoint.exchanges.register m.token delivery now).1)
        { l with
          session := l.session.setExchanges
            (l.session.endpoint.exchanges.register m.token delivery now).2 } := Iff.rfl

end

end Action
end Coap.Session
