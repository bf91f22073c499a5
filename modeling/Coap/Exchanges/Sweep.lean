import Coap.Exchanges.Basic

/-! The sweep of the exchanges: requests that waited too long end, and messages that are due are
sent again or given up. -/
namespace Coap

/-- What a sweep does with a message. -/
inductive Retry.Verdict where
  | waiting
  | again (next : Retry)
  | givenUp
  deriving DecidableEq

/-- What a sweep wants done. -/
inductive Exchanges.Event where
  | retry (message : Message)
  | abandoned (id : MessageId) (token : Token)
  deriving DecidableEq

namespace Retry

/-- After one more transmission the next falls due a backoff later than this one did. -/
def advance (c : Config) (r : Retry) : Retry :=
  { r with
    attempts := r.attempts + 1
    due := Millis.add r.due (c.backoff.delay c.ackTimeout (r.attempts + 1)) }

def verdict (c : Config) (now : Millis) (r : Retry) : Verdict :=
  if now < r.due then .waiting
  else if c.maxRetransmit ≤ r.attempts then .givenUp
  else .again (r.advance c)

/-- What is left of the record. -/
def Verdict.next? (r : Retry) : Verdict → Option Retry
  | .waiting => some r
  | .again next => some next
  | .givenUp => none

def Verdict.event? (id : MessageId) (r : Retry) : Verdict → Option Exchanges.Event
  | .waiting => none
  | .again _ => some (.retry r.message)
  | .givenUp => some (.abandoned id r.message.token)

end Retry

namespace Exchanges

variable {κ : Type}

def verdict? (x : Exchanges κ) (now : Millis) (id : MessageId) : Option Retry.Verdict :=
  x.retries[id]?.map (·.verdict x.config now)

/-- Events come in the order of the ids. A message that is given up takes its request along. -/
def sweep (x : Exchanges κ) (now : Millis) : List Event × Exchanges κ :=
  (x.retries.toList.filterMap fun (id, r) => (r.verdict x.config now).event? id r,
    { x with
      pending := x.pending.filter fun id p => now < p.expiry && x.verdict? now id != some .givenUp
      retries := x.retries.filterMap fun _ r => (r.verdict x.config now).next? r })

end Exchanges
end Coap
