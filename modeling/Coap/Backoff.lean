import Coap.Millis

/-! How the wait between retransmissions grows. -/
namespace Coap

inductive Backoff where
  | exponential
  | constant
  deriving DecidableEq

namespace Backoff

/-- A power of two as far as 64 bits hold it. -/
def factor (attempts : Nat) : Nat := if attempts < 64 then Nat.pow 2 attempts else Millis.top

/-- The wait after so many retransmissions. -/
def delay (b : Backoff) (ackTimeout : Millis) (attempts : Nat) : Millis :=
  match b with
  | exponential => Millis.mul ackTimeout (factor attempts)
  | constant => ackTimeout

/-- From the first transmission to the last of so many retransmissions. -/
def span (b : Backoff) (ackTimeout : Millis) (attempts : Nat) : Millis :=
  (List.range attempts).foldl (fun total n => Millis.add total (b.delay ackTimeout n)) 0

/-- What is left of so many attempts. -/
def left (attempts used : Nat) : Nat := attempts - used

theorem span_zero (b : Backoff) (t : Millis) : b.span t 0 = 0 := rfl

theorem span_succ (b : Backoff) (t : Millis) (n : Nat) :
    b.span t (n + 1) = Millis.add (b.span t n) (b.delay t n) := by
  simp [span, List.range_succ]

end Backoff
end Coap
