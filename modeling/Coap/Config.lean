import Coap.Backoff

/-! What an endpoint can be set to, and the spans that follow from it. -/
namespace Coap

structure Config where
  /-- The wait before the first retransmission. -/
  ackTimeout : Millis := 2000
  maxRetransmit : Nat := 4
  backoff : Backoff := .exponential
  tokenSeed : UInt16 := 0
  tokenLength : Nat := 8
  sweepInterval : Millis := 1000
  /-- The silence after which a ping goes out, if any does. -/
  keepalive : Option Millis := none
  deriving DecidableEq

namespace Config

/-- The longest that a message may be retransmitted, with half of it added. -/
def maxTransmitSpan (c : Config) : Millis :=
  Millis.mul (c.backoff.span c.ackTimeout c.maxRetransmit) 3 / 2

/-- The longest that a datagram is under way. -/
def maxLatency (_ : Config) : Millis := 100000

/-- How long a peer may take to acknowledge. -/
def processingDelay (c : Config) : Millis := c.ackTimeout

/-- How long an id or a token stays in use. This sum starts again at zero where it exceeds 64 bits,
so a wait that is next to endless makes for a short lifetime. -/
def exchangeLifetime (c : Config) : Millis :=
  (c.maxTransmitSpan + 2 * c.maxLatency + c.processingDelay) % UInt64.size

example : exchangeLifetime {} = 247000 := by decide

example : exchangeLifetime { ackTimeout := 2 ^ 63 } = 199999 := by decide +kernel

end Config
end Coap
