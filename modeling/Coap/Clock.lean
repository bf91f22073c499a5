import Coap.Millis

/-! Clocks that count ticks of a fraction of a second. -/
namespace Coap

/-- The length of a tick in seconds. -/
structure TickUnit where
  numerator : Nat
  denominator : Nat
  deriving DecidableEq

namespace TickUnit

def minute : TickUnit := ⟨60, 1⟩
def second : TickUnit := ⟨1, 1⟩
def millisecond : TickUnit := ⟨1, 1000⟩
def microsecond : TickUnit := ⟨1, 1000000⟩
def nanosecond : TickUnit := ⟨1, 1000000000⟩

/-- Whole milliseconds. The ticks are first multiplied by the reduced fraction's numerator, and
that product has to fit in 64 bits. -/
def millis? (u : TickUnit) (ticks : Nat) : Option Millis :=
  let n := u.numerator * 1000
  let g := Nat.gcd n u.denominator
  let product := ticks * (n / g)
  if product ≤ Millis.top then some (product / (u.denominator / g)) else none

end TickUnit
end Coap
