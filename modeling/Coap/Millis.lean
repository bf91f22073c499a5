/-!
Times and spans in milliseconds, kept in 64 bits. The sums and products here stop at the top; only
the lifetime of an exchange is added up without that care (`Config.exchangeLifetime`).
-/
namespace Coap

abbrev Millis := Nat

namespace Millis

/-- The last time there is. -/
def top : Millis := UInt64.size - 1

def add (a b : Millis) : Millis := min (a + b) top

def mul (a b : Millis) : Millis := min (a * b) top

end Millis
end Coap
