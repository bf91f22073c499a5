/-! The Observe option: zero registers an observer, any other value deregisters it. -/
namespace Coap

inductive Observe where
  | register
  | deregister
  deriving DecidableEq

namespace Observe

def ofUint (n : UInt32) : Observe := if n = 0 then register else deregister

def toUint : Observe → UInt32
  | register => 0
  | deregister => 1

def ofBool : Bool → Observe
  | true => register
  | false => deregister

def isRegister : Observe → Bool
  | register => true
  | deregister => false

def name : Observe → String
  | register => "Register"
  | deregister => "Deregister"

end Observe
end Coap
