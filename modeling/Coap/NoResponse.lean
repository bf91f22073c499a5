import Coap.Code

/-! The No-Response option: a mask of the response classes that a client does not want. -/
namespace Coap

structure NoResponse where
  mask : UInt8
  deriving DecidableEq

namespace NoResponse

/-- The bit of a class; classes other than 2, 4 and 5 have none. -/
def bit? (c : Code) : Option Nat :=
  if c.category = 2 then some 1
  else if c.category = 4 then some 3
  else if c.category = 5 then some 4
  else none

def suppresses (r : NoResponse) (c : Code) : Bool :=
  match bit? c with
  | some i => r.mask.toNat.testBit i
  | none => false

/-- The low octet of the option's value. -/
def ofUint (n : UInt32) : NoResponse := ⟨UInt8.ofNat (n.toNat % 256)⟩

def toUint (r : NoResponse) : UInt32 := UInt32.ofNat r.mask.toNat

end NoResponse
end Coap
