import Coap.Options.Number

/-! Why options cannot be read from octets or written to them. -/
namespace Coap

/-- The largest delta or length that the extended nibble code carries. -/
def maxExtended : Nat := 65804

namespace Options

inductive ReadError where
  | endOfInput
  | valueRunsPastEnd (declared remaining : Nat)
  | reservedDelta (nibble : Nat)
  | reservedLength (nibble : Nat)
  | numberOverflow (previous : OptionNumber) (delta : Nat)
  | invalidText
  | uintTooWide (length : Nat)
  /-- The input ended, or the payload marker came, where an option would begin. -/
  | exhausted
  deriving DecidableEq

def ReadError.message : ReadError → String
  | endOfInput => "option ended unexpectedly"
  | valueRunsPastEnd declared remaining =>
    "option value of " ++ toString declared ++ " bytes runs past the " ++ toString remaining ++
      " bytes remaining"
  | reservedDelta nibble => "option delta nibble " ++ toString nibble ++ " is reserved"
  | reservedLength nibble => "option length nibble " ++ toString nibble ++ " is reserved"
  | numberOverflow previous delta =>
    "option delta " ++ toString delta ++ " after option " ++ toString previous.toNat ++ " overflows"
  | invalidText => "string option was not valid utf-8"
  | uintTooWide length => "uint option of " ++ toString length ++ " bytes is wider than 4"
  | exhausted => "no more options"

inductive WriteError where
  | deltaTooLarge (delta : Nat)
  | valueTooLong (length : Nat)
  | outOfOrder (previous number : OptionNumber)
  deriving DecidableEq

def WriteError.message : WriteError → String
  | deltaTooLarge delta =>
    "option delta " ++ toString delta ++ " exceeds " ++ toString maxExtended
  | valueTooLong length =>
    "option value of " ++ toString length ++ " bytes exceeds " ++ toString maxExtended
  | outOfOrder previous number =>
    "option " ++ toString number.toNat ++ " written after option " ++ toString previous.toNat

end Options
end Coap
