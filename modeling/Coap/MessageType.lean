/-! Message types: how delivery of a message is secured. -/
namespace Coap

inductive MessageType where
  /-- To be acknowledged or reset by the peer. -/
  | confirmable
  | nonConfirmable
  | acknowledgement
  | reset
  deriving DecidableEq

namespace MessageType

def toNat : MessageType → Nat
  | confirmable => 0
  | nonConfirmable => 1
  | acknowledgement => 2
  | reset => 3

def ofNat? : Nat → Option MessageType
  | 0 => some confirmable
  | 1 => some nonConfirmable
  | 2 => some acknowledgement
  | 3 => some reset
  | _ => none

/-- The type in the low two bits. -/
def ofBits (n : Nat) : MessageType :=
  match n % 4 with
  | 0 => confirmable
  | 1 => nonConfirmable
  | 2 => acknowledgement
  | _ => reset

def name : MessageType → String
  | confirmable => "Con"
  | nonConfirmable => "Non"
  | acknowledgement => "Ack"
  | reset => "Reset"

theorem ofNat?_toNat (t : MessageType) : ofNat? t.toNat = some t := by cases t <;> rfl

theorem toNat_lt (t : MessageType) : t.toNat < 4 := by cases t <;> decide

end MessageType
end Coap
