import Coap.Millis
import Coap.MessageId
import Std.Data.ExtTreeMap

/-! The ids of confirmable messages received of late. An id is remembered for one lifetime, so
that a message that comes again is acknowledged and not processed again. -/
namespace Coap

structure Dedup where
  lifetime : Millis
  /-- When each id may be forgotten. -/
  seen : Std.ExtTreeMap MessageId Millis := ∅

namespace Dedup

def contains (d : Dedup) (id : MessageId) : Bool := d.seen.contains id

/-- An id that is remembered already keeps its time. -/
def remember (d : Dedup) (id : MessageId) (now : Millis) : Dedup :=
  { d with seen := d.seen.insertIfNew id (Millis.add now d.lifetime) }

def forget (d : Dedup) (id : MessageId) : Dedup := { d with seen := d.seen.erase id }

/-- Forgets the ids whose time has come. -/
def sweep (d : Dedup) (now : Millis) : Dedup :=
  { d with seen := d.seen.filter fun _ expiry => now < expiry }

def size (d : Dedup) : Nat := d.seen.size

def isEmpty (d : Dedup) : Bool := d.seen.isEmpty

def clear (d : Dedup) : Dedup := { d with seen := ∅ }

end Dedup
end Coap
