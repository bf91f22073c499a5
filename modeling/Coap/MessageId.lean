/-! Message ids: they pair a confirmable message with its acknowledgement. -/
namespace Coap

abbrev MessageId := UInt16

namespace MessageId

/-- Ids run from 1 to 65535 and then from 1 again. -/
def next (id : MessageId) : MessageId := if id = 65535 then 1 else id + 1

def text (id : MessageId) : String := "Id(" ++ toString id.toNat ++ ")"

theorem toNat_next (id : MessageId) : id.next.toNat = id.toNat % 65535 + 1 := by
  have hlt := id.toNat_lt
  unfold next
  split
  · rename_i hlast
    rw [hlast]
    rfl
  · rename_i hlast
    have hne : id.toNat ≠ 65535 := fun h => hlast (UInt16.toNat_inj.1 h)
    rw [UInt16.toNat_add]
    have hone : (1 : UInt16).toNat = 1 := rfl
    omega

end MessageId
end Coap
