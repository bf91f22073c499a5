import Coap.Bytes
import Coap.Options.Error

/-! The extended nibble code of option deltas and lengths: a nibble below 13 stands for itself,
13 for one more octet plus 13, 14 for two more plus 269, and 15 is reserved. -/
namespace Coap.Extended

/-- The nibble and the octets that follow it; none beyond the largest number carried. -/
def write (n : Nat) : Option (Nat × Bytes) :=
  if n < 13 then some (n, [])
  else if n < 269 then some (13, [UInt8.ofNat (n - 13)])
  else if n ≤ maxExtended then some (14, Bytes.ofWord16 (UInt16.ofNat (n - 269)))
  else none

/-- The number, and the octets left after its own. -/
def read (nibble : Nat) (bs : Bytes) (reserved : Options.ReadError) :
    Except Options.ReadError (Nat × Bytes) :=
  if nibble < 13 then .ok (nibble, bs)
  else if nibble = 13 then
    match bs with
    | b :: rest => .ok (b.toNat + 13, rest)
    | [] => .error .endOfInput
  else if nibble = 14 then
    match bs with
    | hi :: lo :: rest => .ok ((Bytes.word16 hi lo).toNat + 269, rest)
    | _ => .error .endOfInput
  else .error reserved

theorem length_le_of_read {nibble n : Nat} {bs rest : Bytes} {reserved : Options.ReadError}
    (h : read nibble bs reserved = .ok (n, rest)) : rest.length ≤ bs.length := by
  unfold read at h
  split at h
  · cases h; exact Nat.le_refl _
  · split at h
    · split at h
      · cases h; simp
      · cases h
    · split at h
      · split at h
        · cases h; simp; omega
        · cases h
      · cases h

end Coap.Extended
