import Coap.Options.Extended
import Coap.Options.Value

/-! One option, written relative to the number of the option before it. -/
namespace Coap

structure Entry where
  number : OptionNumber
  value : OptionValue
  deriving DecidableEq

/-- The octet that ends the options where a payload follows. -/
def payloadMarker : UInt8 := 0xFF

namespace Entry

/-- What stands in front of the value: a head octet, the extended delta and the extended length.
The length goes through a 32-bit word before its nibble is chosen. -/
def writeHead (previous : OptionNumber) (e : Entry) : Except Options.WriteError Bytes :=
  if e.number < previous then .error (.outOfOrder previous e.number)
  else
    let delta := e.number.toNat - previous.toNat
    match Extended.write delta with
    | none => .error (.deltaTooLarge delta)
    | some (deltaNibble, deltaBytes) =>
      match Extended.write (e.value.size % UInt32.size) with
      | none => .error (.valueTooLong e.value.size)
      | some (lengthNibble, lengthBytes) =>
        .ok (UInt8.ofNat (deltaNibble * 16 + lengthNibble) :: deltaBytes ++ lengthBytes)

def write (previous : OptionNumber) (e : Entry) : Except Options.WriteError Bytes :=
  (e.writeHead previous).map (· ++ e.value.toBytes)

/-- The first octets, if there are enough of them, and the rest. -/
def split? (n : Nat) (bs : Bytes) : Option (Bytes × Bytes) :=
  let front := bs.take n
  if front.length = n then some (front, bs.drop n) else none

/-- The option `delta` after the previous one, with the value that its number prescribes. -/
def ofDelta (previous : OptionNumber) (delta : Nat) (octets : Bytes) :
    Except Options.ReadError Entry :=
  if previous.toNat + delta < UInt32.size then
    match OptionValue.read (OptionNumber.format (UInt32.ofNat (previous.toNat + delta))) octets with
    | .error e => .error e
    | .ok value => .ok ⟨UInt32.ofNat (previous.toNat + delta), value⟩
  else .error (.numberOverflow previous delta)

/-- The option after a head octet: extended delta, extended length, value. The value's octets
are taken before its number is known to fit. -/
def readBody (previous : OptionNumber) (head : UInt8) (bs : Bytes) :
    Except Options.ReadError (Entry × Bytes) :=
  match Extended.read (head.toNat / 16) bs (.reservedDelta 15) with
  | .error e => .error e
  | .ok (delta, bs) =>
    match Extended.read (head.toNat % 16) bs (.reservedLength 15) with
    | .error e => .error e
    | .ok (length, bs) =>
      match split? length bs with
      | none => .error (.valueRunsPastEnd length bs.length)
      | some (octets, rest) =>
        match ofDelta previous delta octets with
        | .error e => .error e
        | .ok entry => .ok (entry, rest)

/-- The next option and the octets after it. -/
def read (previous : OptionNumber) : Bytes → Except Options.ReadError (Entry × Bytes)
  | [] => .error .exhausted
  | head :: bs => if head = payloadMarker then .error .exhausted else readBody previous head bs

theorem length_le_of_split? {n : Nat} {bs front rest : Bytes}
    (h : split? n bs = some (front, rest)) : rest.length ≤ bs.length := by
  simp only [split?] at h
  split at h
  · cases h
    rw [List.length_drop]
    omega
  · cases h

theorem le_number_of_ofDelta {previous : OptionNumber} {delta : Nat} {octets : Bytes} {e : Entry}
    (h : ofDelta previous delta octets = .ok e) : previous ≤ e.number := by
  unfold ofDelta at h
  split at h
  · rename_i hlt
    split at h
    · cases h
    · cases h
      rw [UInt32.le_iff_toNat_le, UInt32.toNat_ofNat_of_lt' hlt]
      omega
  · cases h

theorem of_readBody {previous : OptionNumber} {head : UInt8} {bs rest : Bytes}
    {e : Entry} (h : readBody previous head bs = .ok (e, rest)) :
    rest.length ≤ bs.length ∧ previous ≤ e.number := by
  unfold readBody at h
  split at h
  · cases h
  · rename_i h₁
    split at h
    · cases h
    · rename_i h₂
      split at h
      · cases h
      · rename_i h₃
        split at h
        · cases h
        · rename_i h₄
          cases h
          exact ⟨Nat.le_trans (length_le_of_split? h₃)
            (Nat.le_trans (Extended.length_le_of_read h₂) (Extended.length_le_of_read h₁)),
            le_number_of_ofDelta h₄⟩

theorem length_lt_of_read {previous : OptionNumber} {bs rest : Bytes} {e : Entry}
    (h : read previous bs = .ok (e, rest)) : rest.length < bs.length := by
  cases bs with
  | nil => cases h
  | cons head bs =>
    simp only [read] at h
    split at h
    · cases h
    · exact Nat.lt_succ_of_le (of_readBody h).1

/-- Numbers never fall from one option to the next. -/
theorem le_number_of_read {previous : OptionNumber} {bs rest : Bytes} {e : Entry}
    (h : read previous bs = .ok (e, rest)) : previous ≤ e.number := by
  cases bs with
  | nil => cases h
  | cons head bs =>
    simp only [read] at h
    split at h
    · cases h
    · exact (of_readBody h).2

end Entry
end Coap
