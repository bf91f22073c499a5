import Coap.Bytes
import Coap.Options.Error

/-! Option values and their octets. -/
namespace Coap

inductive OptionValue where
  | empty
  | uint (n : UInt32)
  | text (s : String)
  | blob (bytes : Bytes)
  deriving DecidableEq

instance : Inhabited OptionValue := ⟨.empty⟩

namespace OptionValue

/-- The UTF-8 octets of a text. -/
def utf8 (s : String) : Bytes := s.toByteArray.data.toList

def ofUtf8? (bs : Bytes) : Option String := String.fromUTF8? ⟨bs.toArray⟩

/-- A number is written without leading zeros, so zero takes no octets. -/
def toBytes : OptionValue → Bytes
  | empty => []
  | uint n => Bytes.ofNat n.toNat
  | text s => utf8 s
  | blob bs => bs

/-- How many octets the value takes. -/
def size : OptionValue → Nat
  | empty => 0
  | uint n => (Bytes.ofNat n.toNat).length
  | text s => s.utf8ByteSize
  | blob bs => bs.length

/-- An empty value that brings octets all the same is kept as octets. -/
def read (format : ValueFormat) (bs : Bytes) : Except Options.ReadError OptionValue :=
  match format with
  | .empty => .ok (if bs.isEmpty then .empty else .blob bs)
  | .blob => .ok (.blob bs)
  | .uint =>
    if bs.length > 4 then .error (.uintTooWide bs.length)
    else .ok (.uint (UInt32.ofNat (Bytes.toNat bs)))
  | .text =>
    match ofUtf8? bs with
    | some s => .ok (.text s)
    | none => .error .invalidText

def asUint? : OptionValue → Option UInt32
  | uint n => some n
  | _ => none

def asText? : OptionValue → Option String
  | text s => some s
  | _ => none

def asBlob? : OptionValue → Option Bytes
  | blob bs => some bs
  | _ => none

theorem length_utf8 (s : String) : (utf8 s).length = s.utf8ByteSize := by
  rw [← String.size_toByteArray]
  rfl

theorem size_eq (v : OptionValue) : v.size = v.toBytes.length := by
  cases v with
  | text s => exact (length_utf8 s).symm
  | _ => rfl

theorem ofUtf8?_utf8 (s : String) : ofUtf8? (utf8 s) = some s := by
  simp [ofUtf8?, utf8, String.fromUTF8?, String.fromUTF8, s.isValidUTF8]

theorem utf8_of_ofUtf8? {bs : Bytes} {s : String} (h : ofUtf8? bs = some s) : utf8 s = bs := by
  simp only [ofUtf8?, String.fromUTF8?, String.fromUTF8] at h
  split at h
  · cases h
    simp [utf8]
  · cases h

end OptionValue
end Coap
