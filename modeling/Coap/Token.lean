import Coap.Bytes

/-! Tokens: up to eight octets that pair a request with its responses. -/
namespace Coap

def maxTokenLength : Nat := 8

structure Token where
  bytes : Bytes
  length_le : bytes.length ≤ maxTokenLength
  deriving DecidableEq

namespace Token

def empty : Token := ⟨[], by decide⟩

instance : Inhabited Token := ⟨empty⟩

def ofBytes? (bs : Bytes) : Option Token :=
  if h : bs.length ≤ maxTokenLength then some ⟨bs, h⟩ else none

/-- The first eight octets. -/
def take (bs : Bytes) : Token :=
  ⟨bs.take maxTokenLength, by rw [List.length_take]; omega⟩

def length (t : Token) : Nat := t.bytes.length

def isEmpty (t : Token) : Bool := t.bytes.isEmpty

def text (t : Token) : String := "Token(" ++ t.bytes.hex ++ ")"

/-- What refuses octets that are too many for a token. -/
structure TooLong where
  length : Nat
  deriving DecidableEq

def TooLong.message (e : TooLong) : String :=
  "token of " ++ toString e.length ++ " bytes exceeds the maximum of " ++ toString maxTokenLength

@[ext] theorem ext {s t : Token} (h : s.bytes = t.bytes) : s = t := by
  cases s; cases t; cases h; rfl

/-- Tokens are ordered as their octets are, the first that differs deciding. -/
instance : Ord Token := ⟨fun s t => compare s.bytes t.bytes⟩

instance : Std.TransOrd Token where
  eq_swap {s t} := Std.OrientedCmp.eq_swap (a := s.bytes) (b := t.bytes)
  isLE_trans {s t u} h h' :=
    Std.TransCmp.isLE_trans (a := s.bytes) (b := t.bytes) (c := u.bytes) h h'

instance : Std.LawfulEqOrd Token where
  compare_self {s} := Std.ReflCmp.compare_self (a := s.bytes)
  eq_of_compare h := ext (Std.LawfulEqCmp.eq_of_compare h)

end Token
end Coap
