/-! Message codes: a class and a detail, packed into three and five bits on the wire. -/
namespace Coap

/-- What a code says of the message that carries it. -/
inductive CodeKind where
  | empty
  | request
  | response
  deriving DecidableEq

/-- Either part may lie outside its range on the wire; writing keeps the low bits. -/
structure Code where
  category : UInt8
  detail : UInt8
  deriving DecidableEq

/-- The requests an application answers. -/
inductive Method where
  | get
  | post
  | put
  | delete
  deriving DecidableEq

namespace CodeKind

def name : CodeKind → String
  | empty => "Empty"
  | request => "Request"
  | response => "Response"

end CodeKind

namespace Code

/-- Code 0.00. -/
def empty : Code := ⟨0, 0⟩

def ofByte (b : UInt8) : Code := ⟨UInt8.ofNat (b.toNat / 32), UInt8.ofNat (b.toNat % 32)⟩

def toByte (c : Code) : UInt8 :=
  UInt8.ofNat (c.category.toNat % 8 * 32 + c.detail.toNat % 32)

/-- The part of a code that survives the wire. -/
def truncate (c : Code) : Code :=
  ⟨UInt8.ofNat (c.category.toNat % 8), UInt8.ofNat (c.detail.toNat % 32)⟩

/-- The decimal form, 205 for 2.05. -/
def toNumber (c : Code) : Nat := c.category.toNat * 100 + c.detail.toNat

/-- Refuses a class or a detail that the wire cannot carry. -/
def ofNumber? (n : Nat) : Option Code :=
  if n / 100 < 8 ∧ n % 100 < 32 then some ⟨UInt8.ofNat (n / 100), UInt8.ofNat (n % 100)⟩
  else none

/-- The last decimal digit. -/
def lastDigit (n : Nat) : Char := Char.ofNat (48 + n % 10)

/-- Always four characters: of larger parts the last digits are shown. -/
def text (c : Code) : String :=
  String.ofList [lastDigit c.category.toNat, '.', lastDigit (c.detail.toNat / 10),
    lastDigit c.detail.toNat]

def kind (c : Code) : CodeKind :=
  if c.category ≠ 0 then .response
  else if c.detail = 0 then .empty
  else .request

def isSuccess (c : Code) : Bool := c.category == 2

def isClientError (c : Code) : Bool := c.category == 4

def isServerError (c : Code) : Bool := c.category == 5

/-- None for a request code that is not one of the four methods. -/
def method? (c : Code) : Option Method :=
  if c = ⟨0, 1⟩ then some .get
  else if c = ⟨0, 2⟩ then some .post
  else if c = ⟨0, 3⟩ then some .put
  else if c = ⟨0, 4⟩ then some .delete
  else none

theorem ofByte_toByte (c : Code) : ofByte c.toByte = c.truncate := by
  have e : (c.category.toNat % 8 * 32 + c.detail.toNat % 32) % 256 =
      c.category.toNat % 8 * 32 + c.detail.toNat % 32 := by omega
  simp only [ofByte, toByte, truncate, UInt8.toNat_ofNat', Nat.reducePow, e]
  congr 2 <;> omega

theorem toByte_ofByte (b : UInt8) : (ofByte b).toByte = b := by
  have := b.toNat_lt
  apply UInt8.toNat_inj.1
  simp only [ofByte, toByte, UInt8.toNat_ofNat']
  omega

end Code

namespace Method

def code : Method → Code
  | get => ⟨0, 1⟩
  | post => ⟨0, 2⟩
  | put => ⟨0, 3⟩
  | delete => ⟨0, 4⟩

def name : Method → String
  | get => "Get"
  | post => "Post"
  | put => "Put"
  | delete => "Delete"

end Method
end Coap
