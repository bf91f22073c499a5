/-! Decimal numerals for 16-bit words. -/
namespace Coap.Text

def digitValue (c : Char) : Nat := c.toNat - '0'.toNat

def numeral (digits : List Char) : Nat :=
  digits.foldl (fun n c => 10 * n + digitValue c) 0

/-- One plus sign may lead; then come one or more ASCII digits, with any number of zeros in
front, of a value below 2^16. -/
def word16? (s : List Char) : Option UInt16 :=
  let digits := match s with
    | '+' :: rest => rest
    | _ => s
  if digits.isEmpty || !digits.all Char.isDigit then none
  else if numeral digits < 65536 then some (UInt16.ofNat (numeral digits))
  else none

end Coap.Text
