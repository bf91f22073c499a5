import Coap.Message.Wire
import Coap.Proofs.Extended

/-!
# The format of a datagram

A datagram is laid out as a head octet, a code, two octets of an id, the token, options
in a row and, behind a marker, the payload. The layout and what it carries are described
here without a reader or a writer.
-/
namespace Coap

/-- Octets spell a value as the format of its number prescribes. -/
inductive OptionValue.Spelt : ValueFormat → Bytes → OptionValue → Prop
  | none : Spelt .empty [] .empty
  | unexpected {bs : Bytes} (h : bs ≠ []) : Spelt .empty bs (.blob bs)
  | blob (bs : Bytes) : Spelt .blob bs (.blob bs)
  | uint {bs : Bytes} {n : UInt32} (hl : bs.length ≤ 4) (hn : n.toNat = Bytes.toNat bs) :
    Spelt .uint bs (.uint n)
  | text (s : String) : Spelt .text (utf8 s) (.text s)

/-- One option as it stands in a datagram. -/
structure Piece where
  /-- The nibbles of the delta and of the length. -/
  head : UInt8
  /-- The octets that extend the delta. -/
  delta : Bytes
  /-- The octets that extend the length. -/
  extent : Bytes
  value : Bytes
  deriving DecidableEq

namespace Piece

def octets (p : Piece) : Bytes := p.head :: p.delta ++ p.extent ++ p.value

/-- The piece leads from one option number to the next, and it is as long as it says. -/
structure Leads (p : Piece) (previous number : OptionNumber) : Prop where
  gap : ∃ gap, Extended.Stands (p.head.toNat / 16) p.delta gap ∧
    number.toNat = previous.toNat + gap
  extent : Extended.Stands (p.head.toNat % 16) p.extent p.value.length

/-- The piece is the entry, where an option of number `previous` comes before it. -/
structure Carries (p : Piece) (previous : OptionNumber) (e : Entry) : Prop where
  leads : p.Leads previous e.number
  value : OptionValue.Spelt e.number.format p.value e.value

end Piece

/-- Pieces in a row are entries in a row. -/
inductive Options.Spelt : OptionNumber → List Piece → List Entry → Prop
  | nil (previous : OptionNumber) : Spelt previous [] []
  | cons {previous : OptionNumber} {p : Piece} {e : Entry} {ps : List Piece} {es : List Entry}
    (head : p.Carries previous e) (tail : Spelt e.number ps es) :
    Spelt previous (p :: ps) (e :: es)

/-- A datagram taken apart. -/
structure Layout where
  head : UInt8
  code : UInt8
  idHigh : UInt8
  idLow : UInt8
  token : Bytes
  pieces : List Piece
  /-- None without a marker. -/
  payload : Option Bytes
  deriving DecidableEq

namespace Layout

/-- The marker and the payload behind it, or nothing. -/
def ending : Option Bytes → Bytes
  | none => []
  | some payload => payloadMarker :: payload

def octets (l : Layout) : Bytes :=
  l.head :: l.code :: l.idHigh :: l.idLow ::
    (l.token ++ (l.pieces.flatMap Piece.octets ++ ending l.payload))

/-- The parts are in range, and the message has exactly them. -/
structure Carries (l : Layout) (m : Message) : Prop where
  version : l.head.toNat / 64 = 1
  short : l.head.toNat % 16 ≤ 8
  tokenLength : l.token.length = l.head.toNat % 16
  messageVersion : m.version = 1
  type : m.type.toNat = l.head.toNat / 16 % 4
  category : m.code.category.toNat = l.code.toNat / 32
  detail : m.code.detail.toNat = l.code.toNat % 32
  id : m.id.toNat = l.idHigh.toNat * 256 + l.idLow.toNat
  token : m.token.bytes = l.token
  options : Options.Spelt 0 l.pieces m.options.entries
  payload : m.payload = l.payload.getD []

end Layout
end Coap
