/-! Option numbers: which option a value belongs to, and how one that is unknown is treated. -/
namespace Coap

abbrev OptionNumber := UInt32

/-- The kind of value that an option's number prescribes. -/
inductive ValueFormat where
  | empty
  | blob
  | uint
  | text
  deriving DecidableEq

namespace OptionNumber

def ifMatch : OptionNumber := 1
def uriHost : OptionNumber := 3
def etag : OptionNumber := 4
def ifNoneMatch : OptionNumber := 5
def observe : OptionNumber := 6
def uriPort : OptionNumber := 7
def locationPath : OptionNumber := 8
def uriPath : OptionNumber := 11
def contentFormat : OptionNumber := 12
def maxAge : OptionNumber := 14
def uriQuery : OptionNumber := 15
def accept : OptionNumber := 17
def locationQuery : OptionNumber := 20
def proxyUri : OptionNumber := 35
def proxyScheme : OptionNumber := 39
def size1 : OptionNumber := 60
def noResponse : OptionNumber := 258

/-- A recipient that does not know a critical option has to refuse the message. -/
def isCritical (n : OptionNumber) : Bool := n.toNat % 2 == 1

/-- A proxy that does not know such an option may not pass it on. -/
def isUnsafeToForward (n : OptionNumber) : Bool := n.toNat / 2 % 2 == 1

/-- Safe to forward and not part of the cache key. -/
def isNoCacheKey (n : OptionNumber) : Bool := n.toNat / 2 % 16 == 14

def uintNumbers : List OptionNumber :=
  [observe, uriPort, contentFormat, maxAge, accept, size1, noResponse]

def textNumbers : List OptionNumber :=
  [uriHost, locationPath, uriPath, uriQuery, locationQuery, proxyUri, proxyScheme]

/-- Of a number that is not known the value is any octets. -/
def format (n : OptionNumber) : ValueFormat :=
  if n = ifNoneMatch then .empty
  else if n ∈ uintNumbers then .uint
  else if n ∈ textNumbers then .text
  else .blob

end OptionNumber

namespace ValueFormat

def name : ValueFormat → String
  | empty => "Empty"
  | blob => "Opaque"
  | uint => "Uint"
  | text => "String"

end ValueFormat
end Coap
