import Coap.Config
import Coap.Keystream
import Coap.MessageId
import Coap.Token

/-! Fresh tokens, and the id from which a session starts to count. -/
namespace Coap

structure TokenGenerator where
  stream : Keystream
  /-- The length of the tokens; above eight it counts as eight. -/
  length : Nat
  deriving DecidableEq

namespace TokenGenerator

/-- The seed's word fills the top bits, and the time of creation goes over it. -/
def seed (c : Config) (now : Millis) : UInt64 :=
  (UInt64.ofNat c.tokenSeed.toNat <<< 48) ^^^ UInt64.ofNat now

def new (c : Config) (now : Millis) : TokenGenerator :=
  ⟨Keystream.ofSeed (seed c now), c.tokenLength⟩

/-- A token uses up whole words. -/
def nextToken (g : TokenGenerator) : Token × TokenGenerator :=
  let length := min g.length maxTokenLength
  let (bs, stream) := Keystream.take ((length + 3) / 4) g.stream
  (Token.take (bs.take length), { g with stream })

/-- The low 16 bits of a word. -/
def nextId (g : TokenGenerator) : MessageId × TokenGenerator :=
  let (w, stream) := g.stream.next
  (UInt16.ofNat (w.toNat % 65536), { g with stream })

end TokenGenerator
end Coap
