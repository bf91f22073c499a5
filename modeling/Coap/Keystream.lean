import Coap.Bytes

/-! A keystream of 32-bit words: ChaCha with eight rounds, a 64-bit block counter and no nonce,
under a key expanded from a 64-bit seed. -/
namespace Coap

/-- The generator hands out the words of the numbered blocks in order. -/
structure Keystream where
  key : List UInt32
  /-- How many words were handed out. -/
  position : Nat
  deriving DecidableEq

namespace Keystream

def rotateLeft (x : UInt32) (n : UInt32) : UInt32 := (x <<< n) ||| (x >>> (32 - n))

def rotateRight (x : UInt32) (n : UInt32) : UInt32 := (x >>> n) ||| (x <<< ((32 - n) % 32))

/-- One step of the seed's expansion: a linear congruence, then a permuted word of its state. -/
def seedStep (state : UInt64) : UInt32 × UInt64 :=
  let state := state * 6364136223846793005 + 11634580027462260723
  let x := (((state >>> 18) ^^^ state) >>> 27).toUInt32
  (rotateRight x (state >>> 59).toUInt32, state)

def expand : Nat → UInt64 → List UInt32
  | 0, _ => []
  | n + 1, state =>
    let (word, state) := seedStep state
    word :: expand n state

def ofSeed (seed : UInt64) : Keystream := ⟨expand 8 seed, 0⟩

def quarterRound (s : List UInt32) (a b c d : Nat) : List UInt32 :=
  let add (s : List UInt32) (i j : Nat) := s.set i (s.getD i 0 + s.getD j 0)
  let mix (s : List UInt32) (i j : Nat) (n : UInt32) :=
    s.set i (rotateLeft (s.getD i 0 ^^^ s.getD j 0) n)
  let s := mix (add s a b) d a 16
  let s := mix (add s c d) b c 12
  let s := mix (add s a b) d a 8
  mix (add s c d) b c 7

/-- Four columns, then four diagonals. -/
def doubleRound (s : List UInt32) : List UInt32 :=
  let s := quarterRound s 0 4 8 12
  let s := quarterRound s 1 5 9 13
  let s := quarterRound s 2 6 10 14
  let s := quarterRound s 3 7 11 15
  let s := quarterRound s 0 5 10 15
  let s := quarterRound s 1 6 11 12
  let s := quarterRound s 2 7 8 13
  quarterRound s 3 4 9 14

def initial (key : List UInt32) (counter : Nat) : List UInt32 :=
  [0x61707865, 0x3320646e, 0x79622d32, 0x6b206574] ++ key ++
    [UInt32.ofNat (counter % UInt32.size), UInt32.ofNat (counter / UInt32.size), 0, 0]

def block (key : List UInt32) (counter : Nat) : List UInt32 :=
  let start := initial key counter
  let mixed := doubleRound (doubleRound (doubleRound (doubleRound start)))
  mixed.zipWith (· + ·) start

/-- The word at a position of the stream. -/
def word (key : List UInt32) (position : Nat) : UInt32 :=
  (block key (position / 16)).getD (position % 16) 0

def next (s : Keystream) : UInt32 × Keystream :=
  (word s.key s.position, { s with position := s.position + 1 })

/-- Low octet first. -/
def octets (w : UInt32) : Bytes :=
  [w.toUInt8, (w >>> 8).toUInt8, (w >>> 16).toUInt8, (w >>> 24).toUInt8]

/-- The octets of so many words. -/
def take : Nat → Keystream → Bytes × Keystream
  | 0, s => ([], s)
  | n + 1, s =>
    let (w, s) := s.next
    let (bs, s) := take n s
    (octets w ++ bs, s)

end Keystream
end Coap
