/-!
# SHA-256

The message is filled up to whole blocks of 64 bytes, each block is stretched to a
schedule of 64 words, and 64 rounds mix each word of it into a state of eight.
-/

namespace TicketPool.Sha256

/-- The first 32 bits of the fractions of the cube roots of the first 64 primes. -/
def roundConstants : List UInt32 :=
  [0x428a2f98, 0x71374491, 0xb5c0fbcf, 0xe9b5dba5, 0x3956c25b, 0x59f111f1, 0x923f82a4,
    0xab1c5ed5, 0xd807aa98, 0x12835b01, 0x243185be, 0x550c7dc3, 0x72be5d74, 0x80deb1fe,
    0x9bdc06a7, 0xc19bf174, 0xe49b69c1, 0xefbe4786, 0x0fc19dc6, 0x240ca1cc, 0x2de92c6f,
    0x4a7484aa, 0x5cb0a9dc, 0x76f988da, 0x983e5152, 0xa831c66d, 0xb00327c8, 0xbf597fc7,
    0xc6e00bf3, 0xd5a79147, 0x06ca6351, 0x14292967, 0x27b70a85, 0x2e1b2138, 0x4d2c6dfc,
    0x53380d13, 0x650a7354, 0x766a0abb, 0x81c2c92e, 0x92722c85, 0xa2bfe8a1, 0xa81a664b,
    0xc24b8b70, 0xc76c51a3, 0xd192e819, 0xd6990624, 0xf40e3585, 0x106aa070, 0x19a4c116,
    0x1e376c08, 0x2748774c, 0x34b0bcb5, 0x391c0cb3, 0x4ed8aa4a, 0x5b9cca4f, 0x682e6ff3,
    0x748f82ee, 0x78a5636f, 0x84c87814, 0x8cc70208, 0x90befffa, 0xa4506ceb, 0xbef9a3f7,
    0xc67178f2]

/-- The eight words of the state. -/
structure State where
  a : UInt32
  b : UInt32
  c : UInt32
  d : UInt32
  e : UInt32
  f : UInt32
  g : UInt32
  h : UInt32
deriving DecidableEq, Repr

/-- The first 32 bits of the fractions of the square roots of the first eight primes. -/
def State.initial : State :=
  ⟨0x6a09e667, 0xbb67ae85, 0x3c6ef372, 0xa54ff53a, 0x510e527f, 0x9b05688c, 0x1f83d9ab,
    0x5be0cd19⟩

def rotate (x n : UInt32) : UInt32 :=
  x >>> n ||| x <<< (32 - n)

/-- The word that four bytes make up, the first of them the highest. -/
def word (a b c d : UInt8) : UInt32 :=
  a.toUInt32 <<< 24 ||| b.toUInt32 <<< 16 ||| c.toUInt32 <<< 8 ||| d.toUInt32

/-- The bytes of a word, the highest first. -/
def bytesOfWord (w : UInt32) : List UInt8 :=
  [(w >>> 24).toUInt8, (w >>> 16).toUInt8, (w >>> 8).toUInt8, w.toUInt8]

def words : List UInt8 → List UInt32
  | a :: b :: c :: d :: rest => word a b c d :: words rest
  | _ => []

/-- The lowest `count` bytes of a number, the highest first. -/
def bigEndian (count n : Nat) : List UInt8 :=
  ((List.range count).map fun i ↦ UInt8.ofNat (n >>> (8 * i))).reverse

/-- The message, a bit of one, bits of zero, and the message's length in bits, together
whole blocks. -/
def pad (message : List UInt8) : List UInt8 :=
  message ++ 0x80 :: List.replicate ((119 - message.length % 64) % 64) 0 ++
    bigEndian 8 (8 * message.length)

/-- The words of a message's blocks, sixteen each. -/
def blocks (ws : List UInt32) : List (List UInt32) :=
  match ws with
  | [] => []
  | w :: rest => (w :: rest.take 15) :: blocks (rest.drop 15)
termination_by ws.length
decreasing_by simp only [List.length_drop, List.length_cons]; omega

/-- The next word of a schedule, from the words before it, last first. -/
def nextWord : List UInt32 → UInt32
  | _ :: w2 :: _ :: _ :: _ :: _ :: w7 :: _ :: _ :: _ :: _ :: _ :: _ :: _ :: w15 :: w16 :: _ =>
    let s0 := rotate w15 7 ^^^ rotate w15 18 ^^^ w15 >>> 3
    let s1 := rotate w2 17 ^^^ rotate w2 19 ^^^ w2 >>> 10
    w16 + s0 + w7 + s1
  | _ => 0

/-- Adds words to a schedule, kept last first. -/
def extend (schedule : List UInt32) : Nat → List UInt32
  | 0 => schedule
  | more + 1 => extend (nextWord schedule :: schedule) more

/-- The 64 words of a block's schedule. -/
def schedule (block : List UInt32) : List UInt32 :=
  (extend block.reverse 48).reverse

def State.round (s : State) (constant w : UInt32) : State :=
  let s1 := rotate s.e 6 ^^^ rotate s.e 11 ^^^ rotate s.e 25
  let choice := (s.e &&& s.f) ^^^ (~~~s.e &&& s.g)
  let t1 := s.h + s1 + choice + constant + w
  let s0 := rotate s.a 2 ^^^ rotate s.a 13 ^^^ rotate s.a 22
  let majority := (s.a &&& s.b) ^^^ (s.a &&& s.c) ^^^ (s.b &&& s.c)
  ⟨t1 + (s0 + majority), s.a, s.b, s.c, s.d + t1, s.e, s.f, s.g⟩

def State.add (s t : State) : State :=
  ⟨s.a + t.a, s.b + t.b, s.c + t.c, s.d + t.d, s.e + t.e, s.f + t.f, s.g + t.g, s.h + t.h⟩

def State.compress (s : State) (block : List UInt32) : State :=
  s.add <| (roundConstants.zip (schedule block)).foldl (fun s (k, w) ↦ s.round k w) s

def State.bytes (s : State) : List UInt8 :=
  [s.a, s.b, s.c, s.d, s.e, s.f, s.g, s.h].flatMap bytesOfWord

/-- The 32 bytes of a message's hash. -/
def hash (message : List UInt8) : List UInt8 :=
  ((blocks (words (pad message))).foldl State.compress State.initial).bytes

def hex (bytes : List UInt8) : String :=
  String.ofList <| bytes.flatMap fun b ↦
    [Nat.digitChar (b.toNat / 16), Nat.digitChar (b.toNat % 16)]

end TicketPool.Sha256
