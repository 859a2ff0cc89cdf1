/-! # SHA-256 -/

namespace MapCatalog

namespace Sha256

/-- The words that a digest starts from: the first bits of the fractions of the square roots of the
first eight primes. -/
def initial : List UInt32 :=
  [0x6a09e667, 0xbb67ae85, 0x3c6ef372, 0xa54ff53a,
   0x510e527f, 0x9b05688c, 0x1f83d9ab, 0x5be0cd19]

/-- The words that the rounds add: the first bits of the fractions of the cube roots of the first
sixty-four primes. -/
def roundWords : List UInt32 :=
  [0x428a2f98, 0x71374491, 0xb5c0fbcf, 0xe9b5dba5,
   0x3956c25b, 0x59f111f1, 0x923f82a4, 0xab1c5ed5,
   0xd807aa98, 0x12835b01, 0x243185be, 0x550c7dc3,
   0x72be5d74, 0x80deb1fe, 0x9bdc06a7, 0xc19bf174,
   0xe49b69c1, 0xefbe4786, 0x0fc19dc6, 0x240ca1cc,
   0x2de92c6f, 0x4a7484aa, 0x5cb0a9dc, 0x76f988da,
   0x983e5152, 0xa831c66d, 0xb00327c8, 0xbf597fc7,
   0xc6e00bf3, 0xd5a79147, 0x06ca6351, 0x14292967,
   0x27b70a85, 0x2e1b2138, 0x4d2c6dfc, 0x53380d13,
   0x650a7354, 0x766a0abb, 0x81c2c92e, 0x92722c85,
   0xa2bfe8a1, 0xa81a664b, 0xc24b8b70, 0xc76c51a3,
   0xd192e819, 0xd6990624, 0xf40e3585, 0x106aa070,
   0x19a4c116, 0x1e376c08, 0x2748774c, 0x34b0bcb5,
   0x391c0cb3, 0x4ed8aa4a, 0x5b9cca4f, 0x682e6ff3,
   0x748f82ee, 0x78a5636f, 0x84c87814, 0x8cc70208,
   0x90befffa, 0xa4506ceb, 0xbef9a3f7, 0xc67178f2]

def rotateRight (x : UInt32) (places : UInt32) : UInt32 :=
  (x >>> places) ||| (x <<< (32 - places))

def bigEndian : Nat → Nat → List UInt8
  | 0, _ => []
  | count + 1, n => bigEndian count (n / 256) ++ [UInt8.ofNat n]

def zeroCount (length : Nat) : Nat :=
  (119 - length % 64) % 64

/-- A message with its end mark and its length in bits. -/
def pad (message : List UInt8) : List UInt8 :=
  message ++ 0x80 :: (List.replicate (zeroCount message.length) 0 ++
    bigEndian 8 (8 * message.length))

def words : List UInt8 → List UInt32
  | a :: b :: c :: d :: rest =>
      ((a.toUInt32 <<< 24) ||| (b.toUInt32 <<< 16) ||| (c.toUInt32 <<< 8) ||| d.toUInt32) ::
        words rest
  | _ => []

/-- The word that follows sixteen words of a schedule. -/
def nextWord : List UInt32 → UInt32
  | [a, b, _, _, _, _, _, _, _, c, _, _, _, _, d, _] =>
      let low := rotateRight b 7 ^^^ rotateRight b 18 ^^^ (b >>> 3)
      let high := rotateRight d 17 ^^^ rotateRight d 19 ^^^ (d >>> 10)
      a + low + c + high
  | _ => 0

/-- `count` words of the schedule, the first of which leads the window of sixteen. -/
def schedule : Nat → List UInt32 → List UInt32
  | 0, _ => []
  | count + 1, window =>
      match window with
      | first :: rest => first :: schedule count (rest ++ [nextWord window])
      | [] => []

/-- One round: mix a word of the schedule and a round word into the state. -/
def round (state : List UInt32) (word roundWord : UInt32) : List UInt32 :=
  match state with
  | [a, b, c, d, e, f, g, h] =>
      let sumE := rotateRight e 6 ^^^ rotateRight e 11 ^^^ rotateRight e 25
      let choice := (e &&& f) ^^^ ((~~~ e) &&& g)
      let mixed := h + sumE + choice + roundWord + word
      let sumA := rotateRight a 2 ^^^ rotateRight a 13 ^^^ rotateRight a 22
      let majority := (a &&& b) ^^^ (a &&& c) ^^^ (b &&& c)
      [mixed + sumA + majority, a, b, c, d + mixed, e, f, g]
  | other => other

def block (state : List UInt32) (bytes : List UInt8) : List UInt32 :=
  let pairs := (schedule 64 (words bytes)).zip roundWords
  let mixed := pairs.foldl (fun state pair => round state pair.1 pair.2) state
  List.zipWith (· + ·) state mixed

def blocks : Nat → List UInt32 → List UInt8 → List UInt32
  | 0, state, _ => state
  | count + 1, state, bytes => blocks count (block state (bytes.take 64)) (bytes.drop 64)

def wordBytes (word : UInt32) : List UInt8 :=
  bigEndian 4 word.toNat

def digest (message : List UInt8) : List UInt8 :=
  let padded := pad message
  (blocks (padded.length / 64) initial padded).flatMap wordBytes

end Sha256

end MapCatalog
