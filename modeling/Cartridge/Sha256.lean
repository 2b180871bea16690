/-! SHA-256 over bytes. -/
namespace Cartridge.Sha256

/-- The round constants: fractional bits of the cube roots of the first 64 primes. -/
def constants : List UInt32 :=
  [0x428a2f98, 0x71374491, 0xb5c0fbcf, 0xe9b5dba5, 0x3956c25b, 0x59f111f1, 0x923f82a4, 0xab1c5ed5,
    0xd807aa98, 0x12835b01, 0x243185be, 0x550c7dc3, 0x72be5d74, 0x80deb1fe, 0x9bdc06a7, 0xc19bf174,
    0xe49b69c1, 0xefbe4786, 0x0fc19dc6, 0x240ca1cc, 0x2de92c6f, 0x4a7484aa, 0x5cb0a9dc, 0x76f988da,
    0x983e5152, 0xa831c66d, 0xb00327c8, 0xbf597fc7, 0xc6e00bf3, 0xd5a79147, 0x06ca6351, 0x14292967,
    0x27b70a85, 0x2e1b2138, 0x4d2c6dfc, 0x53380d13, 0x650a7354, 0x766a0abb, 0x81c2c92e, 0x92722c85,
    0xa2bfe8a1, 0xa81a664b, 0xc24b8b70, 0xc76c51a3, 0xd192e819, 0xd6990624, 0xf40e3585, 0x106aa070,
    0x19a4c116, 0x1e376c08, 0x2748774c, 0x34b0bcb5, 0x391c0cb3, 0x4ed8aa4a, 0x5b9cca4f, 0x682e6ff3,
    0x748f82ee, 0x78a5636f, 0x84c87814, 0x8cc70208, 0x90befffa, 0xa4506ceb, 0xbef9a3f7, 0xc67178f2]

/-- The chaining value. -/
structure State where
  a : UInt32
  b : UInt32
  c : UInt32
  d : UInt32
  e : UInt32
  f : UInt32
  g : UInt32
  h : UInt32
  deriving DecidableEq, Repr

namespace State

/-- Fractional bits of the square roots of the first eight primes. -/
def initial : State :=
  ⟨0x6a09e667, 0xbb67ae85, 0x3c6ef372, 0xa54ff53a, 0x510e527f, 0x9b05688c, 0x1f83d9ab, 0x5be0cd19⟩

def words (s : State) : List UInt32 := [s.a, s.b, s.c, s.d, s.e, s.f, s.g, s.h]

def add (s t : State) : State :=
  ⟨s.a + t.a, s.b + t.b, s.c + t.c, s.d + t.d, s.e + t.e, s.f + t.f, s.g + t.g, s.h + t.h⟩

end State

def rotateRight (x : UInt32) (n : UInt32) : UInt32 := (x >>> n) ||| (x <<< (32 - n))

def round (s : State) (k w : UInt32) : State :=
  let sum1 := rotateRight s.e 6 ^^^ rotateRight s.e 11 ^^^ rotateRight s.e 25
  let choice := (s.e &&& s.f) ^^^ (~~~s.e &&& s.g)
  let t1 := s.h + sum1 + choice + k + w
  let sum0 := rotateRight s.a 2 ^^^ rotateRight s.a 13 ^^^ rotateRight s.a 22
  let majority := (s.a &&& s.b) ^^^ (s.a &&& s.c) ^^^ (s.b &&& s.c)
  ⟨t1 + (sum0 + majority), s.a, s.b, s.c, s.d + t1, s.e, s.f, s.g⟩

/-- The word of a schedule that follows at least sixteen others, given last first. -/
def nextWord (done : List UInt32) : UInt32 :=
  let x := done.getD 14 0
  let y := done.getD 1 0
  let mixed0 := rotateRight x 7 ^^^ rotateRight x 18 ^^^ (x >>> 3)
  let mixed1 := rotateRight y 17 ^^^ rotateRight y 19 ^^^ (y >>> 10)
  done.getD 15 0 + mixed0 + done.getD 6 0 + mixed1

def extend : Nat → List UInt32 → List UInt32
  | 0, done => done
  | n + 1, done => extend n (nextWord done :: done)

def schedule (block : List UInt32) : List UInt32 := (extend 48 block.reverse).reverse

def rounds : List UInt32 → List UInt32 → State → State
  | k :: ks, w :: ws, s => rounds ks ws (round s k w)
  | _, _, s => s

def compress (s : State) (block : List UInt32) : State :=
  s.add (rounds constants (schedule block) s)

def bigEndian (count n : Nat) : List UInt8 :=
  (List.range count).map fun i => .ofNat (n / Nat.pow 256 (count - 1 - i))

/-- What is put behind a message of some bytes: a one bit, zeros up to the end of a block, and the
length in bits. -/
def padding (size : Nat) : List UInt8 :=
  0x80 :: List.replicate ((119 - size % 64) % 64) 0 ++ bigEndian 8 (8 * size)

def padded (message : ByteArray) : ByteArray := message ++ (padding message.size).toByteArray

/-- A byte of a message; behind its end there are zeros. -/
def byteAt (message : ByteArray) (i : Nat) : UInt32 :=
  if h : i < message.size then message[i].toUInt32 else 0

def wordAt (message : ByteArray) (i : Nat) : UInt32 :=
  (byteAt message i <<< 24) ||| (byteAt message (i + 1) <<< 16)
    ||| (byteAt message (i + 2) <<< 8) ||| byteAt message (i + 3)

def blockAt (message : ByteArray) (k : Nat) : List UInt32 :=
  (List.range 16).map fun i => wordAt message (64 * k + 4 * i)

def compressAll (message : ByteArray) : State :=
  (List.range (message.size / 64)).foldl (fun s k => compress s (blockAt message k)) .initial

def digest (message : ByteArray) : List UInt8 :=
  (compressAll (padded message)).words.flatMap fun w => bigEndian 4 w.toNat

def hexDigit (n : Nat) : Char := "0123456789abcdef".toList.getD n '0'

def hex (bytes : List UInt8) : String :=
  String.ofList (bytes.flatMap fun b => [hexDigit (b.toNat / 16), hexDigit (b.toNat % 16)])

def fingerprint (text : String) : String := hex (digest text.toUTF8)

end Cartridge.Sha256
