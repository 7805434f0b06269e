import Availability.Bytes

/-!
# SHA-256

The hash function under every tree of the library. A message is padded to whole blocks of 64
bytes, each block is stretched to a schedule of 64 words, and the words are mixed one by one into
a state of eight words.

* `Digest` – a string of exactly 32 bytes;
* `sha256` – the digest of a message.

Every step recurses over a list or counts down, so a digest of a closed message can be computed by
reduction as well as by running the program.
-/

namespace Availability

/-- The 32 bytes that a message is hashed to. -/
structure Digest where
  /-- The bytes of the digest. -/
  bytes : Bytes
  /-- A digest has 256 bits. -/
  length_bytes : bytes.length = 32
deriving DecidableEq

namespace Digest

theorem ext {a b : Digest} (h : a.bytes = b.bytes) : a = b := by
  cases a; cases b; simp_all

/-- A digest from raw bytes, when their number is right. -/
def ofBytes? (bs : Bytes) : Option Digest :=
  if h : bs.length = 32 then some ⟨bs, h⟩ else none

@[simp] theorem ofBytes?_bytes (d : Digest) : ofBytes? d.bytes = some d := by
  simp [ofBytes?, d.length_bytes]

/-- The digest that begins with some bytes and goes on with zeros, if the bytes are not too many. -/
def ofFront? (bs : Bytes) : Option Digest :=
  if h : bs.length ≤ 32 then some ⟨bs.rightpad 32 0, by simp; omega⟩ else none

@[simp] theorem ofFront?_bytes (d : Digest) : ofFront? d.bytes = some d := by
  simp [ofFront?, d.length_bytes, List.rightpad]

instance : Inhabited Digest := ⟨⟨List.replicate 32 0, by simp⟩⟩

end Digest

namespace Sha256

/-- The eight working words. -/
structure State where
  /-- The first word. -/
  a : UInt32
  /-- The second word. -/
  b : UInt32
  /-- The third word. -/
  c : UInt32
  /-- The fourth word. -/
  d : UInt32
  /-- The fifth word. -/
  e : UInt32
  /-- The sixth word. -/
  f : UInt32
  /-- The seventh word. -/
  g : UInt32
  /-- The eighth word. -/
  h : UInt32

/-- Fractional parts of the square roots of the first eight primes. -/
def initial : State :=
  ⟨0x6a09e667, 0xbb67ae85, 0x3c6ef372, 0xa54ff53a, 0x510e527f, 0x9b05688c, 0x1f83d9ab, 0x5be0cd19⟩

/-- Fractional parts of the cube roots of the first sixty-four primes, one for each round. -/
def roundConstants : List UInt32 :=
  [0x428a2f98, 0x71374491, 0xb5c0fbcf, 0xe9b5dba5, 0x3956c25b, 0x59f111f1, 0x923f82a4, 0xab1c5ed5,
   0xd807aa98, 0x12835b01, 0x243185be, 0x550c7dc3, 0x72be5d74, 0x80deb1fe, 0x9bdc06a7, 0xc19bf174,
   0xe49b69c1, 0xefbe4786, 0x0fc19dc6, 0x240ca1cc, 0x2de92c6f, 0x4a7484aa, 0x5cb0a9dc, 0x76f988da,
   0x983e5152, 0xa831c66d, 0xb00327c8, 0xbf597fc7, 0xc6e00bf3, 0xd5a79147, 0x06ca6351, 0x14292967,
   0x27b70a85, 0x2e1b2138, 0x4d2c6dfc, 0x53380d13, 0x650a7354, 0x766a0abb, 0x81c2c92e, 0x92722c85,
   0xa2bfe8a1, 0xa81a664b, 0xc24b8b70, 0xc76c51a3, 0xd192e819, 0xd6990624, 0xf40e3585, 0x106aa070,
   0x19a4c116, 0x1e376c08, 0x2748774c, 0x34b0bcb5, 0x391c0cb3, 0x4ed8aa4a, 0x5b9cca4f, 0x682e6ff3,
   0x748f82ee, 0x78a5636f, 0x84c87814, 0x8cc70208, 0x90befffa, 0xa4506ceb, 0xbef9a3f7, 0xc67178f2]

/-- The word turned right by `n` bits. -/
@[inline] def rotate (x n : UInt32) : UInt32 :=
  (x >>> n) ||| (x <<< (32 - n))

/-- One round: the state takes in a schedule word and its round constant. -/
@[inline] def round (s : State) (k w : UInt32) : State :=
  let ch := (s.e &&& s.f) ^^^ (~~~s.e &&& s.g)
  let maj := (s.a &&& s.b) ^^^ (s.a &&& s.c) ^^^ (s.b &&& s.c)
  let t₁ := s.h + (rotate s.e 6 ^^^ rotate s.e 11 ^^^ rotate s.e 25) + ch + k + w
  let t₂ := (rotate s.a 2 ^^^ rotate s.a 13 ^^^ rotate s.a 22) + maj
  ⟨t₁ + t₂, s.a, s.b, s.c, s.d + t₁, s.e, s.f, s.g⟩

/-- Stretches a schedule by `n` words. The newest word stands first, so that the four words which
the next one depends on are at fixed depths. -/
def stretch : (n : Nat) → List UInt32 → List UInt32
  | n + 1, ws@(_ :: w₂ :: _ :: _ :: _ :: _ :: w₇ :: _ :: _ :: _ :: _ :: _ :: _ :: _ :: w₁₅ :: w₁₆ :: _) =>
    let σ₀ := rotate w₁₅ 7 ^^^ rotate w₁₅ 18 ^^^ (w₁₅ >>> 3)
    let σ₁ := rotate w₂ 17 ^^^ rotate w₂ 19 ^^^ (w₂ >>> 10)
    stretch n ((σ₁ + w₇ + σ₀ + w₁₆) :: ws)
  | _, ws => ws

/-- Runs the rounds over the schedule, oldest word first. -/
def rounds : State → List UInt32 → List UInt32 → State
  | s, k :: ks, w :: ws => rounds (round s k w) ks ws
  | s, _, _ => s

/-- Mixes one block, given as its sixteen words with the last one first, into the state. -/
def compress (s : State) (block : List UInt32) : State :=
  let t := rounds s roundConstants (stretch 48 block).reverse
  ⟨s.a + t.a, s.b + t.b, s.c + t.c, s.d + t.d, s.e + t.e, s.f + t.f, s.g + t.g, s.h + t.h⟩

/-- Reads `n` big-endian words, the last one first, and what is left of the bytes. -/
def readWords : (n : Nat) → List UInt32 → Bytes → List UInt32 × Bytes
  | n + 1, ws, b₀ :: b₁ :: b₂ :: b₃ :: rest =>
    let w := (b₀.toUInt32 <<< 24) ||| (b₁.toUInt32 <<< 16) ||| (b₂.toUInt32 <<< 8) ||| b₃.toUInt32
    readWords n (w :: ws) rest
  | _, ws, rest => (ws, rest)

/-- Mixes `n` blocks of the padded message into the state. -/
def absorb : (n : Nat) → State → Bytes → State
  | 0, s, _ => s
  | n + 1, s, bytes =>
    let (block, rest) := readWords 16 [] bytes
    absorb n (compress s block) rest

/-- What is appended to a message of the given length: a one bit, zeros up to a block less eight
bytes, and the length in bits. -/
def padding (length : Nat) : Bytes :=
  0x80 :: (List.replicate ((119 - length % 64) % 64) 0 ++ Bytes.ofNat 8 (8 * length))

end Sha256

/-- The SHA-256 digest of a message. -/
def sha256 (message : Bytes) : Digest :=
  let length := message.length
  let s := Sha256.absorb (length / 64 + (if length % 64 < 56 then 1 else 2)) Sha256.initial
    (message ++ Sha256.padding length)
  ⟨[s.a, s.b, s.c, s.d, s.e, s.f, s.g, s.h].flatMap fun w => Bytes.ofNat 4 w.toNat, by simp⟩

end Availability
