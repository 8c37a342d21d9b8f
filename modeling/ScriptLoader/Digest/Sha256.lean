import ScriptLoader.Text.Utf8

/-!
# SHA-256

The digest of a byte sequence: the message is padded to blocks of 64 bytes, each block is expanded to a schedule of 64 words, and the
state of eight words is stirred with every word of every schedule.
-/

namespace ScriptLoader.Digest

/-- The state of the digest. -/
structure State where
  a : UInt32
  b : UInt32
  c : UInt32
  d : UInt32
  e : UInt32
  f : UInt32
  g : UInt32
  h : UInt32
  deriving DecidableEq, Repr

namespace State

/-- The words of the state in order. -/
def words (s : State) : List UInt32 := [s.a, s.b, s.c, s.d, s.e, s.f, s.g, s.h]

/-- The sum of two states, word by word. -/
def add (s t : State) : State :=
  ⟨s.a + t.a, s.b + t.b, s.c + t.c, s.d + t.d, s.e + t.e, s.f + t.f, s.g + t.g, s.h + t.h⟩

/-- The state before the first block. -/
def start : State :=
  ⟨0x6a09e667, 0xbb67ae85, 0x3c6ef372, 0xa54ff53a, 0x510e527f, 0x9b05688c, 0x1f83d9ab, 0x5be0cd19⟩

end State

/-- The constants of the 64 rounds. -/
def roundConstants : List UInt32 :=
  [0x428a2f98, 0x71374491, 0xb5c0fbcf, 0xe9b5dba5, 0x3956c25b, 0x59f111f1, 0x923f82a4, 0xab1c5ed5,
   0xd807aa98, 0x12835b01, 0x243185be, 0x550c7dc3, 0x72be5d74, 0x80deb1fe, 0x9bdc06a7, 0xc19bf174,
   0xe49b69c1, 0xefbe4786, 0x0fc19dc6, 0x240ca1cc, 0x2de92c6f, 0x4a7484aa, 0x5cb0a9dc, 0x76f988da,
   0x983e5152, 0xa831c66d, 0xb00327c8, 0xbf597fc7, 0xc6e00bf3, 0xd5a79147, 0x06ca6351, 0x14292967,
   0x27b70a85, 0x2e1b2138, 0x4d2c6dfc, 0x53380d13, 0x650a7354, 0x766a0abb, 0x81c2c92e, 0x92722c85,
   0xa2bfe8a1, 0xa81a664b, 0xc24b8b70, 0xc76c51a3, 0xd192e819, 0xd6990624, 0xf40e3585, 0x106aa070,
   0x19a4c116, 0x1e376c08, 0x2748774c, 0x34b0bcb5, 0x391c0cb3, 0x4ed8aa4a, 0x5b9cca4f, 0x682e6ff3,
   0x748f82ee, 0x78a5636f, 0x84c87814, 0x8cc70208, 0x90befffa, 0xa4506ceb, 0xbef9a3f7, 0xc67178f2]

/-- The bits of a word turned to the right. -/
def turn (x n : UInt32) : UInt32 := (x >>> n) ||| (x <<< (32 - n))

/-- A word as four bytes, the highest first. -/
def wordBytes (w : UInt32) : Bytes := [(w >>> 24).toUInt8, (w >>> 16).toUInt8, (w >>> 8).toUInt8, w.toUInt8]

/-- Four bytes as a word. -/
def wordOf (a b c d : UInt8) : UInt32 :=
  (a.toUInt32 <<< 24) ||| (b.toUInt32 <<< 16) ||| (c.toUInt32 <<< 8) ||| d.toUInt32

/-- The words of a block; bytes at the end that make no word are left out. -/
def wordsOf : Bytes → List UInt32
  | a :: b :: c :: d :: bs => wordOf a b c d :: wordsOf bs
  | _ => []

/-- The zero bytes behind a message of `n` bytes and the byte that ends it. -/
def paddingZeros (n : Nat) : Nat := (119 - n % 64) % 64

/-- The length of a message in bits, as eight bytes. -/
def lengthBytes (n : Nat) : Bytes :=
  wordBytes (UInt32.ofNat (n * 8 / 0x100000000)) ++ wordBytes (UInt32.ofNat (n * 8))

/-- The message with its padding. -/
def pad (bs : Bytes) : Bytes :=
  bs ++ 0x80 :: (List.replicate (paddingZeros bs.length) 0 ++ lengthBytes bs.length)

theorem length_pad (bs : Bytes) : (pad bs).length % 64 = 0 := by
  simp [pad, lengthBytes, wordBytes, paddingZeros]
  omega

/-- The next word of a schedule, from the words before it, the last one first. -/
def nextWord (recent : List UInt32) : UInt32 :=
  let w (i : Nat) : UInt32 := recent.getD (i - 1) 0
  let s₀ := turn (w 15) 7 ^^^ turn (w 15) 18 ^^^ (w 15 >>> 3)
  let s₁ := turn (w 2) 17 ^^^ turn (w 2) 19 ^^^ (w 2 >>> 10)
  w 16 + s₀ + w 7 + s₁

/-- The schedule extended by `n` words, the last one first. -/
def extend : Nat → List UInt32 → List UInt32
  | 0, ws => ws
  | n + 1, ws => extend n (nextWord ws :: ws)

/-- The schedule of a block. -/
def schedule (block : List UInt32) : List UInt32 := (extend 48 block.reverse).reverse

/-- One round, with the sum of a word of the schedule and the constant of the round. -/
def round (s : State) (kw : UInt32) : State :=
  let t₁ := s.h + (turn s.e 6 ^^^ turn s.e 11 ^^^ turn s.e 25) + ((s.e &&& s.f) ^^^ (~~~s.e &&& s.g)) + kw
  let t₂ := (turn s.a 2 ^^^ turn s.a 13 ^^^ turn s.a 22) + ((s.a &&& s.b) ^^^ (s.a &&& s.c) ^^^ (s.b &&& s.c))
  ⟨t₁ + t₂, s.a, s.b, s.c, s.d + t₁, s.e, s.f, s.g⟩

/-- The state after a block. -/
def compress (s : State) (block : Bytes) : State :=
  s.add (((schedule (wordsOf block)).zipWith (· + ·) roundConstants).foldl round s)

/-- The state after all blocks of a padded message. -/
def absorb (s : State) (bs : Bytes) : State :=
  match bs with
  | [] => s
  | b :: bs => absorb (compress s ((b :: bs).take 64)) ((b :: bs).drop 64)
termination_by bs.length
decreasing_by simp only [List.length_drop, List.length_cons]; omega

/-- The digest of a byte sequence, as 32 bytes. -/
def sha256 (bs : Bytes) : Bytes := (absorb State.start (pad bs)).words.flatMap wordBytes

/-- A digit below sixteen, in lower case. -/
def hexDigit (n : Nat) : Char := if n < 10 then Char.ofNat (48 + n) else Char.ofNat (87 + n)

/-- Bytes as hexadecimal digits, two a byte. -/
def hex (bs : Bytes) : String := String.ofList (bs.flatMap fun b => [hexDigit (b.toNat / 16), hexDigit (b.toNat % 16)])

/-- The digest of a text, as hexadecimal digits. -/
def ofText (s : String) : String := hex (sha256 (Text.Utf8.encode s.toList))

end ScriptLoader.Digest
