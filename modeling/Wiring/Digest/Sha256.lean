/-!
# The digest SHA-256

A message is padded to whole blocks of sixteen words of 32 bits. Each block is stretched to a
schedule of 64 words, with which 64 rounds mix the eight words of the state; the result is added
to the state before the block. `Sha256.hex` writes the final state with hexadecimal digits.
-/

namespace Wiring.Sha256

/-- The eight words that are mixed. -/
structure State where
  a : UInt32
  b : UInt32
  c : UInt32
  d : UInt32
  e : UInt32
  f : UInt32
  g : UInt32
  h : UInt32
deriving DecidableEq, Repr

/-- The state before the first block. -/
def State.start : State :=
  ⟨0x6a09e667, 0xbb67ae85, 0x3c6ef372, 0xa54ff53a, 0x510e527f, 0x9b05688c, 0x1f83d9ab,
    0x5be0cd19⟩

/-- The words of the state in order. -/
def State.words (s : State) : List UInt32 := [s.a, s.b, s.c, s.d, s.e, s.f, s.g, s.h]

/-- The constant of each round. -/
def roundConstants : List UInt32 :=
  [0x428a2f98, 0x71374491, 0xb5c0fbcf, 0xe9b5dba5,
   0x3956c25b, 0x59f111f1, 0x923f82a4, 0xab1c5ed5,
   0xd807aa98, 0x12835b01, 0x243185be, 0x550c7dc3,
   0x72be5d74, 0x80deb1fe, 0x9bdc06a7, 0xc19bf174,
   0xe49b69c1, 0xefbe4786, 0x0fc19dc6, 0x240ca1cc,
   0x2de92c6f, 0x4a7484aa, 0x5cb0a9dc, 0x76f988da,
   0x983e5152, 0xa831c66d, 0xb00327c8, 0xbf597fc7,
   0xc6e00bf3, 0xd5a79147, 0x06ca6351, 0x14292967,
   0x27b70a85, 0x2e1b2138, 0x4d2c6dfc, 0x53380d13,
   0x650a7354, 0x766a0abb, 0x81c2c92e, 0x92722c85,
   0xa2bfe8a1, 0xa81a664b, 0xc24b8b70, 0xc76c51a3,
   0xd192e819, 0xd6990624, 0xf40e3585, 0x106aa070,
   0x19a4c116, 0x1e376c08, 0x2748774c, 0x34b0bcb5,
   0x391c0cb3, 0x4ed8aa4a, 0x5b9cca4f, 0x682e6ff3,
   0x748f82ee, 0x78a5636f, 0x84c87814, 0x8cc70208,
   0x90befffa, 0xa4506ceb, 0xbef9a3f7, 0xc67178f2]

/-- The word turned right by `n` places, for `0 < n < 32`. -/
def rotateRight (x : UInt32) (n : UInt32) : UInt32 := (x >>> n) ||| (x <<< (32 - n))

/-- The schedule word that follows the words `w`, of which there are at least sixteen. -/
def nextWord (w : Array UInt32) : UInt32 :=
  let back (n : Nat) : UInt32 := w.getD (w.size - n) 0
  let small (x r₁ r₂ s : UInt32) : UInt32 := rotateRight x r₁ ^^^ rotateRight x r₂ ^^^ (x >>> s)
  back 16 + small (back 15) 7 18 3 + back 7 + small (back 2) 17 19 10

/-- The schedule of a block: its own words and 48 more. -/
def schedule (block : List UInt32) : List UInt32 :=
  ((List.range 48).foldl (fun w _ => w.push (nextWord w)) block.toArray).toList

/-- One round with its constant and its word of the schedule. -/
def round (s : State) (constantAndWord : UInt32 × UInt32) : State :=
  let big (x r₁ r₂ r₃ : UInt32) : UInt32 :=
    rotateRight x r₁ ^^^ rotateRight x r₂ ^^^ rotateRight x r₃
  let choice := (s.e &&& s.f) ^^^ (~~~ s.e &&& s.g)
  let majority := (s.a &&& s.b) ^^^ (s.a &&& s.c) ^^^ (s.b &&& s.c)
  let t₁ := s.h + big s.e 6 11 25 + choice + constantAndWord.1 + constantAndWord.2
  let t₂ := big s.a 2 13 22 + majority
  ⟨t₁ + t₂, s.a, s.b, s.c, s.d + t₁, s.e, s.f, s.g⟩

/-- The state after a block. -/
def compress (s : State) (block : List UInt32) : State :=
  let t := (roundConstants.zip (schedule block)).foldl round s
  ⟨s.a + t.a, s.b + t.b, s.c + t.c, s.d + t.d, s.e + t.e, s.f + t.f, s.g + t.g, s.h + t.h⟩

/-- The last `count` bytes of a number, most significant first. -/
def bigEndian : (count : Nat) → Nat → List UInt8
  | 0, _ => []
  | count + 1, n => (n / 256 ^ count).toUInt8 :: bigEndian count n

/-- The message with a one bit, zeros, and its length in bits, filling whole blocks. -/
def pad (message : List UInt8) : List UInt8 :=
  message ++ 0x80 :: List.replicate ((119 - message.length % 64) % 64) 0 ++
    bigEndian 8 (8 * message.length)

/-- The words that four bytes each make up. -/
def wordsOf : List UInt8 → List UInt32
  | b₀ :: b₁ :: b₂ :: b₃ :: rest =>
    (b₀.toUInt32 <<< 24 ||| b₁.toUInt32 <<< 16 ||| b₂.toUInt32 <<< 8 ||| b₃.toUInt32) ::
      wordsOf rest
  | _ => []

/-- The words in groups of sixteen. -/
def blocks (words : List UInt32) : List (List UInt32) :=
  if words.isEmpty then [] else words.take 16 :: blocks (words.drop 16)
termination_by words.length
decreasing_by
  cases words with
  | nil => simp_all
  | cons w ws => simp only [List.length_drop, List.length_cons]; omega

/-- The state after the message. -/
def digest (message : List UInt8) : State :=
  (blocks (wordsOf (pad message))).foldl compress State.start

/-- The hexadecimal digits of a word. -/
def hexWord (w : UInt32) : String :=
  String.ofList <| (bigEndian 4 w.toNat).flatMap fun b =>
    [b.toNat / 16, b.toNat % 16].map fun n =>
      if n < 10 then Char.ofNat (48 + n) else Char.ofNat (87 + n)

/-- The digest of a text's UTF-8 bytes, in hexadecimal digits. -/
def hex (text : String) : String :=
  String.join ((digest text.toUTF8.toList).words.map hexWord)

end Wiring.Sha256
