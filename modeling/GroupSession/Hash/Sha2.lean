import GroupSession.Bytes

/-!
# The hash functions SHA-256 and SHA-512

Both are one construction over words of 32 or 64 bits. What they differ in is gathered in the
class `Sha2.Word`: the size of a word, how far words are rotated, and the number of rounds.

## The construction

The message is padded with a bit 1, zeros, and its length in bits, so that it fills whole blocks
of sixteen words. From a block the schedule derives one word for each round. A round mixes its
word and its constant into eight registers, and after a block's last round the registers are
added to those the block began with.

The constants are no table. They are the leading bits of the fractional parts of the square roots
of the first eight primes (where the registers start) and of the cube roots of the first eighty
primes (one for each round), found here by integer arithmetic. A smaller word takes fewer of the
same bits.
-/

namespace GroupSession

namespace Sha2

/-! ## Words -/

/-- The words a hash function of this family computes with. -/
class Word (W : Type) extends Add W, AndOp W, XorOp W, Complement W where
  /-- Bytes in a word. -/
  size : Nat
  /-- The word of a number, its high bits cut off. -/
  ofNat : Nat → W
  /-- The number of a word. -/
  toNat : W → Nat
  /-- Rotation to the right. -/
  rotate : W → W → W
  /-- Shift to the right. -/
  shift : W → W → W
  /-- How many rounds a block takes. -/
  rounds : Nat
  /-- Rotations of the first register. -/
  first : W × W × W
  /-- Rotations of the fifth register. -/
  fifth : W × W × W
  /-- Two rotations and a shift of the word that follows the one leaving the schedule. -/
  early : W × W × W
  /-- Two rotations and a shift of the word two places behind the one joining the schedule. -/
  late : W × W × W

instance : Word UInt32 where
  size := 4
  ofNat := UInt32.ofNat
  toNat := UInt32.toNat
  rotate x n := (x >>> n) ||| (x <<< (32 - n))
  shift x n := x >>> n
  rounds := 64
  first := (2, 13, 22)
  fifth := (6, 11, 25)
  early := (7, 18, 3)
  late := (17, 19, 10)

instance : Word UInt64 where
  size := 8
  ofNat := UInt64.ofNat
  toNat := UInt64.toNat
  rotate x n := (x >>> n) ||| (x <<< (64 - n))
  shift x n := x >>> n
  rounds := 80
  first := (28, 34, 39)
  fifth := (14, 18, 41)
  early := (1, 8, 7)
  late := (19, 61, 6)

/-! ## Constants -/

/-- The greatest number whose power with exponent `degree` is at most `n`, among those below
`2 ^ bits`. -/
def root (degree bits n : Nat) : Nat :=
  (List.range bits).reverse.foldl (fun r i ↦ if (r + 2 ^ i) ^ degree ≤ n then r + 2 ^ i else r) 0

/-- The first 64 bits behind the point of the root of `n` with exponent `degree`. -/
def fraction (degree n : Nat) : Nat := root degree 72 (n * 2 ^ (64 * degree)) % 2 ^ 64

/-- The prime numbers below 410, of which there are eighty. -/
def primes : List Nat :=
  (List.range 410).filter fun n ↦ 2 ≤ n && (List.range n).all fun d ↦ d < 2 || n % d != 0

/-- The fractional parts that give the registers at the start. -/
def startFractions : List Nat := (primes.take 8).map (fraction 2)

/-- The fractional parts that give the constants of the rounds. -/
def roundFractions : Array Nat := (primes.map (fraction 3)).toArray

/-- The leading bits of a 64 bit fraction, as many as a word holds. -/
def leading (W : Type) [Word W] (bits : Nat) : W := Word.ofNat (bits / 2 ^ (64 - 8 * Word.size W))

/-! ## Compression -/

/-- The eight words a hash function keeps between blocks. -/
structure Registers (W : Type) where
  a : W
  b : W
  c : W
  d : W
  e : W
  f : W
  g : W
  h : W

section Compression

variable {W : Type} [Word W]

/-- Three rotations of a word, combined. -/
@[specialize] def mixRotations (n : W × W × W) (x : W) : W :=
  Word.rotate x n.1 ^^^ Word.rotate x n.2.1 ^^^ Word.rotate x n.2.2

/-- Two rotations and a shift of a word, combined. -/
@[specialize] def mixShift (n : W × W × W) (x : W) : W :=
  Word.rotate x n.1 ^^^ Word.rotate x n.2.1 ^^^ Word.shift x n.2.2

/-- The sixteen words of a block, followed by those derived from them, one for each round. -/
@[specialize] def schedule (block : Bytes) : Array W :=
  let given : Array W :=
    ((Bytes.pieces (Word.size W) 16 block).map fun piece ↦ Word.ofNat (Bytes.toNatBE piece)).toArray
  (List.range (Word.rounds W - 16)).foldl
    (fun words i ↦
      let word (k : Nat) : W := words.getD (i + k) (Word.ofNat 0)
      words.push
        (mixShift Word.late (word 14) + word 9 + mixShift Word.early (word 1) + word 0))
    given

/-- One round, with its constant and its word of the schedule. -/
@[specialize] def step (constant word : W) (r : Registers W) : Registers W :=
  let choice := (r.e &&& r.f) ^^^ (~~~r.e &&& r.g)
  let majority := (r.a &&& r.b) ^^^ (r.a &&& r.c) ^^^ (r.b &&& r.c)
  let t := r.h + mixRotations Word.fifth r.e + choice + constant + word
  { a := t + (mixRotations Word.first r.a + majority)
    b := r.a, c := r.b, d := r.c, e := r.d + t, f := r.e, g := r.f, h := r.g }

/-- Takes a block into the registers. -/
@[specialize] def compress (constants : Array W) (start : Registers W) (block : Bytes) :
    Registers W :=
  let words : Array W := schedule block
  let r := (List.range (Word.rounds W)).foldl
    (fun r i ↦ step (constants.getD i (Word.ofNat 0)) (words.getD i (Word.ofNat 0)) r) start
  { a := start.a + r.a, b := start.b + r.b, c := start.c + r.c, d := start.d + r.d
    e := start.e + r.e, f := start.f + r.f, g := start.g + r.g, h := start.h + r.h }

/-- The registers before the first block. -/
def initial (W : Type) [Word W] : Registers W :=
  let word (i : Nat) : W := leading W (startFractions.getD i 0)
  { a := word 0, b := word 1, c := word 2, d := word 3
    e := word 4, f := word 5, g := word 6, h := word 7 }

/-- The message with its padding: a bit 1, zeros, and the length in bits as a double word. -/
def pad (W : Type) [Word W] (message : Bytes) : Bytes :=
  let block := 16 * Word.size W
  let tail := 2 * Word.size W
  let zeros := (2 * block - tail - 1 - message.length % block) % block
  message ++ 0x80 :: List.replicate zeros 0 ++ Bytes.ofNatBE tail (8 * message.length)

/-- The registers as bytes. -/
def Registers.toBytes (r : Registers W) : Bytes :=
  [r.a, r.b, r.c, r.d, r.e, r.f, r.g, r.h].flatMap fun x ↦
    Bytes.ofNatBE (Word.size W) (Word.toNat x)

private theorem Registers.length_toBytes (r : Registers W) :
    r.toBytes.length = 8 * Word.size W := by
  simp only [toBytes, List.flatMap_cons, List.flatMap_nil, List.length_append,
    Bytes.length_ofNatBE, List.length_nil]
  omega

/-- The hash of a message, given the constants of the rounds. -/
@[specialize] def digest (constants : Array W) (message : Bytes) : Bytes :=
  let padded := pad W message
  let block := 16 * Word.size W
  ((Bytes.pieces block (padded.length / block) padded).foldl
    (compress constants) (initial W)).toBytes

theorem length_digest (constants : Array W) (message : Bytes) :
    (digest constants message).length = 8 * Word.size W :=
  Registers.length_toBytes _

end Compression

/-- The constants of the rounds over words of 32 bits. -/
def constants32 : Array UInt32 := roundFractions.map (leading UInt32)

/-- The constants of the rounds over words of 64 bits. -/
def constants64 : Array UInt64 := roundFractions.map (leading UInt64)

end Sha2

/-- The SHA-256 hash of a message. -/
def sha256 (message : Bytes) : FixedBytes 32 :=
  ⟨Sha2.digest Sha2.constants32 message, Sha2.length_digest _ _⟩

/-- The SHA-512 hash of a message. -/
def sha512 (message : Bytes) : FixedBytes 64 :=
  ⟨Sha2.digest Sha2.constants64 message, Sha2.length_digest _ _⟩

end GroupSession
