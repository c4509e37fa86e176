import GroupSession.Bytes

/-!
# The stream cipher ChaCha20

A key, a nonce and a counter of blocks give one block of sixteen words. The blocks for the counts
0, 1, 2, … make up the key stream of that key and nonce.

## The construction

The state is filled with a constant, the key, the counter and the nonce. Twenty rounds mix it, two
at a time: one round along the columns of the square the words form and one along its diagonals. A
block is the mixed state added word by word to the state before. Without that addition, the first
and last row of the mixed state are a new key (`deriveKey`), by which the nonce can be made longer.
-/

namespace GroupSession

namespace ChaCha20

/-- The words the cipher mixes, in four rows of four. -/
abbrev State := Vector UInt32 16

/-- Bytes in a block. -/
def blockSize : Nat := 64

/-- Rotation to the left. -/
def rotateLeft (x n : UInt32) : UInt32 := (x <<< n) ||| (x >>> (32 - n))

/-- Adds the word at `b` into that at `a`, and mixes the sum into the word at `d`. -/
def stir (a b d : Fin 16) (n : UInt32) (s : State) : State :=
  let s := s.set a (s[a] + s[b])
  s.set d (rotateLeft (s[d] ^^^ s[a]) n)

/-- Mixes four words. -/
def quarterRound (a b c d : Fin 16) (s : State) : State :=
  stir c d b 7 (stir a b d 8 (stir c d b 12 (stir a b d 16 s)))

/-- A round along the columns followed by one along the diagonals. -/
def doubleRound (s : State) : State :=
  let s := quarterRound 0 4 8 12 s
  let s := quarterRound 1 5 9 13 s
  let s := quarterRound 2 6 10 14 s
  let s := quarterRound 3 7 11 15 s
  let s := quarterRound 0 5 10 15 s
  let s := quarterRound 1 6 11 12 s
  let s := quarterRound 2 7 8 13 s
  quarterRound 3 4 9 14 s

/-- All twenty rounds. -/
def mix (s : State) : State := Nat.repeat doubleRound 10 s

/-- The state before the first round; the last row is given as bytes. -/
def start (key : FixedBytes 32) (lastRow : FixedBytes 16) : State :=
  let bytes := Bytes.ofAscii "expand 32-byte k" ++ key.toList ++ lastRow.toList
  let words := (Bytes.pieces 4 16 bytes).toArray
  Vector.ofFn fun i ↦ UInt32.ofNat (Bytes.toNatLE (words.getD i []))

/-- The words of one block of the key stream. -/
def blockWords (key : FixedBytes 32) (nonce : FixedBytes 8) (counter : Nat) : State :=
  let lastRow := FixedBytes.append ⟨Bytes.ofNatLE 8 counter, Bytes.length_ofNatLE 8 counter⟩ nonce
  let s := start key lastRow
  Vector.zipWith (· + ·) (mix s) s

/-- Words as bytes, the least byte of each first. -/
def toBytes (words : List UInt32) : Bytes := words.flatMap fun w ↦ Bytes.ofNatLE 4 w.toNat

theorem length_toBytes (words : List UInt32) : (toBytes words).length = 4 * words.length := by
  induction words with
  | nil => rfl
  | cons w ws ih =>
    rw [toBytes, List.flatMap_cons, List.length_append, Bytes.length_ofNatLE, ← toBytes, ih,
      List.length_cons]
    omega

/-- The first `count` blocks of the key stream from the one numbered `first` on. -/
def blocks (key : FixedBytes 32) (nonce : FixedBytes 8) (first count : Nat) : Bytes :=
  (List.range' first count).flatMap fun i ↦ toBytes (blockWords key nonce i).toList

private theorem length_blocks (key : FixedBytes 32) (nonce : FixedBytes 8) (first count : Nat) :
    (blocks key nonce first count).length = blockSize * count := by
  induction count generalizing first with
  | zero => rfl
  | succ count ih =>
    have hblock : (toBytes (blockWords key nonce first).toList).length = 64 := by
      rw [length_toBytes, Vector.length_toList]
    rw [blocks, List.range'_succ, List.flatMap_cons, List.length_append, ← blocks, ih, hblock,
      blockSize]
    omega

/-- `size` bytes of the key stream from the block numbered `first` on. -/
def keyStream (key : FixedBytes 32) (nonce : FixedBytes 8) (first size : Nat) : FixedBytes size :=
  FixedBytes.slice (blocks key nonce first ((size + 63) / blockSize)) 0 size
    (by rw [length_blocks, blockSize]; omega)

/-- A new key from a key and sixteen bytes. -/
def deriveKey (key : FixedBytes 32) (input : FixedBytes 16) : FixedBytes 32 :=
  let s := mix (start key input)
  ⟨toBytes [s[0], s[1], s[2], s[3], s[12], s[13], s[14], s[15]], length_toBytes _⟩

end ChaCha20

end GroupSession
