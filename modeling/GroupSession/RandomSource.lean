import GroupSession.Cipher.ChaCha20

/-!
# A source of random bytes

The bytes come from the key stream of ChaCha20 with the seed as its key. The stream is taken word
by word: a draw uses up as many words as it needs and throws away what is left of its last one, so
that a source is known by its seed and the number of words taken.
-/

namespace GroupSession

/-- A seed, and how much of the words it gives has been used up. -/
structure RandomSource where
  /-- The key of the stream. -/
  seed : FixedBytes 32
  /-- How many words have been taken. -/
  position : Nat
deriving DecidableEq

namespace RandomSource

/-- The source that nothing has been taken from. -/
def ofSeed (seed : FixedBytes 32) : RandomSource := ⟨seed, 0⟩

/-- The word at the given place of the stream that belongs to a seed. -/
def word (seed : FixedBytes 32) (i : Nat) : UInt32 :=
  (ChaCha20.blockWords seed (FixedBytes.zero 8) (i / 16)).get ⟨i % 16, Nat.mod_lt i (by decide)⟩

/-- `count` words of the stream from the given place on. -/
def words (seed : FixedBytes 32) (first count : Nat) : List UInt32 :=
  (List.range' first count).map (word seed)

theorem length_words (seed : FixedBytes 32) (first count : Nat) :
    (words seed first count).length = count := by
  rw [words, List.length_map, List.length_range']

/-- How many words a draw of `size` bytes uses up. -/
def wordsFor (size : Nat) : Nat := (size + 3) / 4

/-- Draws `size` bytes. -/
def draw (size : Nat) (source : RandomSource) : FixedBytes size × RandomSource :=
  let taken := words source.seed source.position (wordsFor size)
  (FixedBytes.slice (ChaCha20.toBytes taken) 0 size
      (by rw [ChaCha20.length_toBytes, length_words, wordsFor]; omega),
    { source with position := source.position + wordsFor size })

end RandomSource

end GroupSession
