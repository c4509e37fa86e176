import GroupSession.Cbor.Header

/-!
# Errors of reading CBOR

Reading fails when the bytes end too early, when they are malformed, when items are nested too
deeply, or when an item is well formed but not what should stand at its place. `Problem` says what
was wrong in the last case; its words name the item that was found and the one that was wanted.
-/

namespace GroupSession

namespace Cbor

/-- What can be wanted where something else stands. -/
inductive Wanted
  | map
  | key
  | integer
  | bytes
  | array
  | knownSimple
  | noBreak
  | secret
deriving DecidableEq, Repr

/-- The name of what is wanted. -/
def Wanted.describe : Wanted → String
  | map => "map"
  | key => "str or bytes"
  | integer => "integer"
  | bytes => "bytes"
  | array => "array"
  | knownSimple => "known simple value"
  | noBreak => "non-break"
  | secret => "tuple struct Secret"

/-- The widths of the numbers that can be wanted. -/
inductive Width
  | bits8
  | bits32
deriving DecidableEq, Repr

/-- The name of a width. -/
def Width.describe : Width → String
  | bits8 => "u8"
  | bits32 => "u32"

/-- The first number that does not fit. -/
def Width.bound : Width → Nat
  | bits8 => 2 ^ 8
  | bits32 => 2 ^ 32

/-- The sequences that must have a certain length. -/
inductive Sequence
  /-- A key or a part of a ratchet. -/
  | bytes
  /-- The parts of a ratchet. -/
  | parts
deriving DecidableEq, Repr

/-- The name of a sequence. -/
def Sequence.describe : Sequence → String
  | bytes => "a byte array of length 32"
  | parts => "an array of length 4"

/-- What is wrong with an item that can be read. -/
inductive Problem
  /-- Another item is wanted here. -/
  | unexpected (found : Header) (wanted : Wanted)
  /-- A truth value is wanted here. -/
  | noBool
  /-- The number is below zero. -/
  | negativeInteger
  /-- The number has more than 64 bits. -/
  | integerTooLarge
  /-- The number has more than 128 bits. -/
  | bigintTooLarge
  /-- The number does not fit. -/
  | outOfRange (n : Nat) (width : Width)
  /-- The sequence ends too early or goes on too long. -/
  | invalidLength (length : Nat) (sequence : Sequence)
  /-- The field was already there. -/
  | duplicateField (name : String)
  /-- The field is not there. -/
  | missingField (name : String)
deriving DecidableEq, Repr

/-- The text of a problem. -/
def Problem.describe : Problem → String
  | unexpected found wanted => s!"invalid type: {found.describe}, expected {wanted.describe}"
  | noBool => "expected bool"
  | negativeInteger => "unexpected negative integer"
  | integerTooLarge => "integer too large"
  | bigintTooLarge => "bigint too large"
  | outOfRange n width => "invalid value: integer `" ++ n.repr ++ "`, expected " ++ width.describe
  | invalidLength length sequence => s!"invalid length {length}, expected {sequence.describe}"
  | duplicateField name => "duplicate field `" ++ name ++ "`"
  | missingField name => "missing field `" ++ name ++ "`"

/-- Why bytes cannot be read. -/
inductive DecodeError
  /-- They end too early. -/
  | endOfInput
  /-- The bytes at a position are malformed. -/
  | malformed (position : Nat)
  /-- An item is not what it should be; sometimes it is known where it stands. -/
  | unsuitable (position : Option Nat) (problem : Problem)
  /-- Too many items are nested. -/
  | tooDeep
deriving DecidableEq, Repr

/-- The text of an error. -/
def DecodeError.message : DecodeError → String
  | endOfInput => "an error occurred while reading bytes: failed to fill whole buffer"
  | malformed position => s!"an error occurred while parsing bytes at position {position}"
  | unsuitable position problem =>
    let place := position.elim "None" fun n ↦ "Some(" ++ n.repr ++ ")"
    s!"an error occurred while processing a parsed value at position {place}: {problem.describe}"
  | tooDeep => "recursion limit exceeded while decoding"

end Cbor

end GroupSession
