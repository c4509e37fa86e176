import GroupSession.Action

/-!
# The ratchet

A ratchet holds the secrets from which the keys of the next message are derived. It moves forward
only: the state at an index gives the states at all later indices, and none before.

## The construction

The state is four parts and a counter, one byte of the counter for each part, the most significant
byte for part 0. When the counter steps on, let `h` be the first byte that changes. Then every part
from `h` on is replaced by a keyed hash: the key is part `h` as it was, the data is the number of
the part to be replaced. Part `h` itself comes last, since the others are derived from it.

## Jumps

To go from one index to a later one, a ratchet need not pass through all indices between. For each
byte from the top it takes as many steps of that part alone as the byte has to grow, and only with
the last of them it replaces the lower parts too. What a jump or a step does to the parts is a list
of `Rehash`es, which is known before anything is hashed.

A provider may fail in the middle of the list. The ratchet is then left as far as it came.
-/

namespace GroupSession

/-- The secrets of a session at one message index. -/
structure Ratchet where
  /-- The secrets, the slowest changing first. -/
  parts : Vector (FixedBytes 32) 4
  /-- The message index. -/
  counter : UInt32
deriving DecidableEq

/-- Why a ratchet did not move. -/
inductive RatchetError
  /-- The index lies behind the ratchet. -/
  | indexTooLow (current target : UInt32)
  /-- The provider failed. -/
  | crypto (failure : Failure)
deriving DecidableEq, Repr

/-- The text of an error. -/
def RatchetError.message : RatchetError → String
  | indexTooLow current target =>
    s!"can not move ratchet backwards from index {current.toNat} to {target.toNat}"
  | crypto failure => s!"ratchet key derivation failed: {failure.description}"

/-- The replacement of one part by a keyed hash, with another part or itself as the key. -/
structure Rehash where
  /-- The part that is the key. -/
  source : Fin 4
  /-- The part that is replaced. -/
  target : Fin 4
deriving DecidableEq, Repr

namespace Ratchet

/-- Bytes in a part. -/
def partSize : Nat := 32

/-- How many parts there are. -/
def partCount : Nat := 4

/-- Bytes in all parts together. -/
def size : Nat := partCount * partSize

/-! ## Bytes -/

/-- The ratchet with the given parts, one after the other, at an index. -/
def ofBytes (bytes : FixedBytes 128) (counter : UInt32) : Ratchet where
  parts := Vector.ofFn fun i ↦ bytes.cut (32 * i) 32 (by omega)
  counter := counter

/-- All parts, one after the other. -/
def toBytes (ratchet : Ratchet) : FixedBytes 128 :=
  (((ratchet.parts[0].append ratchet.parts[1]).append ratchet.parts[2]).append ratchet.parts[3])

@[simp] theorem ofBytes_toBytes (ratchet : Ratchet) :
    ofBytes ratchet.toBytes ratchet.counter = ratchet := by
  obtain ⟨parts, counter⟩ := ratchet
  simp only [ofBytes, mk.injEq, and_true]
  ext1 i hi
  have hlength (k : Nat) (hk : k < 4) : parts[k].toList.length = 32 := parts[k].length_toList
  rw [Vector.getElem_ofFn]
  ext1
  simp only [FixedBytes.cut, FixedBytes.slice, toBytes, FixedBytes.append]
  obtain _ | _ | _ | _ | i := i
  case zero => simp [hlength]
  case succ.zero => simp [hlength]
  case succ.succ.zero => simp [hlength, List.drop_append, List.drop_of_length_le]
  case succ.succ.succ.zero =>
    simp [hlength, List.drop_append, List.drop_of_length_le, List.take_of_length_le]
  case succ.succ.succ.succ => omega

/-- The ratchet as it is shown to developers, without its secrets. -/
def debugText (ratchet : Ratchet) : String :=
  let secret := "Secret \x7b value: \"***\" \x7d"
  "Ratchet \x7b parts: [" ++ ", ".intercalate (ratchet.parts.toList.map fun _ ↦ secret) ++
    "], counter: " ++ ratchet.counter.toNat.repr ++ " \x7d"

/-! ## Moving forward -/

/-- Replaces one part. -/
def rehash (provider : Provider) (step : Rehash) : Action Ratchet RatchetError Unit := do
  let key := (← get).parts[step.source].toList
  let part ← (Action.request provider (.hmacSha256 key [UInt8.ofNat step.target])).mapError .crypto
  modify fun ratchet ↦ { ratchet with parts := ratchet.parts.set step.target part }

/-- Replaces parts one after the other. -/
def rehashAll (provider : Provider) : List Rehash → Action Ratchet RatchetError Unit
  | [] => pure ()
  | step :: steps => do
    rehash provider step
    rehashAll provider steps

/-- Looks through parts for the first one behind which the counter is empty. The mask covers the
bytes behind the part that is looked at, and shrinks by one byte with each part. -/
def seekChanged (counter : UInt32) : (mask : UInt32) → List (Fin 4) → Option (Fin 4)
  | _, [] => none
  | mask, part :: parts =>
    if counter &&& mask = 0 then some part else seekChanged counter (mask >>> 8) parts

theorem toNat_shiftRight_byte (mask : UInt32) : (mask >>> 8).toNat = mask.toNat / 256 := by
  rw [UInt32.toNat_shiftRight]
  exact Nat.shiftRight_eq_div_pow _ 8

/-- The search does not pass by a part with an empty mask, and the mask is empty before the parts
are used up. -/
theorem isSome_seekChanged (counter : UInt32) {mask : UInt32} {part : Fin 4}
    {parts : List (Fin 4)} (hmask : mask.toNat < 256 ^ parts.length) :
    (seekChanged counter mask (part :: parts)).isSome := by
  induction parts generalizing part mask with
  | nil =>
    obtain rfl : mask = 0 := UInt32.toNat_inj.mp (Nat.lt_one_iff.mp hmask)
    simp [seekChanged]
  | cons next parts ih =>
    rw [seekChanged]
    split
    case isTrue => rfl
    case isFalse =>
      apply ih
      rw [toNat_shiftRight_byte]
      rw [List.length_cons, Nat.pow_succ'] at hmask
      exact Nat.div_lt_of_lt_mul hmask

/-- The first byte of a counter that changed with its last step: all bytes behind it are zero. -/
def firstChanged (counter : UInt32) : Fin 4 :=
  (seekChanged counter 0x00ffffff (List.finRange 4)).get (isSome_seekChanged counter (by decide))

/-- Replaces all parts from a given one on, the given one last. -/
def reseed (part : Fin 4) : List Rehash :=
  ((List.finRange 4).filter (part ≤ ·)).reverse.map (⟨part, ·⟩)

/-- Steps on to the next index; behind the last one comes 0. -/
def advance (provider : Provider) : Action Ratchet RatchetError Unit := do
  modify fun ratchet ↦ { ratchet with counter := ratchet.counter + 1 }
  rehashAll provider (reseed (firstChanged (← get).counter))

/-- Takes so many steps, as long as they succeed. -/
def advanceTimes (provider : Provider) : Nat → Action Ratchet RatchetError Unit
  | 0 => pure ()
  | times + 1 => do
    advance provider
    advanceTimes provider times

/-- How far the byte of a part lies from the right end of the counter, in bits. -/
def shift (part : Fin 4) : UInt32 := UInt32.ofNat (8 * (3 - part))

/-- How many steps of a part lie between two indices that have the same higher bytes. -/
def stepsBetween (part : Fin 4) (counter index : UInt32) : UInt32 :=
  ((index >>> shift part) - (counter >>> shift part)) &&& 0xff

/-- What happens to the parts when one of them takes some steps, at least one: all steps but the
last concern that part only. -/
def plan (part : Fin 4) (steps : Nat) : List Rehash :=
  List.replicate (steps - 1) ⟨part, part⟩ ++ reseed part

/-- The index with all bytes behind that of a part set to zero. -/
def clearBehind (part : Fin 4) (index : UInt32) : UInt32 := index &&& (0xffffffff <<< shift part)

/-- Brings the byte of one part to that of the index. -/
def advancePart (provider : Provider) (index : UInt32) (part : Fin 4) :
    Action Ratchet RatchetError Unit := do
  let steps := stepsBetween part (← get).counter index
  if steps = 0 then
    pure ()
  else
    rehashAll provider (plan part steps.toNat)
    modify fun ratchet ↦ { ratchet with counter := clearBehind part index }

/-- Brings the bytes of several parts to those of the index, one after the other. -/
def advanceParts (provider : Provider) (index : UInt32) :
    List (Fin 4) → Action Ratchet RatchetError Unit
  | [] => pure ()
  | part :: parts => do
    advancePart provider index part
    advanceParts provider index parts

/-- Jumps to an index, which must not lie behind the ratchet. -/
def advanceTo (provider : Provider) (index : UInt32) : Action Ratchet RatchetError Unit := do
  let counter := (← get).counter
  if index < counter then
    throw (.indexTooLow counter index)
  else if index = counter then
    pure ()
  else
    advanceParts provider index (List.finRange 4)
    Action.log (.advanced counter index)

/-! ## Message keys -/

/-- What the keys of a message are derived for. -/
def messageKeysInfo : Bytes := Bytes.ofAscii "p2panda-group-session message keys"

/-- The key and the nonce of the message at the index of the ratchet. -/
def messageKeys {σ : Type} (provider : Provider) (ratchet : Ratchet) :
    Action σ RatchetError (FixedBytes 32 × FixedBytes 24) := do
  let material : FixedBytes 56 ←
    (Action.request provider (.hkdf 56 [] ratchet.toBytes.toList messageKeysInfo)).mapError .crypto
  return (material.cut 0 32 (by decide), material.cut 32 24 (by decide))

end Ratchet

end GroupSession
