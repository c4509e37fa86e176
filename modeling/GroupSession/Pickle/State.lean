import GroupSession.Cbor.Value
import GroupSession.Ratchet

/-!
# The state of a session in CBOR

What a pickle holds is a map of four fields, one of which, the ratchet, is a map of two. It is
written in the order of the structures below and with every header in its shortest form. It is read
in any order, without looking at what follows behind it.

Nothing is checked here of what the fields mean to each other.
-/

namespace GroupSession

/-- All that is stored of a session. -/
structure SavedState where
  /-- The ratchet. -/
  ratchet : Ratchet
  /-- What should be the sender's public key. -/
  signingKey : FixedBytes 32
  /-- The first index the session was made for. -/
  firstKnownIndex : UInt32
  /-- Whether the session is known to be the sender's. -/
  verified : Bool
deriving DecidableEq

open Cbor

namespace Ratchet

/-- The names of the fields of a ratchet. -/
def partsName : String := "parts"

@[inherit_doc partsName]
def counterName : String := "counter"

/-- The written form of a ratchet. -/
def encode (ratchet : Ratchet) : Bytes :=
  mapHead 2 ++
    writeText partsName ++ arrayHead 4 ++
      ratchet.parts.toList.flatMap (fun part ↦ writeBytes part.toList) ++
    writeText counterName ++ writeUnsigned ratchet.counter.toNat

/-- The fields of a ratchet that have been read. -/
structure Draft where
  /-- The parts. -/
  parts : Option (Vector (FixedBytes 32) 4) := none
  /-- The counter. -/
  counter : Option UInt32 := none

/-- Reads a field of a ratchet. -/
def readField (levels : Nat) (name : Bytes) (draft : Draft) : Reader Draft := do
  if name = Bytes.ofAscii partsName then
    return { draft with parts := ← Reader.once partsName draft.parts Reader.parts }
  else if name = Bytes.ofAscii counterName then
    return { draft with counter := ← Reader.once counterName draft.counter Reader.uint32 }
  else
    Reader.skip levels
    return draft

/-- Reads a ratchet, in whose fields `levels` more levels may be opened. -/
def read (levels : Nat) : Reader Ratchet := do
  let draft ← Reader.record (readField levels) {}
  let parts ← Reader.need partsName draft.parts
  let counter ← Reader.need counterName draft.counter
  return ⟨parts, counter⟩

end Ratchet

namespace SavedState

/-- How many maps, arrays and tags may be open at a time. -/
def maxLevels : Nat := 256

/-- The names of the fields of a stored state. -/
def ratchetName : String := "ratchet"

@[inherit_doc ratchetName]
def signingKeyName : String := "signing_key"

@[inherit_doc ratchetName]
def firstKnownIndexName : String := "first_known_index"

@[inherit_doc ratchetName]
def verifiedName : String := "verified"

/-- The written form of a stored state. -/
def encode (state : SavedState) : Bytes :=
  mapHead 4 ++
    writeText ratchetName ++ state.ratchet.encode ++
    writeText signingKeyName ++ writeBytes state.signingKey.toList ++
    writeText firstKnownIndexName ++ writeUnsigned state.firstKnownIndex.toNat ++
    writeText verifiedName ++ writeBool state.verified

/-- The fields of a stored state that have been read. -/
structure Draft where
  /-- The ratchet. -/
  ratchet : Option Ratchet := none
  /-- The sender's key. -/
  signingKey : Option (FixedBytes 32) := none
  /-- The first index. -/
  firstKnownIndex : Option UInt32 := none
  /-- Whether the sender is verified. -/
  verified : Option Bool := none

/-- Reads a field of a stored state. The map around it is one level. -/
def readField (name : Bytes) (draft : Draft) : Reader Draft := do
  if name = Bytes.ofAscii ratchetName then
    return { draft with
      ratchet := ← Reader.once ratchetName draft.ratchet (Ratchet.read (maxLevels - 2)) }
  else if name = Bytes.ofAscii signingKeyName then
    return { draft with signingKey := ← Reader.once signingKeyName draft.signingKey Reader.key }
  else if name = Bytes.ofAscii firstKnownIndexName then
    return { draft with
      firstKnownIndex := ←
        Reader.once firstKnownIndexName draft.firstKnownIndex Reader.uint32 }
  else if name = Bytes.ofAscii verifiedName then
    return { draft with verified := ← Reader.once verifiedName draft.verified Reader.bool }
  else
    Reader.skip (maxLevels - 1)
    return draft

/-- Reads a stored state. -/
def read : Reader SavedState := do
  let draft ← Reader.record readField {}
  let ratchet ← Reader.need ratchetName draft.ratchet
  let signingKey ← Reader.need signingKeyName draft.signingKey
  let firstKnownIndex ← Reader.need firstKnownIndexName draft.firstKnownIndex
  let verified ← Reader.need verifiedName draft.verified
  return ⟨ratchet, signingKey, firstKnownIndex, verified⟩

/-- The stored state that the bytes begin with. -/
def decode (bytes : Bytes) : Except DecodeError SavedState := read.run' ⟨bytes, 0⟩

end SavedState

end GroupSession
