import GroupSession.Pickle.State
import GroupSession.RandomSource

/-!
# Pickles

A pickle is the stored state of a session, encrypted under a key that the caller supplies.

```text
version (1) | salt (16 bytes) | nonce (24 bytes) | ciphertext | tag (16 bytes)
```

The key that encrypts is derived from the caller's key, which may be of any length, and the salt.
Salt and nonce are drawn for each pickle, and they are drawn first, so that a pickle which fails
later has used them up all the same. The version is authenticated together with the state.
-/

namespace GroupSession

open Cbor

/-- What is wrong with a state that could be read. -/
inductive StateFault
  /-- The session would know messages that its ratchet can not reach. -/
  | indexBehindFirstKnown
  /-- The sender's public key is none. -/
  | invalidSigningKey
deriving DecidableEq, Repr

/-- The name of a fault. -/
def StateFault.describe : StateFault → String
  | indexBehindFirstKnown => "ratchet index lies behind first known index"
  | invalidSigningKey => "invalid signing key"

/-- What is wrong with the form of a pickle. -/
inductive PickleFault
  /-- There are too few bytes. -/
  | tooShort (length : Nat)
  /-- The state can not be read. -/
  | decode (fault : DecodeError)
  /-- The state is not that of a session. -/
  | invalidState (fault : StateFault)
deriving DecidableEq, Repr

/-- The text of a fault. -/
def PickleFault.message : PickleFault → String
  | tooShort length => s!"pickle with {length} bytes is too short"
  | decode fault => fault.message
  | invalidState fault => s!"invalid session state in pickle: {fault.describe}"

/-- Why there is no pickle, or no state in one. -/
inductive PickleError
  /-- The first byte is that of another format. -/
  | unsupportedVersion (version : UInt8)
  /-- The pickle was not made with this key, or was changed. -/
  | badKey
  /-- The pickle is malformed. -/
  | malformed (fault : PickleFault)
  /-- The provider failed. -/
  | crypto (failure : Failure)
deriving DecidableEq, Repr

/-! ## Bytes -/

/-- A pickle, not yet opened. -/
structure Pickle where
  /-- What the encrypting key is derived with. -/
  salt : FixedBytes 16
  /-- What the state was encrypted with, beside the key. -/
  nonce : FixedBytes 24
  /-- The encrypted state. -/
  content : Sealed
deriving DecidableEq

namespace Pickle

/-- The first byte. -/
def version : UInt8 := 1

/-- Bytes in a pickle with nothing in it. -/
def minSize : Nat := 57

/-- What is authenticated together with the state. -/
def associated : Bytes := [version]

/-- The written form of a pickle. -/
def toBytes (pickle : Pickle) : Bytes :=
  version :: pickle.salt.toList ++ pickle.nonce.toList ++ pickle.content.ciphertext ++
    pickle.content.tag.toList

/-- The fields of a pickle in bytes that are long enough, whatever the version. -/
def fieldsOf (bytes : Bytes) (h : 57 ≤ bytes.length) : Pickle where
  salt := FixedBytes.slice bytes 1 16 (by omega)
  nonce := FixedBytes.slice bytes 17 24 (by omega)
  content := {
    ciphertext := (bytes.drop 41).take (bytes.length - 57)
    tag := FixedBytes.slice bytes (bytes.length - 16) 16 (by omega) }

/-- The pickle that the bytes are the written form of. -/
def ofBytes (bytes : Bytes) : Except PickleError Pickle :=
  match bytes with
  | [] => .error (.malformed (.tooShort 0))
  | first :: _ =>
    if first ≠ version then .error (.unsupportedVersion first)
    else if h : bytes.length < minSize then .error (.malformed (.tooShort bytes.length))
    else .ok (fieldsOf bytes (Nat.le_of_not_lt h))

/-! ## Making and opening -/

/-- What the encrypting key is derived for. -/
def keyInfo : Bytes := Bytes.ofAscii "p2panda-group-session pickle"

/-- The encrypting key. -/
def deriveKey {σ : Type} (provider : Provider) (key : Bytes) (salt : FixedBytes 16) :
    Action σ PickleError (FixedBytes 32) :=
  (Action.request provider (.hkdf 32 salt.toList key keyInfo)).mapError .crypto

/-- Encrypts a state with a salt and a nonce drawn from the source. -/
def make (provider : Provider) (key : Bytes) (state : SavedState) :
    Action RandomSource PickleError Pickle := do
  let salt ← modifyGet (RandomSource.draw 16)
  let nonce ← modifyGet (RandomSource.draw 24)
  let encryptingKey ← deriveKey provider key salt
  let content : Sealed ←
    (Action.request provider (.aeadEncrypt encryptingKey nonce associated state.encode)).mapError
      .crypto
  return { salt, nonce, content }

/-- The state in a pickle, if it is one that a session can have; its key is not yet checked. -/
def unlock {σ : Type} (provider : Provider) (key bytes : Bytes) :
    Action σ PickleError SavedState := do
  let pickle ← Action.ofExcept (ofBytes bytes)
  let encryptingKey ← deriveKey provider key pickle.salt
  let plaintext : Bytes ←
    (Action.request provider
      (.aeadDecrypt encryptingKey pickle.nonce associated pickle.content)).mapError
      fun _ ↦ .badKey
  let state ← Action.ofExcept ((SavedState.decode plaintext).mapError (.malformed <| .decode ·))
  if state.ratchet.counter < state.firstKnownIndex then
    throw (.malformed (.invalidState .indexBehindFirstKnown))
  return state

end Pickle

end GroupSession
