import GroupSession.Pickle
import GroupSession.SessionKey

/-!
# Receiving sessions

A session decrypts the messages of one sender from some index on. Its ratchet stands at the index
of the last message it has decrypted, so that messages may get lost or come late, but none is
decrypted that lies before one already decrypted.

## Trust

A session made from the key that its sender has signed is verified. One made from a key that
another receiver shared is not, until a message has been decrypted: only then is it known that the
ratchet is the one the sender uses.

## What an operation may change

Only decrypting changes a session. All its checks are made with a copy of the ratchet, and the
session takes over the copy when the last check has passed. A message that is rejected, for
whatever reason, leaves the session as it was.
-/

namespace GroupSession

open Ed25519

/-- The receiving side of a group session. -/
structure Session where
  /-- The ratchet, at the index of the last message. -/
  ratchet : Ratchet
  /-- The sender's public key. -/
  signingKey : VerifyingKey
  /-- The first index the session was made for. -/
  firstKnownIndex : UInt32
  /-- Whether the ratchet is known to be the sender's. -/
  verified : Bool
deriving DecidableEq

/-- Why an operation on a session failed. -/
inductive SessionError
  /-- The session key is malformed. -/
  | invalidKey (fault : SessionKeyError)
  /-- The message is malformed. -/
  | malformedMessage (fault : MessageError)
  /-- The pickle is malformed. -/
  | malformedPickle (fault : PickleFault)
  /-- The index lies before those that the session can still reach. -/
  | indexTooLow (index lowest : UInt32)
  /-- The signature was not made by the sender. -/
  | signature
  /-- The message was not encrypted with the keys of its index. -/
  | macMismatch
  /-- The pickle has another format. -/
  | unsupportedVersion (version : UInt8)
  /-- The pickle was not made with this key, or was changed. -/
  | badPickleKey
  /-- The provider failed. -/
  | crypto (failure : Failure)
deriving DecidableEq, Repr

namespace SessionError

/-- The text of an error. -/
def message : SessionError → String
  | invalidKey fault => s!"invalid session key: {fault.message}"
  | malformedMessage fault => s!"malformed group message: {fault.message}"
  | malformedPickle fault => s!"malformed pickle: {fault.message}"
  | indexTooLow index lowest =>
    s!"message index {index.toNat} is lower than the lowest decryptable index {lowest.toNat}"
  | signature => "signature does not match signing key of group session"
  | macMismatch => "message authentication code does not match"
  | unsupportedVersion version => s!"unsupported pickle version {version.toNat}"
  | badPickleKey => "pickle key does not match or pickle is corrupted"
  | crypto failure => s!"group session crypto failed: {failure.description}"

/-- What a bad session key means to a session. -/
def ofKey : SessionKeyError → SessionError
  | .invalidSignature => signature
  | fault => invalidKey fault

/-- What a ratchet that did not move means to a session. -/
def ofRatchet : RatchetError → SessionError
  | .indexTooLow current target => indexTooLow target current
  | .crypto failure => crypto failure

/-- What a pickle that can not be made or opened means to a session. -/
def ofPickle : PickleError → SessionError
  | .unsupportedVersion version => unsupportedVersion version
  | .badKey => badPickleKey
  | .malformed fault => malformedPickle fault
  | .crypto failure => crypto failure

end SessionError

namespace Session

/-- The public name of the session. -/
def id (session : Session) : SessionId := .ofKey session.signingKey

/-- The lowest index that can be decrypted. -/
def messageIndex (session : Session) : UInt32 := session.ratchet.counter

/-- A session as it is shown to developers, without its secrets. -/
def debugText (session : Session) : String :=
  "InboundGroupSession \x7b ratchet: " ++ session.ratchet.debugText ++
    ", signing_key: " ++ session.signingKey.debugText ++
    ", first_known_index: " ++ session.firstKnownIndex.toNat.repr ++
    ", verified: " ++ (if session.verified then "true" else "false") ++ " \x7d"

variable {σ : Type}

/-! ## Making sessions -/

/-- The session that starts where a ratchet stands. -/
def ofRatchet (ratchet : Ratchet) (signingKey : VerifyingKey) (verified : Bool) : Session :=
  ⟨ratchet, signingKey, ratchet.counter, verified⟩

/-- A session from the key that its sender handed out. -/
def init (provider : Provider) (key : Bytes) : Action σ SessionError Session := do
  let key ← Action.ofExcept ((SessionKey.ofBytes key).mapError .ofKey)
  let signer ← (key.verify provider).mapError .ofKey
  let session := ofRatchet key.material.ratchet signer true
  Action.log (.initialised session.id session.firstKnownIndex)
  return session

/-- A session from the key that another receiver shared. -/
def importKey (key : Bytes) : Action σ SessionError Session := do
  let key ← Action.ofExcept ((ExportedSessionKey.ofBytes key).mapError .ofKey)
  let signer ← Action.ofExcept (key.material.verifyingKey.mapError .ofKey)
  let session := ofRatchet key.material.ratchet signer false
  Action.log (.imported session.id session.firstKnownIndex)
  return session

/-! ## Using sessions -/

/-- Decrypts a message, if it is authentic. Answers with the text and the index. -/
def decrypt (provider : Provider) (bytes : Bytes) :
    Action Session SessionError (Bytes × UInt32) := do
  let message ← Action.ofExcept ((Message.ofBytes bytes).mapError .malformedMessage)
  let session ← get
  if message.index < session.firstKnownIndex ∨ message.index < session.messageIndex then
    throw (.indexTooLow message.index session.messageIndex)
  (Action.request provider
    (.verify session.signingKey message.signedBytes message.signature)).mapError fun _ ↦ .signature
  let ratchet ← (Action.onCopy (Ratchet.advanceTo provider message.index)
    session.ratchet).mapError .ofRatchet
  let (key, nonce) ← (ratchet.messageKeys provider).mapError .ofRatchet
  let plaintext : Bytes ←
    (Action.request provider
      (.aeadDecrypt key nonce (Message.header message.index)
        ⟨message.ciphertext, message.mac⟩)).mapError fun _ ↦ .macMismatch
  set { session with ratchet, verified := true }
  Action.log (.decrypted session.id message.index)
  return (plaintext, message.index)

/-- The key by which another receiver can join the session from an index on. -/
def exportKey (provider : Provider) (session : Session) (index : UInt32) :
    Action σ SessionError ExportedSessionKey := do
  let ratchet ← (Action.onCopy (Ratchet.advanceTo provider index)
    session.ratchet).mapError .ofRatchet
  return ⟨ratchet, session.signingKey.bytes⟩

/-! ## Storing sessions -/

/-- What is stored of a session. -/
def save (session : Session) : SavedState :=
  ⟨session.ratchet, session.signingKey.bytes, session.firstKnownIndex, session.verified⟩

/-- The session that is stored, if its key is one. -/
def restore? (state : SavedState) : Option Session :=
  (VerifyingKey.ofBytes? state.signingKey).map fun signingKey ↦
    ⟨state.ratchet, signingKey, state.firstKnownIndex, state.verified⟩

/-- Stores a session under a key. -/
def pickle (provider : Provider) (session : Session) (key : Bytes) :
    Action RandomSource SessionError Bytes := do
  let pickle ← (Pickle.make provider key session.save).mapError .ofPickle
  return pickle.toBytes

/-- Restores a session that was stored under the same key. -/
def unpickle (provider : Provider) (key bytes : Bytes) : Action σ SessionError Session := do
  let state ← (Pickle.unlock provider key bytes).mapError .ofPickle
  let session ← Action.ofExcept
    ((restore? state).elim (.error (.malformedPickle (.invalidState .invalidSigningKey))) .ok)
  Action.log (.restored session.id session.messageIndex)
  return session

end Session

end GroupSession
