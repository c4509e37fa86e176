import GroupSession.RandomSource
import GroupSession.SessionKey

/-!
# Senders

The other side of a session: it encrypts each message with the keys at its ratchet's index, signs
it, and steps on to the next index.
-/

namespace GroupSession

open Ed25519

/-- The sending side of a group session. -/
structure Sender where
  /-- The ratchet, at the index of the next message. -/
  ratchet : Ratchet
  /-- The key that signs session key and messages. -/
  signingKey : SigningKey
deriving DecidableEq

namespace Sender

/-- A sender at index 0, with secrets drawn from the source. -/
def ofRandom (source : RandomSource) : Sender × RandomSource :=
  let (parts, source) := source.draw 128
  let (seed, source) := source.draw 32
  (⟨Ratchet.ofBytes parts 0, .ofSeed seed⟩, source)

/-- The public name of the session. -/
def id (sender : Sender) : SessionId := .ofKey sender.signingKey.verifyingKey

/-- The index of the next message. -/
def messageIndex (sender : Sender) : UInt32 := sender.ratchet.counter

/-- The key by which a receiver can join the session from the next message on. -/
def sessionKey (sender : Sender) : SessionKey := .sign sender.signingKey sender.ratchet

/-- The signed message with the given contents. -/
def sign (sender : Sender) (index : UInt32) (content : Sealed) : Message :=
  let unsigned : Message := ⟨index, content.ciphertext, content.tag, FixedBytes.zero 64⟩
  { unsigned with signature := sender.signingKey.sign unsigned.signedBytes }

/-- Encrypts and signs a text as the next message. -/
def encrypt (provider : Provider) (plaintext : Bytes) : Action Sender RatchetError Message := do
  let sender ← get
  let index := sender.messageIndex
  let (key, nonce) ← sender.ratchet.messageKeys provider
  let content : Sealed ←
    (Action.request provider
      (.aeadEncrypt key nonce (Message.header index) plaintext)).mapError .crypto
  let ratchet ← Action.onCopy (Ratchet.advance provider) sender.ratchet
  set { sender with ratchet }
  return sender.sign index content

/-- Passes over so many messages: they are made, with nothing in them, and not sent. -/
def skip (provider : Provider) : Nat → Action Sender RatchetError Unit
  | 0 => pure ()
  | times + 1 => do
    let _ ← encrypt provider []
    skip provider times

end Sender

end GroupSession
