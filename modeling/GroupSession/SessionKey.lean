import GroupSession.Message
import GroupSession.Ratchet

/-!
# Session keys

A session key is what a receiver needs to join a session: a ratchet and the public key of the
sender. The sender hands it out signed. A receiver can share it further from any index on that its
own ratchet can still reach, but has nothing to sign it with.

```text
version (2) | index (4 bytes) | parts (128 bytes) | public key (32 bytes) | signature (64 bytes)
version (1) | index (4 bytes) | parts (128 bytes) | public key (32 bytes)
```

The bytes of the public key are only checked to be a key when a session is made of it.
-/

namespace GroupSession

open Ed25519

/-- Why bytes are no session key, or no good one. -/
inductive SessionKeyError
  /-- There are too many bytes or too few. -/
  | invalidLength (expected given : Nat)
  /-- The first byte is that of another format. -/
  | unknownVersion (version : UInt8)
  /-- The public key is none. -/
  | invalidSigningKey
  /-- The signature was not made with the sender's key. -/
  | invalidSignature
deriving DecidableEq, Repr

/-- The text of the error for bytes which are no public key. -/
def invalidVerifyingKeyMessage : String := "invalid ed25519 verifying key"

/-- The text of an error. -/
def SessionKeyError.message : SessionKeyError → String
  | invalidLength expected given => s!"expected session key with {expected} bytes, got {given}"
  | unknownVersion version => s!"unknown session key version {version.toNat}"
  | invalidSigningKey => "invalid signing key in session key: " ++ invalidVerifyingKeyMessage
  | invalidSignature => "session key signature does not match signing key"

/-! ## What both keys hold -/

/-- A ratchet and the bytes of the sender's public key. -/
structure KeyMaterial where
  /-- The ratchet. -/
  ratchet : Ratchet
  /-- What should be the sender's public key. -/
  signingKey : FixedBytes 32
deriving DecidableEq

namespace KeyMaterial

/-- The written form behind a version. -/
def toBytes (version : UInt8) (material : KeyMaterial) : Bytes :=
  version :: (indexBytes material.ratchet.counter).toList ++ material.ratchet.toBytes.toList ++
    material.signingKey.toList

/-- The ratchet and the key that are written behind a version. -/
def ofBytes (bytes : FixedBytes 165) : KeyMaterial where
  ratchet := Ratchet.ofBytes (bytes.cut 5 128 (by decide))
    (indexOfBytes (bytes.cut 1 4 (by decide)))
  signingKey := bytes.cut 133 32 (by decide)

/-- The sender's public key, if the bytes are one. -/
def verifyingKey (material : KeyMaterial) : Except SessionKeyError VerifyingKey :=
  (VerifyingKey.ofBytes? material.signingKey).elim (.error .invalidSigningKey) .ok

end KeyMaterial

/-- The bytes, if they do not begin with another version and have the right length. -/
def checkLayout (version : UInt8) (size : Nat) (bytes : Bytes) :
    Except SessionKeyError (FixedBytes size) :=
  match bytes.head?.filter (· ≠ version), FixedBytes.ofList? size bytes with
  | some other, _ => .error (.unknownVersion other)
  | none, none => .error (.invalidLength size bytes.length)
  | none, some bytes => .ok bytes

/-! ## The signed key -/

/-- A key as the sender hands it out. -/
structure SessionKey where
  /-- What the key holds. -/
  material : KeyMaterial
  /-- The sender's signature. -/
  signature : Signature
deriving DecidableEq

namespace SessionKey

/-- The first byte. -/
def version : UInt8 := 2

/-- Bytes in the written form. -/
def size : Nat := 229

/-- Everything that is signed. -/
def signedBytes (key : SessionKey) : Bytes := key.material.toBytes version

/-- The written form. -/
def toBytes (key : SessionKey) : Bytes := key.signedBytes ++ key.signature.toList

/-- The key that the bytes are the written form of. -/
def ofBytes (bytes : Bytes) : Except SessionKeyError SessionKey :=
  (checkLayout version size bytes).map fun bytes ↦
    { material := KeyMaterial.ofBytes (bytes.cut 0 165 (by decide))
      signature := bytes.cut 165 64 (by decide) }

/-- The key that a sender hands out for its ratchet. -/
def sign (key : SigningKey) (ratchet : Ratchet) : SessionKey :=
  let material : KeyMaterial := ⟨ratchet, key.verifyingKey.bytes⟩
  ⟨material, key.sign (material.toBytes version)⟩

/-- The sender's public key, if it is one and has signed. -/
def verify {σ : Type} (provider : Provider) (key : SessionKey) :
    Action σ SessionKeyError VerifyingKey := do
  let signer ← Action.ofExcept key.material.verifyingKey
  (Action.request provider (.verify signer key.signedBytes key.signature)).mapError
    fun _ ↦ .invalidSignature
  return signer

/-- A key as it is shown to developers, without its secrets. -/
def debugText (_ : SessionKey) : String := "SessionKey(Secret \x7b value: \"***\" \x7d)"

end SessionKey

/-! ## The key that is passed on -/

/-- A key as a receiver shares it. -/
structure ExportedSessionKey where
  /-- What the key holds. -/
  material : KeyMaterial
deriving DecidableEq

namespace ExportedSessionKey

/-- The first byte. -/
def version : UInt8 := 1

/-- Bytes in the written form. -/
def size : Nat := 165

/-- The written form. -/
def toBytes (key : ExportedSessionKey) : Bytes := key.material.toBytes version

/-- The key that the bytes are the written form of. -/
def ofBytes (bytes : Bytes) : Except SessionKeyError ExportedSessionKey :=
  (checkLayout version size bytes).map fun bytes ↦ ⟨KeyMaterial.ofBytes bytes⟩

/-- A key as it is shown to developers, without its secrets. -/
def debugText (_ : ExportedSessionKey) : String :=
  "ExportedSessionKey(Secret \x7b value: \"***\" \x7d)"

end ExportedSessionKey

end GroupSession
