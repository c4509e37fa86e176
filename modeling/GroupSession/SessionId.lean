import GroupSession.Ed25519.Signature

/-!
# Session identifiers

A session is known by the public key of its sender. The identifier is no secret, it may be shown
and logged, and identifiers are ordered as their bytes are.
-/

namespace GroupSession

/-- The public name of a session. -/
structure SessionId where
  /-- The bytes of the sender's public key. -/
  bytes : FixedBytes 32
deriving DecidableEq

namespace SessionId

/-- The name of the sessions of a sender. -/
def ofKey (key : Ed25519.VerifyingKey) : SessionId := ⟨key.bytes⟩

/-- The identifier in hexadecimal digits. -/
def hex (id : SessionId) : String := Bytes.hex id.bytes.toList

/-- Identifiers compare as their first different bytes do. -/
instance : Ord SessionId := ⟨fun a b ↦ compare a.bytes.toList b.bytes.toList⟩

/-- The identifier as it is shown to developers. -/
def debugText (id : SessionId) : String := "SessionId(" ++ Bytes.listing id.bytes.toList ++ ")"

end SessionId

namespace Ed25519

/-- A public key as it is shown to developers. -/
def VerifyingKey.debugText (key : VerifyingKey) : String :=
  "VerifyingKey(" ++ Bytes.listing key.bytes.toList ++ ")"

end Ed25519

end GroupSession
