import GroupSession.Cipher.XChaCha20Poly1305
import GroupSession.Ed25519.Signature
import GroupSession.Hash.Hkdf

/-!
# Providers of cryptography

Ratchets, keys, sessions and pickles do no cryptography themselves. They make requests to a
provider, which answers each one or fails.

## What a provider may do

The answer to a request may depend on all requests made before. So there are providers which fail
at some point and recover, and providers which answer the same request differently each time.
`Provider.ofFunction` makes one that does not look back, and `Provider.standard` is the one to use
when there is no reason for another.
-/

namespace GroupSession

open Ed25519

/-- The kinds of requests. -/
inductive Primitive
  | hmacSha256
  | hkdf
  | aeadEncrypt
  | aeadDecrypt
  | verify
deriving DecidableEq, Repr

/-- A request for cryptography. -/
inductive Request
  /-- The keyed hash of some data. -/
  | hmacSha256 (key data : Bytes)
  /-- So many bytes of key material, derived from salt and input for a purpose. -/
  | hkdf (size : Nat) (salt input info : Bytes)
  /-- The encryption of a plaintext, authenticated together with associated data. -/
  | aeadEncrypt (key : FixedBytes 32) (nonce : FixedBytes 24) (associated plaintext : Bytes)
  /-- The decryption of what is authentic. -/
  | aeadDecrypt (key : FixedBytes 32) (nonce : FixedBytes 24) (associated : Bytes)
    (given : Sealed)
  /-- The check of a signature. -/
  | verify (key : VerifyingKey) (message : Bytes) (signature : Signature)
deriving DecidableEq

namespace Request

/-- The kind of a request. -/
def primitive : Request → Primitive
  | hmacSha256 .. => .hmacSha256
  | hkdf .. => .hkdf
  | aeadEncrypt .. => .aeadEncrypt
  | aeadDecrypt .. => .aeadDecrypt
  | verify .. => .verify

/-- What a request is answered with. -/
abbrev Answer : Request → Type
  | hmacSha256 .. => FixedBytes 32
  | hkdf size .. => FixedBytes size
  | aeadEncrypt .. => Sealed
  | aeadDecrypt .. => Bytes
  | verify .. => Unit

end Request

/-- Why a provider did not answer, in its own words. -/
structure Failure where
  /-- The words. -/
  description : String
deriving DecidableEq, Repr

/-- What answers requests, given those made before, the latest first. -/
structure Provider where
  /-- The answer or the failure. -/
  answer : List Request → (request : Request) → Except Failure request.Answer

/-- How the cryptography of this library fails. -/
inductive CryptoError
  /-- More key material is wanted than can be derived at once. -/
  | tooMuchKeyMaterial
  /-- The tag does not belong to what should be decrypted. -/
  | notAuthentic
  /-- The signature does not belong to the message and the key. -/
  | wrongSignature
deriving DecidableEq, Repr

/-- The text of an error. -/
def CryptoError.message : CryptoError → String
  | tooMuchKeyMaterial => "arguments too large for hkdf"
  | notAuthentic => "could not decrypt with xchacha20poly1305 aead: aead::Error"
  | wrongSignature => "signature does not match public key and payload"

namespace Request

/-- The answer to a request by the cryptography of this library. -/
def compute : (request : Request) → Except CryptoError request.Answer
  | hmacSha256 key data => .ok (GroupSession.hmacSha256 key data)
  | hkdf size salt input info =>
    (hkdfSha256 size salt input info).elim (.error .tooMuchKeyMaterial) .ok
  | aeadEncrypt key nonce associated plaintext =>
    .ok (XChaCha20Poly1305.encrypt key nonce associated plaintext)
  | aeadDecrypt key nonce associated given =>
    (XChaCha20Poly1305.decrypt key nonce associated given).elim (.error .notAuthentic) .ok
  | verify key message signature =>
    if key.verifies message signature then .ok () else .error .wrongSignature

end Request

namespace Provider

/-- The provider that answers every request on its own. -/
def ofFunction (f : (request : Request) → Except Failure request.Answer) : Provider :=
  ⟨fun _ request ↦ f request⟩

/-- The provider that uses the cryptography of this library. -/
def standard : Provider :=
  ofFunction fun request ↦ request.compute.mapError fun error ↦ ⟨error.message⟩

/-- The provider that answers the first `count` requests of one kind as another provider does, and
fails at all later ones. -/
def failingAfter (provider : Provider) (primitive : Primitive) (count : Nat) (failure : Failure) :
    Provider where
  answer history request :=
    if request.primitive = primitive ∧ count ≤ history.countP (·.primitive = primitive) then
      .error failure
    else provider.answer history request

end Provider

end GroupSession
