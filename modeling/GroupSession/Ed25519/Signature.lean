import GroupSession.Ed25519.Curve
import GroupSession.Hash.Sha2

/-!
# Ed25519 keys and signatures

A signing key is a seed of 32 bytes, from whose hash the secret multiple of the base point and
the key of the signature's randomness are taken. A signature is a commitment to a random multiple
of the base point and the answer to a challenge, the hash of that commitment, the public key and
the message.

Checking is strict about what is compared and lenient about the key: the commitment is recomputed
and must agree byte by byte with its one written form, the answer must be reduced, but any bytes
that are read as a point will do as a key, points of small order included. The bytes of a key are
kept and hashed as they were given.
-/

namespace GroupSession

namespace Ed25519

/-- The order of the base point. -/
def order : Nat := 2 ^ 252 + 27742317777372353535851937790883648493

/-- Bytes in a public key. -/
def verifyingKeySize : Nat := 32

/-- Bytes in a signature. -/
def signatureSize : Nat := 64

/-- A signature: a written point followed by a number. -/
abbrev Signature := FixedBytes 64

/-- A public key, by which signatures are checked. -/
structure VerifyingKey where
  /-- The key as it was given. -/
  bytes : FixedBytes 32
deriving DecidableEq

namespace VerifyingKey

/-- The key of the given bytes, if they are read as a point of the curve. -/
def ofBytes? (bytes : FixedBytes 32) : Option VerifyingKey :=
  (Point.ofBytes? bytes).map fun _ ↦ ⟨bytes⟩

/-- Whether the bytes of a key are read as a point of the curve. -/
def Valid (key : VerifyingKey) : Prop := ofBytes? key.bytes = some key

instance (key : VerifyingKey) : Decidable key.Valid :=
  inferInstanceAs (Decidable (ofBytes? key.bytes = some key))

theorem bytes_of_ofBytes? {bytes : FixedBytes 32} {key : VerifyingKey}
    (h : ofBytes? bytes = some key) : key.bytes = bytes := by
  obtain ⟨_, _, rfl⟩ := Option.map_eq_some_iff.mp h
  rfl

theorem valid_of_ofBytes? {bytes : FixedBytes 32} {key : VerifyingKey}
    (h : ofBytes? bytes = some key) : key.Valid := by
  rw [Valid, bytes_of_ofBytes? h, h]

/-- The number that commitment, key and message ask the signer to answer. -/
def challenge (commitment : FixedBytes 32) (key : VerifyingKey) (message : Bytes) : Nat :=
  Bytes.toNatLE (sha512 (commitment.toList ++ key.bytes.toList ++ message)).toList % order

/-- Whether a signature was made for the message by the owner of the key. -/
def verifies (key : VerifyingKey) (message : Bytes) (signature : Signature) : Bool :=
  let commitment := signature.cut 0 32 (by decide)
  let answer := Bytes.toNatLE (signature.cut 32 32 (by decide)).toList
  match Point.ofBytes? key.bytes with
  | none => false
  | some point =>
    decide (answer < order) &&
      ((Point.multiple answer Point.base).add
        (Point.multiple (key.challenge commitment message) point.neg)).toBytes == commitment

end VerifyingKey

/-! ## Signing -/

namespace Seed

/-- The secret multiple of the base point: a multiple of 8 with the bit 254 as its highest. -/
def scalar (seed : FixedBytes 32) : Nat :=
  let n := Bytes.toNatLE ((sha512 seed.toList).toList.take 32)
  n % 2 ^ 254 / 8 * 8 + 2 ^ 254

/-- The secret that makes a signature's randomness differ from message to message. -/
def randomnessKey (seed : FixedBytes 32) : Bytes := (sha512 seed.toList).toList.drop 32

/-- The public key that belongs to a seed. -/
def verifyingKey (seed : FixedBytes 32) : VerifyingKey :=
  ⟨(Point.multiple (scalar seed) Point.base).toBytes⟩

end Seed

/-- A secret key, by which messages are signed, together with the public key that belongs to it. -/
structure SigningKey where
  /-- What everything else is derived from. -/
  seed : FixedBytes 32
  /-- The public key. -/
  verifyingKey : VerifyingKey
  /-- The public key is that of the seed. -/
  belongs : verifyingKey = Seed.verifyingKey seed
deriving DecidableEq

namespace SigningKey

/-- The key of a seed. -/
def ofSeed (seed : FixedBytes 32) : SigningKey := ⟨seed, Seed.verifyingKey seed, rfl⟩

/-- The signature of a message. -/
def sign (key : SigningKey) (message : Bytes) : Signature :=
  let random := Bytes.toNatLE (sha512 (Seed.randomnessKey key.seed ++ message)).toList % order
  let commitment := (Point.multiple random Point.base).toBytes
  let challenge := key.verifyingKey.challenge commitment message
  let answer := (random + challenge * Seed.scalar key.seed) % order
  commitment.append ⟨Bytes.ofNatLE 32 answer, Bytes.length_ofNatLE _ _⟩

end SigningKey

end Ed25519

end GroupSession
