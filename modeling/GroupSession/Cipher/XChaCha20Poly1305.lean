import GroupSession.Cipher.ChaCha20
import GroupSession.Cipher.Poly1305

/-!
# Authenticated encryption with XChaCha20-Poly1305

A message is combined with the key stream of ChaCha20 and authenticated by a tag of Poly1305,
together with associated data that is not encrypted. The nonce is long enough to be drawn at
random: its first sixteen bytes only serve to derive the key that the rest is used with.

The first block of the key stream is the key of the tag, the message is encrypted with the blocks
that follow. The tag is taken of the encrypted message, so that nothing is decrypted before it is
known to be authentic.
-/

namespace GroupSession

/-- What encryption makes of a message: as many bytes, and the tag that authenticates them. -/
structure Sealed where
  /-- The message, encrypted. -/
  ciphertext : Bytes
  /-- The tag of the encrypted message and its associated data. -/
  tag : FixedBytes 16
deriving DecidableEq

namespace XChaCha20Poly1305

/-- Bytes in a key. -/
def keySize : Nat := 32

/-- Bytes in a nonce. -/
def nonceSize : Nat := 24

/-- Bytes in a tag. -/
def tagSize : Nat := 16

/-- Key and nonce of the stream cipher that belong to a key and a long nonce. -/
def streamKey (key : FixedBytes 32) (nonce : FixedBytes 24) : FixedBytes 32 × FixedBytes 8 :=
  (ChaCha20.deriveKey key (nonce.cut 0 16 (by decide)), nonce.cut 16 8 (by decide))

/-- Combines a text with the key stream; what encrypts also decrypts. -/
def crypt (key : FixedBytes 32) (nonce : FixedBytes 24) (text : Bytes) : Bytes :=
  let (key, nonce) := streamKey key nonce
  Bytes.xor text (ChaCha20.keyStream key nonce 1 text.length).toList

@[simp] theorem length_crypt (key : FixedBytes 32) (nonce : FixedBytes 24) (text : Bytes) :
    (crypt key nonce text).length = text.length := by
  simp only [crypt, Bytes.length_xor, FixedBytes.length_toList, Nat.min_self]

@[simp] theorem crypt_crypt (key : FixedBytes 32) (nonce : FixedBytes 24) (text : Bytes) :
    crypt key nonce (crypt key nonce text) = text := by
  have hlength : (crypt key nonce text).length = text.length := length_crypt key nonce text
  rw [crypt, hlength]
  exact Bytes.xor_xor_cancel (Nat.le_of_eq (FixedBytes.length_toList _).symm)

/-- The tag of an encrypted message with its associated data. Both are filled up to whole blocks,
and their lengths follow. -/
def authenticate (key : FixedBytes 32) (nonce : FixedBytes 24) (associated ciphertext : Bytes) :
    FixedBytes 16 :=
  let (key, nonce) := streamKey key nonce
  Poly1305.tag (ChaCha20.keyStream key nonce 0 32)
    (Bytes.padToMultiple 16 associated ++ Bytes.padToMultiple 16 ciphertext ++
      Bytes.ofNatLE 8 associated.length ++ Bytes.ofNatLE 8 ciphertext.length)

/-- Encrypts and authenticates a message. -/
def encrypt (key : FixedBytes 32) (nonce : FixedBytes 24) (associated plaintext : Bytes) :
    Sealed :=
  let ciphertext := crypt key nonce plaintext
  ⟨ciphertext, authenticate key nonce associated ciphertext⟩

/-- Decrypts what is authentic, and nothing else. -/
def decrypt (key : FixedBytes 32) (nonce : FixedBytes 24) (associated : Bytes) (given : Sealed) :
    Option Bytes :=
  if authenticate key nonce associated given.ciphertext = given.tag then
    some (crypt key nonce given.ciphertext)
  else none

/-- What was encrypted is decrypted. -/
@[simp] theorem decrypt_encrypt (key : FixedBytes 32) (nonce : FixedBytes 24)
    (associated plaintext : Bytes) :
    decrypt key nonce associated (encrypt key nonce associated plaintext) = some plaintext := by
  rw [decrypt, encrypt, if_pos rfl, crypt_crypt]

end XChaCha20Poly1305

end GroupSession
