import GroupSession.Ed25519.Signature

/-!
# Group messages

A message carries its index, the encrypted text, the tag by which the text is authenticated, and
the sender's signature of all that.

```text
version (3) | index (4 bytes) | ciphertext | tag (16 bytes) | signature (64 bytes)
```

The index is written with its highest byte first. Version and index are the header, which is
authenticated together with the text.
-/

namespace GroupSession

/-- An encrypted and signed message. -/
structure Message where
  /-- Its place among the messages of the session. -/
  index : UInt32
  /-- The encrypted text. -/
  ciphertext : Bytes
  /-- The tag of text and header. -/
  mac : FixedBytes 16
  /-- The sender's signature of everything before it. -/
  signature : Ed25519.Signature
deriving DecidableEq

/-- Why bytes are no message. -/
inductive MessageError
  /-- The first byte is that of another format. -/
  | unknownVersion (version : UInt8)
  /-- There are too few bytes. -/
  | tooShort (length : Nat)
deriving DecidableEq, Repr

/-- The text of an error. -/
def MessageError.message : MessageError → String
  | unknownVersion version => s!"unknown message version {version.toNat}"
  | tooShort length => s!"message with {length} bytes is too short"

/-- An index with its highest byte first. -/
def indexBytes (index : UInt32) : FixedBytes 4 :=
  ⟨Bytes.ofNatBE 4 index.toNat, Bytes.length_ofNatBE _ _⟩

/-- The index that four bytes spell, the highest first. -/
def indexOfBytes (bytes : FixedBytes 4) : UInt32 := UInt32.ofNat (Bytes.toNatBE bytes.toList)

@[simp] theorem indexOfBytes_indexBytes (index : UInt32) :
    indexOfBytes (indexBytes index) = index := by
  have h : index.toNat < 2 ^ 32 := index.toNat_lt
  rw [indexOfBytes, indexBytes, Bytes.toNatBE_ofNatBE, Nat.mod_eq_of_lt (by omega),
    UInt32.ofNat_toNat]

@[simp] theorem indexBytes_indexOfBytes (bytes : FixedBytes 4) :
    indexBytes (indexOfBytes bytes) = bytes := by
  have h : Bytes.toNatBE bytes.toList < 2 ^ 32 := by
    have := Bytes.toNatBE_lt bytes.toList
    rw [bytes.length_toList] at this
    omega
  have hroundtrip := Bytes.ofNatBE_toNatBE bytes.toList
  rw [bytes.length_toList] at hroundtrip
  ext1
  change Bytes.ofNatBE 4 (UInt32.ofNat (Bytes.toNatBE bytes.toList)).toNat = bytes.toList
  rw [UInt32.toNat_ofNat', Nat.mod_eq_of_lt h, hroundtrip]

namespace Message

/-- The first byte of a message. -/
def version : UInt8 := 3

/-- Bytes in a message with nothing in it. -/
def minSize : Nat := 85

/-- Version and index. -/
def header (index : UInt32) : Bytes := version :: (indexBytes index).toList

/-- Everything that is signed. -/
def signedBytes (message : Message) : Bytes :=
  header message.index ++ message.ciphertext ++ message.mac.toList

/-- The written form of a message. -/
def toBytes (message : Message) : Bytes := message.signedBytes ++ message.signature.toList

/-- The fields of a message in bytes that are long enough, whatever the version. -/
def fieldsOf (bytes : Bytes) (h : 85 ≤ bytes.length) : Message where
  index := indexOfBytes (FixedBytes.slice bytes 1 4 (by omega))
  ciphertext := (bytes.drop 5).take (bytes.length - 85)
  mac := FixedBytes.slice bytes (bytes.length - 80) 16 (by omega)
  signature := FixedBytes.slice bytes (bytes.length - 64) 64 (by omega)

/-- The message that the bytes are the written form of. -/
def ofBytes (bytes : Bytes) : Except MessageError Message :=
  match bytes with
  | [] => .error (.tooShort 0)
  | first :: _ =>
    if first ≠ version then .error (.unknownVersion first)
    else if h : bytes.length < minSize then .error (.tooShort bytes.length)
    else .ok (fieldsOf bytes (Nat.le_of_not_lt h))

/-- A message as it is shown to developers. -/
def debugText (message : Message) : String :=
  "GroupMessage \x7b index: " ++ message.index.toNat.repr ++
    ", ciphertext: " ++ Bytes.listing message.ciphertext ++
    ", mac: " ++ Bytes.listing message.mac.toList ++
    ", signature: Signature(" ++ Bytes.listing message.signature.toList ++ ") \x7d"

end Message

end GroupSession
