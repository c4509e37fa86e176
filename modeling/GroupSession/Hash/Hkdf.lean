import GroupSession.Hash.Sha2

/-!
# Keyed hashes and key derivation

`hmacSha256` is the keyed hash HMAC over SHA-256. `hkdfSha256` derives key material of a wanted
size from input of any length: the keyed hash first extracts one key from salt and input, and then
expands it into as many blocks as are needed, each of them the keyed hash of the block before it,
the purpose the material is for, and the block's number. As that number is one byte, at most
255 blocks can be had.
-/

namespace GroupSession

/-- Bytes in a keyed hash. -/
def hmacSha256Size : Nat := 32

/-- The keyed hash HMAC over SHA-256. -/
def hmacSha256 (key data : Bytes) : FixedBytes 32 :=
  let block := Bytes.padTo 64 (if key.length ≤ 64 then key else (sha256 key).toList)
  let inner := sha256 (block.map (· ^^^ 0x36) ++ data)
  sha256 (block.map (· ^^^ 0x5c) ++ inner.toList)

namespace Hkdf

/-- The most bytes that can be derived at once. -/
def maxSize : Nat := 255 * 32

/-- `count` blocks of key material, the first of them numbered `number`. -/
def expand (key info : Bytes) : Nat → Nat → Bytes → List (FixedBytes 32)
  | 0, _, _ => []
  | count + 1, number, previous =>
    let block := hmacSha256 key (previous ++ info ++ [UInt8.ofNat number])
    block :: expand key info count (number + 1) block.toList

private theorem length_flatMap_expand (key info : Bytes) (count number : Nat) (previous : Bytes) :
    ((expand key info count number previous).flatMap FixedBytes.toList).length = 32 * count := by
  induction count generalizing number previous with
  | zero => rfl
  | succ count ih =>
    rw [expand, List.flatMap_cons, List.length_append, FixedBytes.length_toList, ih]
    omega

/-- `size` bytes of key material, whatever the limit. -/
def material (size : Nat) (key info : Bytes) : FixedBytes size :=
  FixedBytes.slice ((expand key info ((size + 31) / 32) 1 []).flatMap FixedBytes.toList) 0 size
    (by rw [length_flatMap_expand]; omega)

end Hkdf

/-- Derives `size` bytes of key material from salt and input for the purpose that `info` names.
There is none if more is wanted than can be derived. -/
def hkdfSha256 (size : Nat) (salt input info : Bytes) : Option (FixedBytes size) :=
  if size ≤ Hkdf.maxSize then some (Hkdf.material size (hmacSha256 salt input).toList info)
  else none

theorem isSome_hkdfSha256 {size : Nat} {salt input info : Bytes} :
    (hkdfSha256 size salt input info).isSome ↔ size ≤ Hkdf.maxSize := by
  unfold hkdfSha256
  split <;> simp [*]

end GroupSession
