import GroupSession.Bytes

/-!
# The one-time authenticator Poly1305

The message is cut into blocks of sixteen bytes, each read as a number with a further 1 on top.
These numbers are the coefficients of a polynomial, which is evaluated at a secret point modulo
the prime `2 ^ 130 - 5`. A second secret is added to the value, and the tag is what remains
modulo `2 ^ 128`.
-/

namespace GroupSession

namespace Poly1305

/-- The modulus of the polynomial. -/
def modulus : Nat := 2 ^ 130 - 5

/-- The bits a secret point may have set. -/
def pointMask : Nat := 0x0ffffffc0ffffffc0ffffffc0fffffff

/-- The number of a block: its bytes, the first of them counting least, with a 1 on top. -/
def coefficient (block : Bytes) : Nat := Bytes.toNatLE (block ++ [1])

/-- The polynomial of a message at a point, not counting the multiples of the modulus. -/
def evaluate (point : Nat) (message : Bytes) : Nat :=
  (Bytes.chunks 16 message).foldl (fun sum block ↦ (sum + coefficient block) * point % modulus) 0

/-- The tag of a message under a key that authenticates no other message. -/
def tag (key : FixedBytes 32) (message : Bytes) : FixedBytes 16 :=
  let point := Bytes.toNatLE (key.toList.take 16) &&& pointMask
  let addend := Bytes.toNatLE (key.toList.drop 16)
  ⟨Bytes.ofNatLE 16 (evaluate point message + addend), Bytes.length_ofNatLE _ _⟩

end Poly1305

end GroupSession
