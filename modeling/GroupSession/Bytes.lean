/-!
# Byte strings

Every key, message and stored session is in the end a string of bytes. A string of any length is
a list, so that cutting and joining it are `take`, `drop` and `++`; a string whose length is fixed
by a format (a key, a nonce, a tag) is a `FixedBytes`, which carries the proof of its length.

## Numbers

`ofNatLE` and `ofNatBE` write a number in a given count of bytes, `toNatLE` and `toNatBE` read one
back. What does not fit is cut off at the high end, and that is the only loss: reading what was
written gives the number modulo `256 ^ width`, and writing what was read gives the bytes back.
-/

namespace GroupSession

/-- Powers of numbers are those of the core library in every module. The programs import no algebra,
but some of the proofs about them do, and there `256 ^ n` would be read as the power of a monoid: an
equal number, but another term. This way it is the same term whatever a module imports. -/
@[default_instance high+1]
instance (priority := high) powNat : Pow Nat Nat := instPowNat

/-- A string of bytes. -/
abbrev Bytes := List UInt8

namespace Bytes

/-! ## Numbers as bytes -/

/-- The number that the bytes spell, the first of them counting least. -/
def toNatLE : Bytes → Nat
  | [] => 0
  | b :: bs => b.toNat + 256 * toNatLE bs

/-- The number that the bytes spell, the last of them counting least. -/
def toNatBE (bytes : Bytes) : Nat := toNatLE bytes.reverse

/-- The lowest `width` bytes of a number, the least one first. -/
def ofNatLE : Nat → Nat → Bytes
  | 0, _ => []
  | width + 1, n => UInt8.ofNat n :: ofNatLE width (n / 256)

/-- The lowest `width` bytes of a number, the least one last. -/
def ofNatBE (width n : Nat) : Bytes := (ofNatLE width n).reverse

@[simp] theorem length_ofNatLE (width n : Nat) : (ofNatLE width n).length = width := by
  induction width generalizing n with
  | zero => rfl
  | succ width ih => rw [ofNatLE, List.length_cons, ih]

@[simp] theorem length_ofNatBE (width n : Nat) : (ofNatBE width n).length = width := by
  rw [ofNatBE, List.length_reverse, length_ofNatLE]

theorem toNatLE_lt (bytes : Bytes) : toNatLE bytes < 256 ^ bytes.length := by
  induction bytes with
  | nil => decide
  | cons b bs ih =>
    have hb : b.toNat < 256 := b.toNat_lt
    rw [toNatLE, List.length_cons, Nat.pow_succ]
    omega

theorem toNatBE_lt (bytes : Bytes) : toNatBE bytes < 256 ^ bytes.length := by
  simpa [toNatBE] using toNatLE_lt bytes.reverse

/-- Reading back what was written gives the number, less what did not fit. -/
theorem toNatLE_ofNatLE (width n : Nat) : toNatLE (ofNatLE width n) = n % 256 ^ width := by
  induction width generalizing n with
  | zero => rw [ofNatLE, toNatLE, Nat.pow_zero, Nat.mod_one]
  | succ width ih =>
    have hb : (UInt8.ofNat n).toNat = n % 256 := rfl
    rw [ofNatLE, toNatLE, ih, hb, Nat.pow_succ', Nat.mod_mul]

theorem ofNatLE_toNatLE (bytes : Bytes) : ofNatLE bytes.length (toNatLE bytes) = bytes := by
  induction bytes with
  | nil => rfl
  | cons b bs ih =>
    have hb : b.toNat < 256 := b.toNat_lt
    have hq : (b.toNat + 256 * toNatLE bs) / 256 = toNatLE bs := by omega
    have hr : UInt8.ofNat (b.toNat + 256 * toNatLE bs) = b := by
      rw [← UInt8.toNat_inj, UInt8.toNat_ofNat']
      omega
    rw [toNatLE, List.length_cons, ofNatLE, hq, hr, ih]

theorem toNatBE_ofNatBE (width n : Nat) : toNatBE (ofNatBE width n) = n % 256 ^ width := by
  rw [toNatBE, ofNatBE, List.reverse_reverse, toNatLE_ofNatLE]

theorem ofNatBE_toNatBE (bytes : Bytes) : ofNatBE bytes.length (toNatBE bytes) = bytes := by
  rw [toNatBE, ofNatBE, ← List.length_reverse, ofNatLE_toNatLE, List.reverse_reverse]

/-! ## Cutting and combining -/

/-- The first `count` pieces of `size` bytes each; where the bytes run out, shorter ones. -/
def pieces (size : Nat) : Nat → Bytes → List Bytes
  | 0, _ => []
  | count + 1, bytes => bytes.take size :: pieces size count (bytes.drop size)

/-- All of the bytes in pieces of `size`, of which only the last one may be shorter. -/
def chunks (size : Nat) (bytes : Bytes) : List Bytes :=
  pieces size ((bytes.length + size - 1) / size) bytes

/-- The bytes followed by as many zeros as it takes to make them `size` long. -/
def padTo (size : Nat) (bytes : Bytes) : Bytes :=
  bytes ++ List.replicate (size - bytes.length) 0

/-- The bytes followed by the fewest zeros that make their number a multiple of `size`. -/
def padToMultiple (size : Nat) (bytes : Bytes) : Bytes :=
  bytes ++ List.replicate ((size - bytes.length % size) % size) 0

/-- Both strings combined byte by byte, as far as the shorter one goes. -/
def xor (a b : Bytes) : Bytes := List.zipWith (· ^^^ ·) a b

@[simp] theorem length_xor (a b : Bytes) : (xor a b).length = min a.length b.length := by
  rw [xor, List.length_zipWith]

theorem xor_xor_cancel {a b : Bytes} (h : a.length ≤ b.length) : xor (xor a b) b = a := by
  induction a generalizing b with
  | nil => rfl
  | cons x xs ih =>
    cases b with
    | nil => simp at h
    | cons y ys =>
      have hxs : xor (xor xs ys) ys = xs := ih (by simpa using h)
      simp only [xor, List.zipWith_cons_cons] at hxs ⊢
      rw [hxs, UInt8.xor_assoc, UInt8.xor_self, UInt8.xor_zero]

/-! ## Text -/

/-- Two lowercase hexadecimal digits for each byte. -/
def hex (bytes : Bytes) : String :=
  String.ofList (bytes.flatMap fun b ↦ [(b.toNat / 16).digitChar, (b.toNat % 16).digitChar])

/-- The bytes as decimal numbers in brackets, as in `[1, 0, 255]`. -/
def listing (bytes : Bytes) : String :=
  "[" ++ ", ".intercalate (bytes.map fun b ↦ b.toNat.repr) ++ "]"

/-- The ASCII characters of a text as bytes. -/
def ofAscii (text : String) : Bytes := text.toList.map fun c ↦ UInt8.ofNat c.toNat

end Bytes

/-- A string of exactly `n` bytes. -/
structure FixedBytes (n : Nat) where
  /-- The bytes themselves. -/
  toList : Bytes
  /-- There are as many as the type says. -/
  length_toList : toList.length = n
deriving DecidableEq

namespace FixedBytes

attribute [simp] length_toList

@[ext] theorem ext {n : Nat} {a b : FixedBytes n} (h : a.toList = b.toList) : a = b := by
  cases a
  cases b
  congr

/-- The bytes as a string of fixed length, if they have that length. -/
def ofList? (n : Nat) (bytes : Bytes) : Option (FixedBytes n) :=
  if h : bytes.length = n then some ⟨bytes, h⟩ else none

/-- The `n` bytes from position `start` on. -/
def slice (bytes : Bytes) (start n : Nat) (h : start + n ≤ bytes.length) : FixedBytes n :=
  ⟨(bytes.drop start).take n, by rw [List.length_take, List.length_drop]; omega⟩

/-- The `n` bytes from position `start` on of a string long enough by its type. -/
def cut {m : Nat} (bytes : FixedBytes m) (start n : Nat) (h : start + n ≤ m) : FixedBytes n :=
  slice bytes.toList start n (by rw [length_toList]; exact h)

/-- Both strings one after the other. -/
def append {m n : Nat} (a : FixedBytes m) (b : FixedBytes n) : FixedBytes (m + n) :=
  ⟨a.toList ++ b.toList, by rw [List.length_append, length_toList, length_toList]⟩

/-- Nothing but zeros. -/
def zero (n : Nat) : FixedBytes n := ⟨List.replicate n 0, List.length_replicate⟩

theorem ofList?_eq_some_iff {n : Nat} {bytes : Bytes} {a : FixedBytes n} :
    ofList? n bytes = some a ↔ a.toList = bytes := by
  unfold ofList?
  split
  · rename_i h
    rw [Option.some_inj]
    exact ⟨fun e ↦ e ▸ rfl, fun e ↦ FixedBytes.ext e.symm⟩
  · rename_i h
    refine ⟨nofun, fun e ↦ absurd ?_ h⟩
    rw [← e, length_toList]

/-- A slice that begins and ends where one of joined pieces does is that piece. -/
theorem slice_eq_of_append {n start : Nat} {bytes : Bytes} {a : FixedBytes n}
    (before after : Bytes) (hbytes : bytes = before ++ a.toList ++ after)
    (hstart : before.length = start) (h : start + n ≤ bytes.length) :
    slice bytes start n h = a := by
  subst hbytes hstart
  ext1
  change ((before ++ a.toList ++ after).drop before.length).take n = a.toList
  rw [List.append_assoc, List.drop_left]
  exact List.take_left' a.length_toList

theorem take_append_slice (bytes : Bytes) (start n : Nat) (h : start + n ≤ bytes.length) :
    bytes.take start ++ (slice bytes start n h).toList = bytes.take (start + n) :=
  List.take_add.symm

theorem cut_eq_of_append {m n start : Nat} {bytes : FixedBytes m} {a : FixedBytes n}
    (before after : Bytes) (hbytes : bytes.toList = before ++ a.toList ++ after)
    (hstart : before.length = start) (h : start + n ≤ m) : bytes.cut start n h = a :=
  slice_eq_of_append before after hbytes hstart _

@[simp] theorem ofList?_toList {n : Nat} (a : FixedBytes n) : ofList? n a.toList = some a :=
  ofList?_eq_some_iff.mpr rfl

end FixedBytes

end GroupSession
