import GroupSession.Bytes

/-!
# The curve of Ed25519

The points are the pairs `(x, y)` with `y² - x² = 1 + d·x²·y²` over the field of `2 ^ 255 - 19`
elements. One formula adds any two of them, equal or not, because `d` is not a square.

## Representation

A point is kept as `(X : Y : Z)` with `x = X / Z` and `y = Y / Z`, so that adding needs no
division, together with `T = X·Y / Z`. In writing it is the 32 bytes of `y`, whose spare highest
bit says which of the two roots `x` is. Reading is lenient: `y` may be given with a multiple of
the field's size added, and the root 0 may be marked either way.
-/

namespace GroupSession

/-- Combines an element with itself `n` times, starting from `unit`, by doubling along the binary
digits of `n`. -/
@[specialize] def iterate {α : Type} (combine : α → α → α) (unit x : α) (n : Nat) : α :=
  (List.range (n.log2 + 1)).foldr
    (fun i sum ↦
      let twice := combine sum sum
      if n.testBit i then combine twice x else twice)
    unit

namespace Ed25519

/-! ## The field -/

/-- The size of the field, a prime. -/
def prime : Nat := 2 ^ 255 - 19

instance : @NeZero Nat Zero.ofOfNat0 prime := ⟨by decide⟩

/-- The elements of the field. -/
abbrev FieldElement := Fin prime

namespace FieldElement

/-- The element of a number. -/
def ofNat (n : Nat) : FieldElement := Fin.ofNat prime n

/-- A power of an element. -/
def power (x : FieldElement) (n : Nat) : FieldElement := iterate (· * ·) (ofNat 1) x n

/-- The inverse of an element, and 0 for 0. -/
def inverse (x : FieldElement) : FieldElement := power x (prime - 2)

/-- Whether an element counts as negative: its least representative is odd. -/
def isNegative (x : FieldElement) : Bool := x.val % 2 == 1

/-- A square root of -1. -/
def imaginary : FieldElement := power (ofNat 2) ((prime - 1) / 4)

/-- The square root of `u / v` that does not count as negative, if `u / v` is a square. -/
def rootOfRatio? (u v : FieldElement) : Option FieldElement :=
  let candidate := u * v * v * v * power (u * power v 7) ((prime - 5) / 8)
  let root? :=
    if v * candidate * candidate = u then some candidate
    else if v * candidate * candidate = -u then some (candidate * imaginary)
    else none
  root?.map fun root ↦ if isNegative root then -root else root

end FieldElement

/-! ## Points -/

open FieldElement in
/-- The coefficient `d` of the curve. -/
def coefficient : FieldElement := -(ofNat 121665) * inverse (ofNat 121666)

/-- A point of the curve. -/
structure Point where
  /-- The product of `x` and `z`. -/
  X : FieldElement
  /-- The product of `y` and `z`. -/
  Y : FieldElement
  /-- What both coordinates are multiplied by, never 0. -/
  Z : FieldElement
  /-- The product of `x`, `y` and `z`. -/
  T : FieldElement

namespace Point

open FieldElement

/-- The point with the given coordinates. -/
def ofAffine (x y : FieldElement) : Point := ⟨x, y, ofNat 1, x * y⟩

/-- The neutral point. -/
def neutral : Point := ofAffine (ofNat 0) (ofNat 1)

/-- Twice the coefficient of the curve. -/
def twiceCoefficient : FieldElement := coefficient + coefficient

/-- The sum of two points. -/
def add (p q : Point) : Point :=
  let a := (p.Y - p.X) * (q.Y - q.X)
  let b := (p.Y + p.X) * (q.Y + q.X)
  let c := p.T * twiceCoefficient * q.T
  let d := (p.Z + p.Z) * q.Z
  let e := b - a
  let f := d - c
  let g := d + c
  let h := b + a
  ⟨e * f, g * h, f * g, e * h⟩

/-- The point that adds up to the neutral one with the given point. -/
def neg (p : Point) : Point := ⟨-p.X, p.Y, p.Z, -p.T⟩

/-- The sum of `n` times the same point. -/
def multiple (n : Nat) (p : Point) : Point := iterate add neutral p n

/-- The point whose multiples are the public keys. -/
def base : Point :=
  ofAffine
    (ofNat 0x216936d3cd6e53fec0a4e231fdd6dc5c692cc7609525a7b2c9562d608f25d51a)
    (ofNat 0x6666666666666666666666666666666666666666666666666666666666666658)

/-- The written form of a point. -/
def toBytes (p : Point) : FixedBytes 32 :=
  let z := inverse p.Z
  let x := p.X * z
  let y := p.Y * z
  ⟨Bytes.ofNatLE 32 (y.val + if isNegative x then 2 ^ 255 else 0), Bytes.length_ofNatLE _ _⟩

/-- The point that is written as the given bytes, if there is one. -/
def ofBytes? (bytes : FixedBytes 32) : Option Point :=
  let n := Bytes.toNatLE bytes.toList
  let y := ofNat (n % 2 ^ 255)
  let root? := rootOfRatio? (y * y - ofNat 1) (coefficient * y * y + ofNat 1)
  root?.map fun x ↦ ofAffine (if n.testBit 255 then -x else x) y

end Point

end Ed25519

end GroupSession
