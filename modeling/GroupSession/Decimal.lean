import GroupSession.Bytes

/-!
# Shortest decimals of floating point numbers

A number in the binary format of 64 bits stands for all reals that are rounded to it. Its text is
the decimal with the fewest digits among these reals, and of several such decimals the one nearest
to the number itself; of two equally near ones, the greater. It is written without an exponent.

## The search

Every finite number is `mantissa * 2 ^ exponent`, and so are, with a mantissa a little greater or
smaller, the ends of the interval of reals that are rounded to it. The decimals of a grid `10 ^ e`
are tried from the coarsest grid on. If any point of a grid lies in the interval, then so does one
of the two neighbours of the number on that grid, so these two are all that has to be tested. All
this is done with whole numbers, by bringing the number and the grid to a common denominator.
-/

namespace GroupSession

namespace Decimal

/-! ## Binary formats -/

/-- What the bits of a floating point number stand for. -/
inductive Value
  /-- No number. -/
  | nan
  /-- An infinity. -/
  | infinite
  /-- The size `mantissa * 2 ^ exponent`. `even` says whether a real half way to a neighbour is
  rounded to this number, `narrow` whether the neighbour below is twice as near as that above. -/
  | finite (mantissa : Nat) (exponent : Int) (even narrow : Bool)
deriving DecidableEq, Repr

/-- Whether the sign bit is set. -/
def isNegative (bits : UInt64) : Bool := bits.toNat.testBit 63

/-- What the bits stand for, not counting the sign. -/
def decode (bits : UInt64) : Value :=
  let exponent : Nat := bits.toNat / 2 ^ 52 % 2 ^ 11
  let fraction : Nat := bits.toNat % 2 ^ 52
  if exponent = 2047 then
    if fraction = 0 then .infinite else .nan
  else if exponent = 0 then .finite fraction (-1074) (fraction % 2 == 0) false
  else
    .finite (2 ^ 52 + fraction) (exponent - 1075) (fraction % 2 == 0)
      (fraction == 0 && exponent != 1)

/-- The same number in 64 bits, given in a smaller format with `e` bits for the exponent and `f`
bits for the fraction. -/
def widen (e f n : Nat) : UInt64 :=
  let sign := n / 2 ^ (e + f) % 2
  let exponent := n / 2 ^ f % 2 ^ e
  let fraction := n % 2 ^ f
  let bias := 2 ^ (e - 1) - 1
  let size :=
    if exponent = 2 ^ e - 1 then 2047 * 2 ^ 52 + fraction * 2 ^ (52 - f)
    else if exponent = 0 ∧ fraction = 0 then 0
    else if exponent = 0 then
      (fraction.log2 + 1024 - bias - f) * 2 ^ 52 +
        (fraction - 2 ^ fraction.log2) * 2 ^ (52 - fraction.log2)
    else (exponent + 1023 - bias) * 2 ^ 52 + fraction * 2 ^ (52 - f)
  UInt64.ofNat (sign * 2 ^ 63 + size)

/-! ## The search -/

/-- The decimal nearest to a number on the grid `10 ^ e`, if any there is rounded to the number. -/
def onGrid? (mantissa : Nat) (exponent : Int) (even narrow : Bool) (e : Int) : Option Nat :=
  -- The number and the grid over one denominator, four times each: so a half and a quarter of the
  -- distance to a neighbour are whole numbers too.
  let binary := 2 ^ exponent.toNat * 10 ^ (-e).toNat
  let grid := 4 * (10 ^ e.toNat * 2 ^ (-exponent).toNat)
  let number := 4 * mantissa * binary
  let low := number - (if narrow then 1 else 2) * binary
  let high := number + 2 * binary
  let inside (n : Nat) : Bool :=
    if even then low ≤ n * grid && n * grid ≤ high else low < n * grid && n * grid < high
  let below := number / grid
  let candidates := [below, below + 1].filter inside
  match candidates with
  | [a, b] => if 2 * number < (a + b) * grid then some a else some b
  | [a] => some a
  | _ => none

/-- The exponents of ten that are tried, from the coarsest grid on. -/
def grids : List Int := (List.range 650).map fun i : Nat ↦ 310 - Int.ofNat i

/-- The digits and the exponent of ten of the shortest decimal. -/
def digits (mantissa : Nat) (exponent : Int) (even narrow : Bool) : Nat × Int :=
  (grids.findSome? fun e ↦ (onGrid? mantissa exponent even narrow e).map (·, e)).getD (0, 0)

/-- A decimal in writing, always with a point and a digit on either side of it. -/
def positional (digits : Nat) (exponent : Int) : String :=
  let places := (-exponent).toNat
  let written := (digits * 10 ^ exponent.toNat).repr.toList
  let padded := List.replicate (places + 1 - written.length) '0' ++ written
  let whole := padded.take (padded.length - places)
  let behind := padded.drop (padded.length - places)
  String.ofList (whole ++ '.' :: if behind.isEmpty then ['0'] else behind)

/-- The text of a floating point number of 64 bits. -/
def text (bits : UInt64) : String :=
  let sign := if isNegative bits then "-" else ""
  match decode bits with
  | .nan => "NaN"
  | .infinite => sign ++ "inf"
  | .finite 0 _ _ _ => sign ++ "0.0"
  | .finite mantissa exponent even narrow =>
    let (n, e) := digits mantissa exponent even narrow
    sign ++ positional n e

end Decimal

end GroupSession
