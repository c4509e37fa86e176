import GroupSession.Ed25519.Curve
import Mathlib.Data.List.Prime
import Mathlib.FieldTheory.Finite.Basic
import Mathlib.NumberTheory.LucasPrimality
import Mathlib.Tactic.NormNum.Prime

/-!
# The field of Ed25519

The curve is made over the numbers modulo `2 ^ 255 - 19`. This file shows that this number is a
prime, so that they are a field, and that `power` and `inverse` compute what their names say.

## The certificate

A number is prime if some element has the order that the multiplicative group of a field would have.
That is checked by powers of the element, one for each prime factor of the order, and these factors
are prime by the same test again.
-/

namespace GroupSession

section Iterate

variable {α β : Type} {combine : α → α → α} {unit x : α}

/-- What holds of the unit and the element, and of any combination, holds of every multiple. -/
theorem iterate_induction {motive : α → Prop} (hunit : motive unit) (hx : motive x)
    (hcombine : ∀ a b, motive a → motive b → motive (combine a b)) (n : Nat) :
    motive (iterate combine unit x n) := by
  refine List.foldrRecOn (motive := motive) _ _ hunit ?_
  intro sum hsum i _
  have htwice : motive (combine sum sum) := hcombine sum sum hsum hsum
  dsimp only
  split
  · exact hcombine _ x htwice hx
  · exact htwice

theorem map_iterate (f : α → β) {combine' : β → β → β}
    (hf : ∀ a b, f (combine a b) = combine' (f a) (f b)) (n : Nat) :
    f (iterate combine unit x n) = iterate combine' (f unit) (f x) n := by
  unfold iterate
  induction List.range (n.log2 + 1) with
  | nil => rfl
  | cons i is ih =>
    rw [List.foldr_cons, List.foldr_cons, ← ih]
    dsimp only
    split
    · rw [hf, hf]
    · rw [hf]

theorem iterate_mul {M : Type} [Monoid M] (x : M) (n : Nat) :
    iterate (· * ·) 1 x n = x ^ n := by
  -- The digits that were gone through spell the quotient by a power of two.
  have hdigits (k : Nat) : ∀ sum, sum = x ^ (n / 2 ^ k) →
      (List.range k).foldr (fun i sum ↦ let twice := sum * sum
        if n.testBit i then twice * x else twice) sum = x ^ n := by
    induction k with
    | zero =>
      intro sum hsum
      rw [hsum, pow_zero, Nat.div_one]
      rfl
    | succ k ih =>
      intro sum hsum
      rw [List.range_succ, List.foldr_append]
      refine ih _ ?_
      have hdiv : n / 2 ^ k = n / 2 ^ (k + 1) + n / 2 ^ (k + 1) + (n.testBit k).toNat := by
        rw [Nat.toNat_testBit, pow_succ, ← Nat.div_div_eq_div_mul]
        omega
      rw [hdiv, pow_add, pow_add, ← hsum]
      cases hbit : n.testBit k <;> simp [hbit]
  refine hdigits (n.log2 + 1) 1 ?_
  rw [Nat.div_eq_of_lt Nat.lt_log2_self, pow_zero]

end Iterate

/-! ## The certificate -/

/-- A power modulo a number. -/
def powerMod (modulus base exponent : Nat) : Nat :=
  iterate (fun x y ↦ x * y % modulus) 1 base exponent

private theorem cast_powerMod (modulus base exponent : Nat) :
    (powerMod modulus base exponent : ZMod modulus) = (base : ZMod modulus) ^ exponent := by
  have hmul (a b : Nat) : ((a * b % modulus : Nat) : ZMod modulus) = a * b := by
    rw [ZMod.natCast_mod, Nat.cast_mul]
  rw [powerMod, map_iterate Nat.cast hmul, Nat.cast_one, iterate_mul]

private theorem prime_of_powerMod {p : Nat} (base : Nat) (factors : List Nat)
    (hfactors : ∀ q ∈ factors, q.Prime) (hprod : factors.prod = p - 1)
    (hfull : powerMod p base (p - 1) = 1)
    (hpart : ∀ q ∈ factors, powerMod p base ((p - 1) / q) % p ≠ 1 % p) : p.Prime := by
  refine lucas_primality p base ?_ ?_
  · rw [← cast_powerMod, hfull, Nat.cast_one]
  · intro q hq hdvd
    rw [← hprod] at hdvd
    obtain ⟨q', hmem, hdvd⟩ := (Prime.dvd_prod_iff hq.prime).mp hdvd
    obtain rfl : q = q' := (Nat.prime_dvd_prime_iff_eq hq (hfactors q' hmem)).mp hdvd
    intro hpower
    refine hpart q hmem ((ZMod.natCast_eq_natCast_iff' _ _ _).mp ?_)
    rw [cast_powerMod, hpower, Nat.cast_one]

private theorem prime_2773320623 : Nat.Prime 2773320623 :=
  prime_of_powerMod 5 [2, 2437, 569003] (by norm_num) (by norm_num) (by decide +kernel)
    (by decide +kernel)

private theorem prime_72106336199 : Nat.Prime 72106336199 :=
  prime_of_powerMod 7 [2, 13, 2773320623] (by simp [prime_2773320623]; norm_num) (by norm_num)
    (by decide +kernel) (by decide +kernel)

private theorem prime_1919519569386763 : Nat.Prime 1919519569386763 :=
  prime_of_powerMod 2 [2, 3, 7, 19, 47, 47, 127, 8574133] (by norm_num) (by norm_num)
    (by decide +kernel) (by decide +kernel)

private theorem prime_31757755568855353 : Nat.Prime 31757755568855353 :=
  prime_of_powerMod 10 [2, 2, 2, 3, 31, 107, 223, 4153, 430751] (by norm_num) (by norm_num)
    (by decide +kernel) (by decide +kernel)

private theorem prime_75445702479781427272750846543864801 :
    Nat.Prime 75445702479781427272750846543864801 :=
  prime_of_powerMod 7
    [2, 2, 2, 2, 2, 3, 3, 5, 5, 75707, 72106336199, 1919519569386763]
    (by simp [prime_72106336199, prime_1919519569386763]; norm_num) (by norm_num)
    (by decide +kernel) (by decide +kernel)

private theorem prime_74058212732561358302231226437062788676166966415465897661863160754340907 :
    Nat.Prime 74058212732561358302231226437062788676166966415465897661863160754340907 :=
  prime_of_powerMod 2
    [2, 3, 353, 57467, 132049, 1923133, 31757755568855353, 75445702479781427272750846543864801]
    (by simp [prime_31757755568855353, prime_75445702479781427272750846543864801]; norm_num)
    (by norm_num) (by decide +kernel) (by decide +kernel)

namespace Ed25519

theorem prime_prime : prime.Prime :=
  prime_of_powerMod 2
    [2, 2, 3, 65147, 74058212732561358302231226437062788676166966415465897661863160754340907]
    (by
      simp [prime_74058212732561358302231226437062788676166966415465897661863160754340907]
      norm_num)
    (by norm_num [prime]) (by decide +kernel) (by decide +kernel)

/-! ## The field -/

open scoped Fin.CommRing

/-- The elements as residues. -/
private def toResidue : FieldElement ≃+* ZMod prime := ZMod.finEquiv prime

instance : IsDomain FieldElement :=
  have : Fact prime.Prime := ⟨prime_prime⟩
  toResidue.toMulEquiv.isDomain

namespace FieldElement

theorem power_eq (x : FieldElement) (n : Nat) : x.power n = x ^ n := iterate_mul x n

/-- The little theorem of Fermat. -/
theorem pow_prime_sub_one {x : FieldElement} (hx : x ≠ 0) : x ^ (prime - 1) = 1 := by
  have : Fact prime.Prime := ⟨prime_prime⟩
  have hresidue : toResidue x ≠ 0 := by
    rwa [ne_eq, map_eq_zero_iff _ toResidue.injective]
  apply toResidue.injective
  rw [map_pow, map_one, ZMod.pow_card_sub_one_eq_one hresidue]

theorem mul_inverse {x : FieldElement} (hx : x ≠ 0) : x * x.inverse = 1 := by
  rw [inverse, power_eq, ← pow_succ']
  exact pow_prime_sub_one hx

end FieldElement

end Ed25519

end GroupSession
