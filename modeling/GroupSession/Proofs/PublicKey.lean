import GroupSession.Ed25519.Signature
import GroupSession.Proofs.Field

/-!
# Public keys are points

The public key of a seed is a multiple of the base point in its written form. Reading it takes a
square root, which exists because the multiple is on the curve, and that is because sums of points
on the curve are. So every public key that a signer has will be accepted as one.

## The addition law

That one formula adds any two points means that its denominators are never 0. They would be if the
product of all four coordinates was the inverse of the coefficient `d` or of `-d`. The equations of
both points would then make `d` a square.
-/

namespace GroupSession

namespace Ed25519

open FieldElement

open scoped Fin.CommRing

/-! ## The constants -/

private theorem two_ne : (2 : FieldElement) ≠ 0 := by
  decide +kernel

private theorem imaginary_mul_imaginary : imaginary * imaginary = -1 := by
  decide +kernel

/-- Only 0 makes the coefficient a ratio of squares. -/
private theorem eq_zero_of_mul_self_eq {r s : FieldElement} (h : r * r = coefficient * (s * s)) :
    s = 0 := by
  by_contra hs
  have hinverse := mul_inverse hs
  have hsquare : (r * s.inverse) ^ 2 = coefficient := by
    linear_combination s.inverse ^ 2 * h + coefficient * (s * s.inverse + 1) * hinverse
  -- To this power, every square is 1.
  have hcoefficient : coefficient ^ ((prime - 1) / 2) ≠ 1 := by
    rw [← power_eq]
    decide +kernel
  have hroot : r * s.inverse ≠ 0 := by
    intro hzero
    rw [hzero] at hsquare
    exact absurd hsquare (by decide +kernel)
  refine hcoefficient ?_
  rw [← hsquare, ← pow_mul]
  exact pow_prime_sub_one hroot

namespace Point

/-! ## The curve -/

/-- The point has coordinates, and they fulfil the equation of the curve. -/
structure OnCurve (p : Point) : Prop where
  z : p.Z ≠ 0
  product : p.X * p.Y = p.Z * p.T
  equation : p.Y ^ 2 - p.X ^ 2 = p.Z ^ 2 + coefficient * p.T ^ 2

theorem onCurve_neutral : neutral.OnCurve where
  z := by decide +kernel
  product := by decide +kernel
  equation := by decide +kernel

theorem onCurve_base : base.OnCurve where
  z := by decide +kernel
  product := by decide +kernel
  equation := by decide +kernel

/-- If a denominator of the addition law is 0, the equations of both points make the coefficient a
ratio of squares. -/
private theorem OnCurve.tangent {p q : Point} (hp : p.OnCurve) (hq : q.OnCurve)
    {root sign : FieldElement} (hroot : root * root = -1) (hsign : sign * sign = 1)
    (hzero : p.Z * q.Z = sign * coefficient * p.T * q.T) : p.T * (q.Y + root * q.X) = 0 := by
  have hsquare : ((root * p.X + sign * p.Y) * q.Z) * ((root * p.X + sign * p.Y) * q.Z) =
      coefficient * ((p.T * (q.Y + root * q.X)) * (p.T * (q.Y + root * q.X))) := by
    linear_combination q.Z ^ 2 * hp.equation + 2 * root * sign * q.Z ^ 2 * hp.product -
      coefficient * p.T ^ 2 * hq.equation - 2 * root * coefficient * p.T ^ 2 * hq.product +
      (p.Z * q.Z + sign * coefficient * p.T * q.T + 2 * root * sign * p.T * q.Z) * hzero +
      (q.Z ^ 2 * p.Y ^ 2 + coefficient ^ 2 * p.T ^ 2 * q.T ^ 2 +
        2 * root * coefficient * p.T ^ 2 * q.Z * q.T) * hsign +
      (q.Z ^ 2 * p.X ^ 2 - coefficient * p.T ^ 2 * q.X ^ 2) * hroot
  exact eq_zero_of_mul_self_eq hsquare

private theorem OnCurve.denominator_ne {p q : Point} (hp : p.OnCurve) (hq : q.OnCurve)
    {sign : FieldElement} (hsign : sign * sign = 1) :
    p.Z * q.Z ≠ sign * coefficient * p.T * q.T := by
  intro hzero
  have hproduct : p.Z * q.Z ≠ 0 := mul_ne_zero hp.z hq.z
  have hpT : p.T ≠ 0 := by
    intro hT
    rw [hT, mul_zero, zero_mul] at hzero
    exact hproduct hzero
  have hqT : q.T ≠ 0 := by
    intro hT
    rw [hT, mul_zero] at hzero
    exact hproduct hzero
  -- Both square roots of -1 give a factor that vanishes.
  have hopposite : -imaginary * -imaginary = -1 := by
    rw [neg_mul_neg, imaginary_mul_imaginary]
  have hplus := (mul_eq_zero_iff_left hpT).mp
    (hp.tangent hq imaginary_mul_imaginary hsign hzero)
  have hminus := (mul_eq_zero_iff_left hpT).mp (hp.tangent hq hopposite hsign hzero)
  have htwice : 2 * q.Y = 0 := by linear_combination hplus + hminus
  have hY : q.Y = 0 := (mul_eq_zero_iff_left two_ne).mp htwice
  have hproduct' : q.Z * q.T = 0 := by rw [← hq.product, hY, mul_zero]
  exact mul_ne_zero hq.z hqT hproduct'

/-- The equation of the curve for the sum of two points, up to factors of 2. -/
private theorem sum_equation {K : Type} [CommRing K] {d X₁ Y₁ Z₁ T₁ X₂ Y₂ Z₂ T₂ : K}
    (h₁ : Y₁ ^ 2 - X₁ ^ 2 = Z₁ ^ 2 + d * T₁ ^ 2) (hT₁ : X₁ * Y₁ = Z₁ * T₁)
    (h₂ : Y₂ ^ 2 - X₂ ^ 2 = Z₂ ^ 2 + d * T₂ ^ 2) (hT₂ : X₂ * Y₂ = Z₂ * T₂) :
    ((Z₁ * Z₂ + d * T₁ * T₂) * (Y₁ * Y₂ + X₁ * X₂)) ^ 2 -
        ((X₁ * Y₂ + Y₁ * X₂) * (Z₁ * Z₂ - d * T₁ * T₂)) ^ 2 =
      ((Z₁ * Z₂ - d * T₁ * T₂) * (Z₁ * Z₂ + d * T₁ * T₂)) ^ 2 +
        d * ((X₁ * Y₂ + Y₁ * X₂) * (Y₁ * Y₂ + X₁ * X₂)) ^ 2 := by
  grind

theorem OnCurve.add {p q : Point} (hp : p.OnCurve) (hq : q.OnCurve) : (p.add q).OnCurve := by
  have hf : p.Z * q.Z - coefficient * p.T * q.T ≠ 0 := by
    have hne : p.Z * q.Z ≠ 1 * coefficient * p.T * q.T := hp.denominator_ne hq (one_mul 1)
    rwa [one_mul, ← sub_ne_zero] at hne
  have hg : p.Z * q.Z + coefficient * p.T * q.T ≠ 0 := by
    have hne : p.Z * q.Z ≠ -1 * coefficient * p.T * q.T :=
      hp.denominator_ne hq (by rw [neg_mul_neg, one_mul])
    rwa [neg_one_mul, neg_mul, neg_mul, ne_eq, eq_neg_iff_add_eq_zero] at hne
  have hequation := sum_equation hp.equation hp.product hq.equation hq.product
  refine ⟨?_, ?_, ?_⟩
  · have hZ : (p.add q).Z = 2 * (p.Z * q.Z - coefficient * p.T * q.T) *
        (2 * (p.Z * q.Z + coefficient * p.T * q.T)) := by
      simp only [Point.add, twiceCoefficient]
      ring
    rw [hZ]
    exact mul_ne_zero (mul_ne_zero two_ne hf) (mul_ne_zero two_ne hg)
  · simp only [Point.add]
    ring
  · simp only [Point.add, twiceCoefficient]
    linear_combination 16 * hequation

theorem OnCurve.multiple {p : Point} (hp : p.OnCurve) (n : Nat) : (p.multiple n).OnCurve :=
  iterate_induction onCurve_neutral hp (fun _ _ ↦ OnCurve.add) n

/-! ## The written form -/

/-- Up to the sign, the candidate for a square root of a ratio of squares is one. -/
private theorem candidate_eq {u v x : FieldElement} (h : u = x * x * v) :
    let candidate := u * v * v * v * power (u * power v 7) ((prime - 5) / 8)
    v * candidate * candidate = u ∨ v * candidate * candidate = -u := by
  intro candidate
  have hexponent : 2 + 4 * ((prime - 5) / 8) = (prime - 1) / 2 := by decide
  -- The candidate is a root up to a factor, which as the power of half the order is 1 or -1.
  have hsquare : v * candidate * candidate = u * (x * v ^ 4) ^ ((prime - 1) / 2) := by
    have hroot : u * v ^ 7 = (x * v ^ 4) ^ 2 := by
      rw [h]
      ring
    simp only [candidate, power_eq]
    rw [← hexponent]
    generalize (prime - 5) / 8 = k
    calc v * (u * v * v * v * (u * v ^ 7) ^ k) * (u * v * v * v * (u * v ^ 7) ^ k)
      _ = u * (u * v ^ 7) * ((u * v ^ 7) ^ k) ^ 2 := by ring
      _ = u * (x * v ^ 4) ^ (2 + 4 * k) := by
        rw [hroot]
        ring
  by_cases hzero : x * v ^ 4 = 0
  · have hu : u = 0 := by
      rcases mul_eq_zero.mp hzero with hx | hv
      · rw [h, hx, zero_mul, zero_mul]
      · rw [h, pow_eq_zero_iff (by decide) |>.mp hv, mul_zero]
    left
    rw [hsquare, hu, zero_mul]
  · have hunit : (x * v ^ 4) ^ ((prime - 1) / 2) * (x * v ^ 4) ^ ((prime - 1) / 2) = 1 := by
      rw [← pow_add]
      exact pow_prime_sub_one hzero
    rw [hsquare]
    rcases mul_self_eq_one_iff.mp hunit with hone | hone
    · left
      rw [hone, mul_one]
    · right
      rw [hone, mul_neg_one]

private theorem isSome_rootOfRatio? {u v x : FieldElement} (h : u = x * x * v) :
    (rootOfRatio? u v).isSome := by
  rw [rootOfRatio?, Option.isSome_map]
  have hroot := candidate_eq h
  dsimp only at hroot ⊢
  generalize u * v * v * v * power (u * power v 7) ((prime - 5) / 8) = candidate at hroot ⊢
  by_cases hfirst : v * candidate * candidate = u
  · rw [if_pos hfirst, Option.isSome_some]
  · rw [if_neg hfirst, if_pos (hroot.resolve_left hfirst), Option.isSome_some]

/-- The second coordinate is read back from the written form, the sign of the first one left out. -/
private theorem ofNat_toNatLE_toBytes (p : Point) :
    ofNat (Bytes.toNatLE p.toBytes.toList % 2 ^ 255) = p.Y * p.Z.inverse := by
  have hlt : (p.Y * p.Z.inverse).val < 2 ^ 255 :=
    Nat.lt_trans (p.Y * p.Z.inverse).isLt (by decide)
  have hnumber : Bytes.toNatLE p.toBytes.toList % 2 ^ 255 = (p.Y * p.Z.inverse).val := by
    change Bytes.toNatLE (Bytes.ofNatLE 32 ((p.Y * p.Z.inverse).val +
      if isNegative (p.X * p.Z.inverse) then 2 ^ 255 else 0)) % 2 ^ 255 = _
    rw [Bytes.toNatLE_ofNatLE]
    generalize (p.Y * p.Z.inverse).val = n at hlt ⊢
    split <;> omega
  rw [hnumber, ofNat, Fin.ofNat_val_eq_self]

theorem OnCurve.isSome_ofBytes?_toBytes {p : Point} (hp : p.OnCurve) :
    (ofBytes? p.toBytes).isSome := by
  have hone : ofNat 1 = 1 := rfl
  have hequation : (p.Y * p.Z.inverse) * (p.Y * p.Z.inverse) - ofNat 1 =
      (p.X * p.Z.inverse) * (p.X * p.Z.inverse) *
        (coefficient * (p.Y * p.Z.inverse) * (p.Y * p.Z.inverse) + ofNat 1) := by
    rw [hone]
    linear_combination p.Z.inverse ^ 2 * hp.equation -
      coefficient * p.Z.inverse ^ 4 * (p.X * p.Y + p.Z * p.T) * hp.product +
      (p.Z * p.Z.inverse + 1) * (1 - coefficient * p.Z.inverse ^ 2 * p.T ^ 2) * mul_inverse hp.z
  rw [ofBytes?, Option.isSome_map, ofNat_toNatLE_toBytes]
  exact isSome_rootOfRatio? hequation

end Point

/-- The public key of a signer is one. -/
theorem SigningKey.valid_verifyingKey (key : SigningKey) : key.verifyingKey.Valid := by
  have hpoint := (Point.onCurve_base.multiple (Seed.scalar key.seed)).isSome_ofBytes?_toBytes
  obtain ⟨point, hpoint⟩ := Option.isSome_iff_exists.mp hpoint
  rw [key.belongs, VerifyingKey.Valid, VerifyingKey.ofBytes?, Seed.verifyingKey, hpoint,
    Option.map_some]

end Ed25519

end GroupSession
