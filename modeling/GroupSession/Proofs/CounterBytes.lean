import GroupSession.Ratchet

/-!
# The bytes of a counter

Each part of a ratchet is in charge of one byte of the counter. In numbers, part `p` takes a step
whenever the counter passes a multiple of `256 ^ (3 - p)`, the *span* of the part. Stepping looks
for the highest part whose span divides the counter, jumping goes by shifts and masks of 32 bits.
This file turns both into divisions by spans.

## What a jump does to the counter

A jump works through the parts from the highest to the lowest. When it comes to a part, the bytes
of all parts before it are those of the target already, and the counter lies between its start and
the target. Under that condition the difference taken by `stepsBetween` neither wraps nor exceeds
one byte, and the counter set by the jump satisfies the condition for the next part.
-/

namespace GroupSession

namespace Ratchet

theorem toNat_add_one {counter : UInt32} (h : counter.toNat + 1 < 2 ^ 32) :
    (counter + 1).toNat = counter.toNat + 1 := by
  rw [UInt32.toNat_add]
  exact Nat.mod_eq_of_lt h

theorem drop_finRange {count : Nat} (hcount : count < 4) :
    (List.finRange 4).drop count = ⟨count, hcount⟩ :: (List.finRange 4).drop (count + 1) := by
  rw [List.drop_eq_getElem_cons (by rwa [List.length_finRange]), List.getElem_finRange]
  rfl

/-! ## Spans -/

/-- How many indices lie between one step of a part and its next. -/
def span (part : Fin 4) : Nat := 256 ^ (3 - part.val)

theorem span_pos (part : Fin 4) : 0 < span part := Nat.pow_pos (by decide)

theorem pow_eq_span (part : Fin 4) : 256 ^ (4 - (part.val + 1)) = span part := by
  rw [span, show 4 - (part.val + 1) = 3 - part.val by omega]

theorem pow_eq_span_mul (part : Fin 4) : 256 ^ (4 - part.val) = span part * 256 := by
  rw [span, ← Nat.pow_succ, show (3 - part.val).succ = 4 - part.val by omega]

theorem span_dvd_span {part lower : Fin 4} (h : part ≤ lower) : span lower ∣ span part :=
  Nat.pow_dvd_pow 256 (by omega)

theorem span_mul_dvd_span {part higher : Fin 4} (h : higher < part) :
    span part * 256 ∣ span higher := by
  rw [span, span, ← Nat.pow_succ]
  exact Nat.pow_dvd_pow 256 (by omega)

/-! ## The first byte that changed -/

/-- A mask that covers so many bytes tells whether all of them are zero. -/
private theorem and_eq_zero_iff_dvd {counter mask : UInt32} {width : Nat}
    (hmask : mask.toNat = 256 ^ width - 1) :
    counter &&& mask = 0 ↔ 256 ^ width ∣ counter.toNat := by
  have hpow : 256 ^ width = 2 ^ (8 * width) := (Nat.pow_mul 2 8 width).symm
  rw [← UInt32.toNat_inj, UInt32.toNat_and, hmask, hpow, Nat.and_two_pow_sub_one_eq_mod]
  exact Nat.dvd_iff_mod_eq_zero.symm

private theorem toNat_shiftRight_mask {mask : UInt32} {width : Nat}
    (hmask : mask.toNat = 256 ^ (width + 1) - 1) : (mask >>> 8).toNat = 256 ^ width - 1 := by
  have hpos : 0 < 256 ^ width := Nat.pow_pos (by decide)
  rw [toNat_shiftRight_byte, hmask, Nat.pow_succ]
  omega

/-- From any part on, the search finds the highest part whose span divides the counter. -/
private theorem span_dvd_of_seekChanged {count : Nat} (hcount : count < 4) {counter mask : UInt32}
    (hmask : mask.toNat = 256 ^ (3 - count) - 1) {part : Fin 4}
    (hfound : seekChanged counter mask ((List.finRange 4).drop count) = some part) :
    span part ∣ counter.toNat ∧
      ∀ other : Fin 4, count ≤ other → span other ∣ counter.toNat → part ≤ other := by
  -- The induction is on the number of parts that are left.
  induction hrest : 4 - count generalizing count mask with
  | zero => omega
  | succ rest ih =>
    rw [drop_finRange hcount, seekChanged] at hfound
    have hempty : counter &&& mask = 0 ↔ span ⟨count, hcount⟩ ∣ counter.toNat :=
      and_eq_zero_iff_dvd hmask
    split at hfound
    case isTrue hzero =>
      obtain rfl := Option.some.inj hfound
      exact ⟨hempty.mp hzero, fun other hother _ ↦ hother⟩
    case isFalse hbits =>
      -- The span of the last part is 1, so the search has not come to its end.
      have hlt : count + 1 < 4 := by
        refine Nat.lt_of_le_of_ne hcount fun hlast ↦ hbits (hempty.mpr ?_)
        rw [span, show 3 - count = 0 by omega]
        exact Nat.one_dvd _
      rw [show 3 - count = 3 - (count + 1) + 1 by omega] at hmask
      obtain ⟨hdvd, hfirst⟩ := ih hlt (toNat_shiftRight_mask hmask) hfound (by omega)
      refine ⟨hdvd, fun other hother hdvd' ↦ hfirst other ?_ hdvd'⟩
      refine Nat.lt_of_le_of_ne hother fun heq ↦ hbits (hempty.mpr ?_)
      obtain rfl : other = ⟨count, hcount⟩ := Fin.ext heq.symm
      exact hdvd'

theorem seekChanged_finRange (counter : UInt32) :
    seekChanged counter 0x00ffffff (List.finRange 4) = some (firstChanged counter) :=
  (Option.some_get _).symm

theorem span_firstChanged_dvd (counter : UInt32) :
    span (firstChanged counter) ∣ counter.toNat :=
  (span_dvd_of_seekChanged (Nat.zero_lt_succ 3) rfl (seekChanged_finRange counter)).1

theorem firstChanged_le {counter : UInt32} {part : Fin 4} (h : span part ∣ counter.toNat) :
    firstChanged counter ≤ part :=
  (span_dvd_of_seekChanged (Nat.zero_lt_succ 3) rfl (seekChanged_finRange counter)).2 part
    (Nat.zero_le _) h

/-- The first byte that changed with the last step is the highest whose span divides the
counter. -/
theorem firstChanged_le_iff {counter : UInt32} {part : Fin 4} :
    firstChanged counter ≤ part ↔ span part ∣ counter.toNat :=
  ⟨fun h ↦ Nat.dvd_trans (span_dvd_span h) (span_firstChanged_dvd counter), firstChanged_le⟩

/-! ## Shifts and masks -/

theorem toNat_shiftRight_shift (index : UInt32) (part : Fin 4) :
    (index >>> shift part).toNat = index.toNat / span part := by
  have hpart : part.val ≤ 3 := by omega
  rw [UInt32.toNat_shiftRight, shift, UInt32.toNat_ofNat', Nat.shiftRight_eq_div_pow,
    Nat.mod_eq_of_lt (by omega), Nat.mod_eq_of_lt (by omega), Nat.pow_mul, span]

private theorem clearBehind_eq_shift (part : Fin 4) (index : UInt32) :
    clearBehind part index = index >>> shift part <<< shift part := by
  rw [clearBehind, ← UInt32.toBitVec_inj]
  simp only [UInt32.toBitVec_and, UInt32.toBitVec_shiftLeft, UInt32.toBitVec_shiftRight]
  exact BitVec.shiftLeft_ushiftRight.symm

/-- Clearing the bytes behind a part rounds down to a multiple of its span. -/
theorem toNat_clearBehind (part : Fin 4) (index : UInt32) :
    (clearBehind part index).toNat = index.toNat / span part * span part := by
  have hpart : part.val ≤ 3 := by omega
  have hle : index.toNat / span part * span part ≤ index.toNat := Nat.div_mul_le_self _ _
  have hlt : index.toNat < 2 ^ 32 := index.toNat_lt
  have hshift : (shift part).toNat % 32 = 8 * (3 - part.val) := by
    rw [shift, UInt32.toNat_ofNat', Nat.mod_eq_of_lt (by omega), Nat.mod_eq_of_lt (by omega)]
  rw [clearBehind_eq_shift, UInt32.toNat_shiftLeft, toNat_shiftRight_shift, hshift,
    Nat.shiftLeft_eq, Nat.pow_mul, ← span]
  exact Nat.mod_eq_of_lt (by omega)

/-! ## The counter during a jump -/

/-- The given number of highest bytes is the same in both indices. -/
def SameHigh (count : Nat) (index other : UInt32) : Prop :=
  index.toNat / 256 ^ (4 - count) = other.toNat / 256 ^ (4 - count)

theorem sameHigh_zero (index other : UInt32) : SameHigh 0 index other := by
  have hindex : index.toNat < 256 ^ 4 := index.toNat_lt
  have hother : other.toNat < 256 ^ 4 := other.toNat_lt
  rw [SameHigh, Nat.div_eq_of_lt hindex, Nat.div_eq_of_lt hother]

theorem sameHigh_four_iff {index other : UInt32} : SameHigh 4 index other ↔ index = other := by
  rw [SameHigh, Nat.sub_self, Nat.pow_zero, Nat.div_one, Nat.div_one, UInt32.toNat_inj]

theorem sameHigh_iff {part : Fin 4} {index other : UInt32} :
    SameHigh part index other ↔
      index.toNat / span part / 256 = other.toNat / span part / 256 := by
  rw [SameHigh, pow_eq_span_mul, ← Nat.div_div_eq_div_mul, ← Nat.div_div_eq_div_mul]

theorem sameHigh_succ_iff {part : Fin 4} {index other : UInt32} :
    SameHigh (part + 1) index other ↔ index.toNat / span part = other.toNat / span part := by
  rw [SameHigh, pow_eq_span]

/-- The byte of a counter that a part is in charge of. -/
def counterByte (part : Fin 4) (counter : UInt32) : Nat := counter.toNat / span part % 256

theorem sameHigh_succ_iff_counterByte {part : Fin 4} {index other : UInt32} :
    SameHigh (part + 1) index other ↔
      SameHigh part index other ∧ counterByte part index = counterByte part other := by
  rw [sameHigh_succ_iff, sameHigh_iff, counterByte, counterByte]
  omega

theorem sameHigh_iff_counterByte {count : Nat} (hcount : count ≤ 4) {index other : UInt32} :
    SameHigh count index other ↔
      ∀ part : Fin 4, part < count → counterByte part index = counterByte part other := by
  induction count with
  | zero => exact ⟨fun _ _ hpart ↦ absurd hpart (Nat.not_lt_zero _), fun _ ↦ sameHigh_zero _ _⟩
  | succ count ih =>
    have hlt : count < 4 := hcount
    rw [@sameHigh_succ_iff_counterByte ⟨count, hlt⟩, ih (Nat.le_of_lt hlt)]
    constructor
    · rintro ⟨hhigher, hbyte⟩ part hpart
      by_cases heq : part = ⟨count, hlt⟩
      · rw [heq]
        exact hbyte
      · have hne : part.val ≠ count := fun hval ↦ heq (Fin.ext hval)
        exact hhigher part (by omega)
    · intro hbytes
      exact ⟨fun part hpart ↦ hbytes part (by omega), hbytes ⟨count, hlt⟩ (Nat.lt_succ_self count)⟩

/-- Between indices with the same bytes above a part, the steps of the part are the difference of
two quotients, and fewer than 256. -/
theorem toNat_stepsBetween {part : Fin 4} {counter index : UInt32} (hle : counter ≤ index)
    (hsame : SameHigh part counter index) :
    (stepsBetween part counter index).toNat =
        index.toNat / span part - counter.toNat / span part ∧
      index.toNat / span part - counter.toNat / span part < 256 := by
  have hdiv : counter.toNat / span part ≤ index.toNat / span part :=
    Nat.div_le_div_right (UInt32.le_iff_toNat_le.mp hle)
  have hshift : counter >>> shift part ≤ index >>> shift part := by
    rw [UInt32.le_iff_toNat_le, toNat_shiftRight_shift, toNat_shiftRight_shift]
    exact hdiv
  rw [sameHigh_iff] at hsame
  have hlt : index.toNat / span part - counter.toNat / span part < 256 := by omega
  refine ⟨?_, hlt⟩
  have hmask : (0xff : UInt32).toNat = 2 ^ 8 - 1 := rfl
  rw [stepsBetween, UInt32.toNat_and, UInt32.toNat_sub_of_le _ _ hshift, toNat_shiftRight_shift,
    toNat_shiftRight_shift, hmask, Nat.and_two_pow_sub_one_eq_mod, Nat.mod_eq_of_lt hlt]

/-- No step of a part lies between two indices exactly if they have the same byte there as well. -/
theorem stepsBetween_eq_zero_iff {part : Fin 4} {counter index : UInt32} (hle : counter ≤ index)
    (hsame : SameHigh part counter index) :
    stepsBetween part counter index = 0 ↔ SameHigh (part + 1) counter index := by
  have hdiv : counter.toNat / span part ≤ index.toNat / span part :=
    Nat.div_le_div_right (UInt32.le_iff_toNat_le.mp hle)
  rw [← UInt32.toNat_inj, (toNat_stepsBetween hle hsame).1, sameHigh_succ_iff]
  change _ = 0 ↔ _
  omega

theorem exists_toNat_stepsBetween {part : Fin 4} {counter index : UInt32}
    (hne : stepsBetween part counter index ≠ 0) :
    ∃ steps, (stepsBetween part counter index).toNat = steps + 1 :=
  Nat.exists_eq_succ_of_ne_zero fun hzero ↦ hne (UInt32.toNat_inj.mp hzero)

/-- Where the counter stands after a part has been brought to its byte. -/
def counterAfter (part : Fin 4) (counter index : UInt32) : UInt32 :=
  if stepsBetween part counter index = 0 then counter else clearBehind part index

/-- A part that is done has its byte, and the counter stays between start and target. -/
theorem counterAfter_between (part : Fin 4) {counter index : UInt32} (hle : counter ≤ index)
    (hsame : SameHigh part counter index) :
    counter ≤ counterAfter part counter index ∧ counterAfter part counter index ≤ index ∧
      SameHigh (part + 1) (counterAfter part counter index) index := by
  rw [counterAfter]
  split
  case isTrue hzero =>
    exact ⟨UInt32.le_refl counter, hle, (stepsBetween_eq_zero_iff hle hsame).mp hzero⟩
  case isFalse hsteps =>
    have hdiv : counter.toNat / span part ≤ index.toNat / span part :=
      Nat.div_le_div_right (UInt32.le_iff_toNat_le.mp hle)
    have hlt : counter.toNat / span part < index.toNat / span part := by
      rw [stepsBetween_eq_zero_iff hle hsame, sameHigh_succ_iff] at hsteps
      omega
    refine ⟨?_, ?_, ?_⟩
    · rw [UInt32.le_iff_toNat_le, toNat_clearBehind]
      exact Nat.le_of_lt ((Nat.div_lt_iff_lt_mul (span_pos part)).mp hlt)
    · rw [UInt32.le_iff_toNat_le, toNat_clearBehind]
      exact Nat.div_mul_le_self _ _
    · rw [sameHigh_succ_iff, toNat_clearBehind, Nat.mul_div_cancel _ (span_pos part)]

end Ratchet

end GroupSession
