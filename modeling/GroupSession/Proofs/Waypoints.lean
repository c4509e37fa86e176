import GroupSession.Proofs.Forgetting
import GroupSession.Proofs.Forward

/-!
# Where a jump stops on its way

A jump gives each part its turn, from the highest to the lowest. Between two turns the counter
stands at a *waypoint*. Which one depends on the two indices and on how many turns are over, and not
on what a provider answers, so that it is the same whether the jump goes on from there or not.

## The waypoints

As long as both indices have the same bytes, no part has steps to take and the counter stays where
it was. The turn of the first byte that differs brings it to the target's byte, with zeros behind,
and every turn after that adds one more byte of the target. This includes the turns without steps:
such a byte of the target is zero, and so is the counter's already.
-/

namespace GroupSession

open GroupSession.Action

namespace Ratchet

/-! ## Waypoints -/

instance (count : Nat) (index other : UInt32) : Decidable (SameHigh count index other) :=
  inferInstanceAs (Decidable (_ = _))

/-- The index with so many of its highest bytes left, and zeros behind them. -/
def highBytes (count : Nat) (index : UInt32) : UInt32 :=
  .ofNat (index.toNat / 256 ^ (4 - count) * 256 ^ (4 - count))

private theorem toNat_highBytes (count : Nat) (index : UInt32) :
    (highBytes count index).toNat = index.toNat / 256 ^ (4 - count) * 256 ^ (4 - count) := by
  have hle : index.toNat / 256 ^ (4 - count) * 256 ^ (4 - count) ≤ index.toNat :=
    Nat.div_mul_le_self _ _
  have hlt : index.toNat < 2 ^ 32 := index.toNat_lt
  rw [highBytes, UInt32.toNat_ofNat']
  exact Nat.mod_eq_of_lt (Nat.lt_of_le_of_lt hle hlt)

private theorem clearBehind_eq_highBytes (part : Fin 4) (index : UInt32) :
    clearBehind part index = highBytes (part + 1) index := by
  rw [← UInt32.toNat_inj, toNat_clearBehind, toNat_highBytes, pow_eq_span]

private theorem toNat_highBytes_div_span (part : Fin 4) (index : UInt32) :
    (highBytes part index).toNat / span part = index.toNat / span part / 256 * 256 := by
  rw [toNat_highBytes, pow_eq_span_mul, ← Nat.div_div_eq_div_mul, Nat.mul_comm (span part),
    ← Nat.mul_assoc, Nat.mul_div_cancel _ (span_pos part)]

/-- Where the counter stands on the way between two indices, after so many turns. -/
def waypoint (counter index : UInt32) (count : Nat) : UInt32 :=
  if SameHigh count counter index then counter else highBytes count index

theorem waypoint_zero (counter index : UInt32) : waypoint counter index 0 = counter :=
  if_pos (sameHigh_zero counter index)

private theorem SameHigh.of_succ {part : Fin 4} {counter index : UInt32}
    (hsame : SameHigh (part + 1) counter index) : SameHigh part counter index :=
  (sameHigh_succ_iff_counterByte.mp hsame).1

/-- The way starts and ends where it should, and each of its stops has the bytes of the parts that
have had their turns. -/
theorem waypoint_between {counter index : UInt32} (hle : counter ≤ index) (count : Nat) :
    counter ≤ waypoint counter index count ∧ waypoint counter index count ≤ index ∧
      SameHigh count (waypoint counter index count) index := by
  rw [waypoint]
  by_cases hsame : SameHigh count counter index
  · rw [if_pos hsame]
    exact ⟨UInt32.le_refl counter, hle, hsame⟩
  · rw [if_neg hsame]
    rw [UInt32.le_iff_toNat_le] at hle
    have hpos : 0 < 256 ^ (4 - count) := Nat.pow_pos (by decide)
    have hdiv : counter.toNat / 256 ^ (4 - count) ≤ index.toNat / 256 ^ (4 - count) :=
      Nat.div_le_div_right hle
    have hlt : counter.toNat / 256 ^ (4 - count) < index.toNat / 256 ^ (4 - count) :=
      Nat.lt_of_le_of_ne hdiv hsame
    refine ⟨?_, ?_, ?_⟩
    · rw [UInt32.le_iff_toNat_le, toNat_highBytes]
      exact Nat.le_of_lt ((Nat.div_lt_iff_lt_mul hpos).mp hlt)
    · rw [UInt32.le_iff_toNat_le, toNat_highBytes]
      exact Nat.div_mul_le_self _ _
    · rw [SameHigh, toNat_highBytes, Nat.mul_div_cancel _ hpos]

/-- One more turn leads from one stop to the next. -/
private theorem counterAfter_waypoint (part : Fin 4) {counter index : UInt32}
    (hle : counter ≤ index) :
    counterAfter part (waypoint counter index part) index = waypoint counter index (part + 1) := by
  obtain ⟨-, hbelow, hhigh⟩ := waypoint_between hle part
  rw [counterAfter, clearBehind_eq_highBytes]
  simp only [stepsBetween_eq_zero_iff hbelow hhigh]
  by_cases hsame : SameHigh part counter index
  · rw [show waypoint counter index part = counter from if_pos hsame]
    rfl
  · have hstart : waypoint counter index part = highBytes part index := if_neg hsame
    have hnext : waypoint counter index (part + 1) = highBytes (part + 1) index :=
      if_neg fun hsucc ↦ hsame hsucc.of_succ
    rw [hstart, hnext]
    split
    case isFalse => rfl
    case isTrue hstay =>
      -- Without steps the target's byte is zero, and one more byte of it changes nothing.
      rw [sameHigh_succ_iff, toNat_highBytes_div_span] at hstay
      rw [← UInt32.toNat_inj, toNat_highBytes, toNat_highBytes, pow_eq_span, pow_eq_span_mul,
        ← hstay, ← Nat.div_div_eq_div_mul, Nat.mul_comm (span part), ← Nat.mul_assoc]

private theorem sameHigh_succ_iff_idle {part : Fin 4} {counter index : UInt32}
    (hle : counter ≤ index) :
    SameHigh (part + 1) counter index ↔
      SameHigh part counter index ∧
        stepsBetween part (waypoint counter index part) index = 0 := by
  constructor
  · intro hsucc
    have hsame : SameHigh part counter index := hsucc.of_succ
    rw [waypoint, if_pos hsame]
    exact ⟨hsame, (stepsBetween_eq_zero_iff hle hsame).mpr hsucc⟩
  · rintro ⟨hsame, hzero⟩
    rw [waypoint, if_pos hsame] at hzero
    exact (stepsBetween_eq_zero_iff hle hsame).mp hzero

theorem sameHigh_iff_idle {counter index : UInt32} (hle : counter ≤ index) {count : Nat}
    (hcount : count ≤ 4) :
    SameHigh count counter index ↔
      ∀ part : Fin 4, part < count →
        stepsBetween part (waypoint counter index part) index = 0 := by
  induction count with
  | zero => exact ⟨fun _ _ hpart ↦ absurd hpart (Nat.not_lt_zero _), fun _ ↦ sameHigh_zero _ _⟩
  | succ count ih =>
    rw [@sameHigh_succ_iff_idle ⟨count, hcount⟩ _ _ hle, ih (Nat.le_of_succ_le hcount)]
    constructor
    · rintro ⟨hbefore, hlast⟩ part hpart
      rcases Nat.lt_succ_iff_lt_or_eq.mp hpart with hlt | heq
      · exact hbefore part hlt
      · obtain rfl : part = ⟨count, hcount⟩ := Fin.ext heq
        exact hlast
    · intro hall
      exact ⟨fun part hpart ↦ hall part (Nat.lt_succ_of_lt hpart),
        hall ⟨count, hcount⟩ (Nat.lt_succ_self count)⟩

/-! ## Steps -/

/-- How many steps a part takes on the way between two indices: those from byte to byte if all
higher bytes are the same, and otherwise those from zero. -/
def stepsOnWay (counter index : UInt32) (part : Fin 4) : Nat :=
  if SameHigh part counter index then counterByte part index - counterByte part counter
  else counterByte part index

theorem counterByte_lt (part : Fin 4) (counter : UInt32) : counterByte part counter < 256 :=
  Nat.mod_lt _ (by decide)

theorem stepsOnWay_le (counter index : UInt32) (part : Fin 4) :
    stepsOnWay counter index part ≤ counterByte part index := by
  rw [stepsOnWay]
  split
  case isTrue => exact Nat.sub_le _ _
  case isFalse => exact Nat.le_refl _

theorem toNat_stepsBetween_waypoint (part : Fin 4) {counter index : UInt32}
    (hle : counter ≤ index) :
    (stepsBetween part (waypoint counter index part) index).toNat =
      stepsOnWay counter index part := by
  obtain ⟨-, hbelow, hhigh⟩ := waypoint_between hle part
  rw [(toNat_stepsBetween hbelow hhigh).1, stepsOnWay, waypoint, counterByte, counterByte]
  by_cases hsame : SameHigh part counter index
  · rw [if_pos hsame, if_pos hsame]
    rw [sameHigh_iff] at hsame
    omega
  · rw [if_neg hsame, if_neg hsame, toNat_highBytes_div_span]
    omega

/-! ## Turns -/

variable {provider : Provider} {index : UInt32} {ratchet : Ratchet} {journal : Journal}

theorem take_finRange_succ (part : Fin 4) :
    (List.finRange 4).take (part + 1) = (List.finRange 4).take part ++ [part] := by
  decide +revert

theorem advanceParts_take_succ (index : UInt32) (part : Fin 4) :
    advanceParts provider index ((List.finRange 4).take (part + 1)) =
      advanceParts provider index ((List.finRange 4).take part) >>= fun _ ↦
        advancePart provider index part := by
  have hturn : advanceParts provider index [part] = advancePart provider index part :=
    bind_pure_unit
  rw [take_finRange_succ, advanceParts_append]
  exact congrArg (_ >>= ·) (funext fun _ ↦ hturn)

/-- **A jump stops at its waypoints.** Whatever the provider answers, the turns that succeed lead
from stop to stop. -/
theorem counter_advanceParts_take_of_ok {count : Nat} (hcount : count ≤ 4)
    (hle : ratchet.counter ≤ index)
    (hok : (advanceParts provider index ((List.finRange 4).take count) ratchet journal).result =
      .ok ()) :
    (advanceParts provider index ((List.finRange 4).take count) ratchet journal).state.counter =
      waypoint ratchet.counter index count := by
  induction count with
  | zero => exact (waypoint_zero _ _).symm
  | succ count ih =>
    let part : Fin 4 := ⟨count, hcount⟩
    have htake : advanceParts provider index ((List.finRange 4).take (count + 1)) =
        advanceParts provider index ((List.finRange 4).take count) >>= fun _ ↦
          advancePart provider index part := advanceParts_take_succ index part
    rw [htake] at hok ⊢
    obtain ⟨_, hbefore, hturn⟩ := result_bind_eq_ok_iff.mp hok
    rw [bind_apply_ok hbefore, counter_advancePart_of_ok hturn,
      ih (Nat.le_of_succ_le hcount) hbefore]
    exact counterAfter_waypoint part hle

end Ratchet

end GroupSession
