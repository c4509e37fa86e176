import GroupSession.Proofs.Authenticity
import GroupSession.Proofs.Waypoints

/-!
# The arithmetic of a jump

How many steps a part takes in a jump is worked out at its turn, from the counter as the turns
before have left it. Both the counter and the index are shifted to the byte of the part, and one is
taken from the other, all of it within 32 bits. The result is then cut down to one byte. A wrong
counter would give a number of steps as well, and with it the keys of some other index.

## Nothing is lost

The counter is right at each turn because it lies between the start of the jump and its target, and
has the bytes of the target for all parts before. So the two shifted values differ in their lowest
byte at most, and not downwards: the subtraction does not wrap, and nothing is cut off. The turn
then brings one more byte to that of the target, and if the part has no steps to take, that byte is
the same already. Behind the last turn no byte is left, and the jump has arrived.
-/

namespace GroupSession

open GroupSession.Action

namespace Ratchet

/-! ## The difference -/

/-- The steps of a part are the difference of two numbers, of which neither the subtraction of words
nor the mask takes anything away. -/
structure ExactSteps (part : Fin 4) (counter index : UInt32) : Prop where
  not_negative : counter >>> shift part ≤ index >>> shift part
  one_byte : (index >>> shift part).toNat - (counter >>> shift part).toNat ≤ 255
  not_wrapped : (index >>> shift part - counter >>> shift part).toNat =
    (index >>> shift part).toNat - (counter >>> shift part).toNat
  not_masked : stepsBetween part counter index = index >>> shift part - counter >>> shift part

theorem exactSteps_of_sameHigh {part : Fin 4} {counter index : UInt32} (hle : counter ≤ index)
    (hsame : SameHigh part counter index) : ExactSteps part counter index := by
  obtain ⟨hsteps, hlt⟩ := toNat_stepsBetween hle hsame
  have hshift : counter >>> shift part ≤ index >>> shift part := by
    rw [UInt32.le_iff_toNat_le, toNat_shiftRight_shift, toNat_shiftRight_shift]
    exact Nat.div_le_div_right (UInt32.le_iff_toNat_le.mp hle)
  have hsub := UInt32.toNat_sub_of_le _ _ hshift
  refine ⟨hshift, ?_, hsub, ?_⟩
  · rw [toNat_shiftRight_shift, toNat_shiftRight_shift]
    exact Nat.le_of_lt_succ hlt
  · rw [← UInt32.toNat_inj, hsub, hsteps, toNat_shiftRight_shift, toNat_shiftRight_shift]

/-! ## The turns -/

variable {provider : Provider} {index : UInt32} {ratchet : Ratchet} {journal : Journal}

/-- What the turns before a part have made of the counter, and what this means for its steps. -/
private theorem exactSteps_of_turns_ok {part : Fin 4} (hle : ratchet.counter ≤ index)
    (hok : (advanceParts provider index ((List.finRange 4).take part) ratchet journal).result =
      .ok ()) :
    let counter := (advanceParts provider index ((List.finRange 4).take part) ratchet
      journal).state.counter
    ratchet.counter ≤ counter ∧ counter ≤ index ∧ SameHigh part counter index ∧
      ExactSteps part counter index := by
  intro counter
  obtain ⟨hahead, hbelow, hhigh⟩ := waypoint_between hle part
  have hcounter : counter = waypoint ratchet.counter index part :=
    counter_advanceParts_take_of_ok (Nat.le_of_lt part.isLt) hle hok
  rw [hcounter]
  exact ⟨hahead, hbelow, hhigh, exactSteps_of_sameHigh hbelow hhigh⟩

/-- **The steps of a jump are exact.** With any provider whose hashes do not fail, a jump to an
index ahead gives each part its turn. When a part has its turn, the counter has not fallen behind
the start of the jump nor passed its target, and it has the target's bytes for all parts before. The
difference of the two, as it is shifted to the part, is not negative and at most 255, and neither
the subtraction of words nor the mask changes it. Behind the turn, with steps or without, the
counter has the target's byte for this part as well. Behind the last turn it is the target. -/
theorem advanceTo_steps_exact (provider : Provider) (hreliable : provider.Reliable .hmacSha256)
    (ratchet : Ratchet) (index : UInt32) (hlt : ratchet.counter < index) (journal : Journal) :
    (∀ part : Fin 4,
      let before := advanceParts provider index ((List.finRange 4).take part) ratchet journal
      let after := advancePart provider index part before.state before.journal
      before.result = .ok () ∧ ratchet.counter ≤ before.state.counter ∧
      before.state.counter ≤ index ∧ SameHigh part before.state.counter index ∧
      ExactSteps part before.state.counter index ∧
      after.result = .ok () ∧ SameHigh (part + 1) after.state.counter index ∧
      after = advanceParts provider index ((List.finRange 4).take (part + 1)) ratchet journal) ∧
    (advanceParts provider index (List.finRange 4) ratchet journal).state.counter = index ∧
    (advanceTo provider index ratchet journal).result = .ok () ∧
    (advanceTo provider index ratchet journal).state =
      (advanceParts provider index (List.finRange 4) ratchet journal).state := by
  have hle : ratchet.counter ≤ index := UInt32.le_of_lt hlt
  have hturns (parts : List (Fin 4)) :
      (advanceParts provider index parts ratchet journal).result = .ok () := by
    obtain ⟨_, hok⟩ := (inherited_stopsAtRefusal.advanceParts index parts).exists_result_of_reliable
      hreliable ratchet journal
    exact hok
  refine ⟨fun part ↦ ?_, ?_, ?_, ?_⟩
  · intro before after
    obtain ⟨hahead, hbelow, hhigh, hexact⟩ := exactSteps_of_turns_ok hle (hturns _)
    have hafter : after =
        advanceParts provider index ((List.finRange 4).take (part + 1)) ratchet journal := by
      rw [advanceParts_take_succ, bind_apply_ok (hturns _)]
    have hcounter := counter_advanceParts_take_of_ok part.isLt hle (hturns _)
    refine ⟨hturns _, hahead, hbelow, hhigh, hexact, ?_, ?_, hafter⟩
    · rw [hafter]
      exact hturns _
    · rw [hafter, hcounter]
      exact (waypoint_between hle (part + 1)).2.2
  · exact counter_advanceParts_of_ok (Nat.zero_le 4) hle (sameHigh_zero _ _) (hturns _)
  · rw [advanceTo_of_lt hlt, bind_apply_ok (hturns _)]
    rfl
  · rw [advanceTo_of_lt hlt, bind_apply_ok (hturns _)]
    rfl

/-- A jump over the ends of three bytes: the last part starts from zero. -/
theorem advanceTo_steps_exact_over_carry :
    let ratchet : Ratchet := ofBytes (FixedBytes.zero 128) 0x00fffffe
    let before := advanceParts .standard 0x01000003 ((List.finRange 4).take 3) ratchet {}
    before.result = .ok () ∧ ratchet.counter ≤ before.state.counter ∧
      SameHigh 3 before.state.counter 0x01000003 ∧
      ExactSteps 3 before.state.counter 0x01000003 ∧
      (advanceTo .standard 0x01000003 ratchet {}).result = .ok () ∧
      (advanceTo .standard 0x01000003 ratchet {}).state.counter = 0x01000003 := by
  intro ratchet before
  have hreliable : Provider.standard.Reliable .hmacSha256 :=
    Provider.reliable_standard (by decide) (by decide)
  obtain ⟨hturns, harrived, hresult, hstate⟩ :=
    advanceTo_steps_exact .standard hreliable ratchet 0x01000003 (by decide) {}
  obtain ⟨hok, hahead, -, hhigh, hexact, -⟩ := hturns 3
  exact ⟨hok, hahead, hhigh, hexact, hresult, hstate ▸ harrived⟩

end Ratchet

end GroupSession
