import GroupSession.Proofs.Recurrence

/-!
# A jump equals single steps

A ratchet that jumps ends where single steps would have taken it, with far fewer hashes. The jump
brings one byte of the counter after another to that of the target, from the highest to the lowest.
So the way is cut into at most four pieces, at the indices where the jump stops in between.

## One piece of the way

On such a piece the bytes above one part do not change, and the piece ends where all bytes behind
the part are zero. Stepping through it, the part is hashed once for every multiple of its span, and
what the steps in between do to the lower parts is lost with the next of them: only the last hash of
the part counts for those. This is the invariant `Passed`, which single steps keep.

## The whole way

Cutting off piece after piece gives the jump. If no hash fails, every way can be taken, and then
jumps can be put together: on the way to an index it does not matter where a ratchet stops.
-/

namespace GroupSession

open GroupSession.Action

namespace Ratchet

variable {provider : Provider}

/-! ## Single steps -/

private theorem advanceTimes_add (provider : Provider) (times more : Nat) :
    advanceTimes provider (times + more) =
      advanceTimes provider times >>= fun _ ↦ advanceTimes provider more := by
  induction times with
  | zero => rw [Nat.zero_add, advanceTimes, pure_bind]
  | succ times ih => rw [Nat.add_right_comm, advanceTimes, ih, advanceTimes, bind_assoc]

theorem advanceTimes_one (provider : Provider) : advanceTimes provider 1 = advance provider :=
  bind_pure_unit

section Steady

variable (h : provider.Steady .hmacSha256)

include h

private theorem advanceTimes_add_yields_iff {times more : Nat} {ratchet after : Ratchet} :
    Yields (advanceTimes provider (times + more)) ratchet () after ↔
      ∃ middle, Yields (advanceTimes provider times) ratchet () middle ∧
        Yields (advanceTimes provider more) middle () after := by
  rw [advanceTimes_add, (ignoresJournal_advanceTimes h times).yields_bind_iff
    fun _ ↦ ignoresJournal_advanceTimes h more]
  exact ⟨fun ⟨_, middle, hs⟩ ↦ ⟨middle, hs⟩, fun ⟨middle, hs⟩ ↦ ⟨(), middle, hs⟩⟩

theorem advance_yields_iff {ratchet after : Ratchet} :
    Yields (advance provider) ratchet () after ↔
      DerivedFrom provider (firstChanged (ratchet.counter + 1))
        ratchet.parts[firstChanged (ratchet.counter + 1)]
        { ratchet with counter := ratchet.counter + 1 } after :=
  @reseed_yields_iff provider h _ { ratchet with counter := ratchet.counter + 1 } after

theorem advanceTimes_succ_yields_iff {times : Nat} {ratchet after : Ratchet} :
    Yields (advanceTimes provider (times + 1)) ratchet () after ↔
      ∃ middle, Yields (advanceTimes provider times) ratchet () middle ∧
        Yields (advance provider) middle () after := by
  rw [advanceTimes_add_yields_iff h, advanceTimes_one]

omit h in
theorem advanceTimes_zero_yields_iff {ratchet after : Ratchet} :
    Yields (advanceTimes provider 0) ratchet () after ↔ ratchet = after :=
  ⟨fun h ↦ (h {}).2, fun h _ ↦ ⟨rfl, h⟩⟩

/-! ## One piece of the way -/

/-- What single steps have made of a ratchet after some of them, seen from one part: it was hashed
once for every multiple of its span on the way, and the latest of these hashes is what the lower
parts come from, if nothing has happened to them since. -/
structure Passed (provider : Provider) (part : Fin 4) (ratchet : Ratchet) (times : Nat)
    (after : Ratchet) : Prop where
  counter : after.counter.toNat = ratchet.counter.toNat + times
  kept : ∀ higher, higher < part → after.parts[higher] = ratchet.parts[higher]
  chain : HashChain provider part
    ((ratchet.counter.toNat + times) / span part - ratchet.counter.toNat / span part)
    ratchet.parts[part] after.parts[part]
  derived : ∀ steps, span part ∣ ratchet.counter.toNat + times →
    (ratchet.counter.toNat + times) / span part - ratchet.counter.toNat / span part = steps + 1 →
    ∃ key, HashChain provider part steps ratchet.parts[part] key ∧
      ∀ lower, part ≤ lower → provider.hashPart key lower = .ok after.parts[lower]

omit h in
private theorem Passed.zero (part : Fin 4) (ratchet : Ratchet) :
    Passed provider part ratchet 0 ratchet where
  counter := rfl
  kept _ _ := rfl
  chain := by
    rw [Nat.add_zero, Nat.sub_self]
    exact .refl _
  derived steps _ hsteps := by
    rw [Nat.add_zero, Nat.sub_self] at hsteps
    cases hsteps

omit h in
/-- Within the indices that have the same bytes above a part, no higher part changes. -/
private theorem part_le_firstChanged {part : Fin 4} {start : Nat} {counter : UInt32}
    (hstart : start < counter.toNat)
    (hsame : counter.toNat / span part / 256 = start / span part / 256) :
    part ≤ firstChanged counter := by
  rw [← Fin.not_lt]
  intro hlt
  have hdvd : span part * 256 ∣ counter.toNat :=
    Nat.dvd_trans (span_mul_dvd_span hlt) (span_firstChanged_dvd counter)
  rw [Nat.div_div_eq_div_mul, Nat.div_div_eq_div_mul] at hsame
  have hle : start / (span part * 256) * (span part * 256) ≤ start := Nat.div_mul_le_self _ _
  rw [← hsame, Nat.div_mul_cancel hdvd] at hle
  omega

private theorem Passed.advance {part : Fin 4} {ratchet middle after : Ratchet} {times : Nat}
    (hpassed : Passed provider part ratchet times middle)
    (hstep : Yields (advance provider) middle () after)
    (hlt : ratchet.counter.toNat + (times + 1) < 2 ^ 32)
    (hsame : (ratchet.counter.toNat + (times + 1)) / span part / 256 =
      ratchet.counter.toNat / span part / 256) :
    Passed provider part ratchet (times + 1) after := by
  have hcounter : (middle.counter + 1).toNat = ratchet.counter.toNat + (times + 1) := by
    have hmiddle := hpassed.counter
    rw [toNat_add_one (by omega), hmiddle, Nat.add_assoc]
  rw [← hcounter] at hsame
  have hle : part ≤ firstChanged (middle.counter + 1) :=
    part_le_firstChanged (by omega) hsame
  obtain ⟨hafter, hkept, hderived⟩ := (advance_yields_iff h).mp hstep
  have hcounter' : after.counter.toNat = ratchet.counter.toNat + (times + 1) := by
    rw [hafter, hcounter]
  have hdiv : ratchet.counter.toNat / span part ≤ (ratchet.counter.toNat + times) / span part :=
    Nat.div_le_div_right (Nat.le_add_right _ _)
  have hhigher (higher : Fin 4) (hhigher : higher < part) :
      after.parts[higher] = ratchet.parts[higher] := by
    rw [hkept higher (Fin.lt_of_lt_of_le hhigher hle)]
    exact hpassed.kept higher hhigher
  by_cases hdvd : span part ∣ ratchet.counter.toNat + (times + 1)
  · -- The part itself takes a step, and everything below it is derived anew.
    have heq : firstChanged (middle.counter + 1) = part :=
      Fin.le_antisymm (firstChanged_le (hcounter ▸ hdvd)) hle
    simp only [heq] at hderived
    have hsteps : (ratchet.counter.toNat + (times + 1)) / span part -
        ratchet.counter.toNat / span part = (ratchet.counter.toNat + times) / span part -
          ratchet.counter.toNat / span part + 1 := by
      have hdiv' : (ratchet.counter.toNat + (times + 1)) / span part =
          (ratchet.counter.toNat + times) / span part + 1 := Nat.succ_div_of_dvd hdvd
      omega
    refine ⟨hcounter', hhigher, ?_, fun steps _ hcount ↦ ?_⟩
    · rw [hsteps]
      exact .step hpassed.chain (hderived part (Fin.le_refl part))
    · obtain rfl : _ = steps := Nat.succ.inj (hsteps.symm.trans hcount)
      exact ⟨middle.parts[part], hpassed.chain, hderived⟩
  · -- Only lower parts change.
    have hbelow : part < firstChanged (middle.counter + 1) := by
      rw [← Fin.not_le, firstChanged_le_iff, hcounter]
      exact hdvd
    have hsteps : (ratchet.counter.toNat + (times + 1)) / span part =
        (ratchet.counter.toNat + times) / span part := Nat.succ_div_of_not_dvd hdvd
    refine ⟨hcounter', hhigher, ?_, fun steps hdvd' ↦ absurd hdvd' hdvd⟩
    rw [hsteps, hkept part hbelow]
    exact hpassed.chain

/-- Single steps pass through the indices that have the same bytes above a part. -/
private theorem passed_of_advanceTimes {part : Fin 4} {ratchet after : Ratchet} {times : Nat}
    (hsteps : Yields (advanceTimes provider times) ratchet () after)
    (hlt : ratchet.counter.toNat + times < 2 ^ 32)
    (hsame : (ratchet.counter.toNat + times) / span part / 256 =
      ratchet.counter.toNat / span part / 256) :
    Passed provider part ratchet times after := by
  induction times generalizing after with
  | zero =>
    obtain rfl := advanceTimes_zero_yields_iff.mp hsteps
    exact .zero part ratchet
  | succ times ih =>
    obtain ⟨middle, hmiddle, hstep⟩ := (advanceTimes_succ_yields_iff h).mp hsteps
    have hbelow : ratchet.counter.toNat / span part / 256 ≤
        (ratchet.counter.toNat + times) / span part / 256 :=
      Nat.div_le_div_right (Nat.div_le_div_right (Nat.le_add_right _ _))
    have habove : (ratchet.counter.toNat + times) / span part / 256 ≤
        (ratchet.counter.toNat + (times + 1)) / span part / 256 :=
      Nat.div_le_div_right (Nat.div_le_div_right (by omega))
    exact (ih hmiddle (by omega) (by omega)).advance h hstep hlt hsame

/-! ## The whole way -/

omit h in
theorem advancePart_apply (index : UInt32) (part : Fin 4) (ratchet : Ratchet)
    (journal : Journal) :
    advancePart provider index part ratchet journal =
      if stepsBetween part ratchet.counter index = 0 then ⟨.ok (), ratchet, journal⟩
      else (rehashAll provider (plan part (stepsBetween part ratchet.counter index).toNat) >>=
        fun _ ↦ modify fun ratchet ↦ { ratchet with counter := clearBehind part index })
          ratchet journal := by
  change (if stepsBetween part ratchet.counter index = 0 then pure ()
    else rehashAll provider (plan part (stepsBetween part ratchet.counter index).toNat) >>=
      fun _ ↦ modify fun ratchet ↦ { ratchet with counter := clearBehind part index } :
        Action Ratchet RatchetError Unit) ratchet journal = _
  split <;> rfl

private theorem advancePart_of_advanceTimes (part : Fin 4) {index : UInt32}
    {ratchet after : Ratchet}
    (hle : ratchet.counter ≤ index) (hsame : SameHigh part ratchet.counter index)
    (hsteps : Yields (advanceTimes provider (index.toNat - ratchet.counter.toNat)) ratchet ()
      after) :
    ∃ middle, Yields (advancePart provider index part) ratchet () middle ∧
      middle.counter = counterAfter part ratchet.counter index ∧
      Yields (advanceTimes provider (index.toNat - middle.counter.toNat)) middle () after := by
  obtain ⟨hbelow, habove, hnext⟩ := counterAfter_between part hle hsame
  by_cases hzero : stepsBetween part ratchet.counter index = 0
  · -- The part has its byte already, and nothing happens.
    refine ⟨ratchet, fun journal ↦ ?_, ?_, hsteps⟩
    · rw [advancePart_apply, if_pos hzero]
      exact ⟨rfl, rfl⟩
    · rw [counterAfter, if_pos hzero]
  · have hafter : counterAfter part ratchet.counter index = clearBehind part index := if_neg hzero
    rw [hafter, UInt32.le_iff_toNat_le] at hbelow habove
    rw [hafter, sameHigh_succ_iff] at hnext
    have hlt : (clearBehind part index).toNat < 2 ^ 32 := (clearBehind part index).toNat_lt
    have hway : ratchet.counter.toNat +
        ((clearBehind part index).toNat - ratchet.counter.toNat) =
          (clearBehind part index).toNat := by omega
    rw [show index.toNat - ratchet.counter.toNat =
      (clearBehind part index).toNat - ratchet.counter.toNat +
        (index.toNat - (clearBehind part index).toNat) by omega,
      advanceTimes_add_yields_iff h] at hsteps
    obtain ⟨middle, hpiece, hrest⟩ := hsteps
    -- On the first piece only this part and lower ones change, and it ends where the part's span
    -- divides the counter: all lower parts are then hashes of the part.
    have hpassed : Passed provider part ratchet
        ((clearBehind part index).toNat - ratchet.counter.toNat) middle :=
      passed_of_advanceTimes h hpiece (by omega) (by rw [hway, hnext, ← sameHigh_iff.mp hsame])
    have hcounter : middle.counter = clearBehind part index := by
      rw [← UInt32.toNat_inj, hpassed.counter, hway]
    obtain ⟨steps, hcount⟩ := exists_toNat_stepsBetween hzero
    obtain ⟨key, hchain, hderived⟩ := hpassed.derived steps
      (by rw [hway, toNat_clearBehind]; exact Nat.dvd_mul_left _ _)
      (by rw [hway, hnext, ← (toNat_stepsBetween hle hsame).1, hcount])
    have hplan : Yields (rehashAll provider (plan part (steps + 1))) ratchet ()
        { middle with counter := ratchet.counter } :=
      plan_yields h hchain ⟨rfl, hpassed.kept, hderived⟩
    refine ⟨middle, fun journal ↦ ?_, hcounter.trans hafter.symm, hcounter ▸ hrest⟩
    rw [advancePart_apply, if_neg hzero, hcount]
    refine hplan.bind (fun _ ↦ ⟨rfl, ?_⟩) journal
    change { middle with counter := clearBehind part index } = middle
    rw [← hcounter]

private theorem advanceParts_of_advanceTimes {count : Nat} {index : UInt32}
    {ratchet after : Ratchet} (hcount : count ≤ 4) (hle : ratchet.counter ≤ index)
    (hsame : SameHigh count ratchet.counter index)
    (hsteps : Yields (advanceTimes provider (index.toNat - ratchet.counter.toNat)) ratchet ()
      after) :
    Yields (advanceParts provider index ((List.finRange 4).drop count)) ratchet () after := by
  -- The induction is on the number of parts that are left.
  induction hrest : 4 - count generalizing count ratchet with
  | zero =>
    obtain rfl : count = 4 := by omega
    obtain rfl := sameHigh_four_iff.mp hsame
    rw [Nat.sub_self, advanceTimes_zero_yields_iff] at hsteps
    subst hsteps
    exact fun _ ↦ ⟨rfl, rfl⟩
  | succ rest ih =>
    have hcount' : count < 4 := by omega
    rw [drop_finRange hcount']
    obtain ⟨middle, hpart, hcounter, hsteps⟩ :=
      advancePart_of_advanceTimes h ⟨count, hcount'⟩ hle hsame hsteps
    obtain ⟨-, hle', hsame'⟩ := counterAfter_between ⟨count, hcount'⟩ hle hsame
    rw [← hcounter] at hle' hsame'
    exact hpart.bind (ih hcount' hle' hsame' hsteps (by omega))

omit h in
theorem advanceTo_apply (index : UInt32) (ratchet : Ratchet) (journal : Journal) :
    advanceTo provider index ratchet journal =
      if index < ratchet.counter then
        ⟨.error (.indexTooLow ratchet.counter index), ratchet, journal⟩
      else if index = ratchet.counter then ⟨.ok (), ratchet, journal⟩
      else (advanceParts provider index (List.finRange 4) >>=
        fun _ ↦ Action.log (.advanced ratchet.counter index)) ratchet journal := by
  change (if index < ratchet.counter then throw (.indexTooLow ratchet.counter index)
    else if index = ratchet.counter then pure ()
    else advanceParts provider index (List.finRange 4) >>=
      fun _ ↦ Action.log (.advanced ratchet.counter index) :
        Action Ratchet RatchetError Unit) ratchet journal = _
  split
  · rfl
  split <;> rfl

omit h in
theorem advanceTo_self (ratchet : Ratchet) (journal : Journal) :
    advanceTo provider ratchet.counter ratchet journal = ⟨.ok (), ratchet, journal⟩ := by
  rw [advanceTo_apply, if_neg (UInt32.lt_irrefl _), if_pos rfl]

omit h in
/-- A jump ahead consists of the turns of all parts, and is logged behind them. -/
theorem advanceTo_of_lt {index : UInt32} {ratchet : Ratchet} (hlt : ratchet.counter < index)
    (journal : Journal) :
    advanceTo provider index ratchet journal =
      (advanceParts provider index (List.finRange 4) >>=
        fun _ ↦ Action.log (.advanced ratchet.counter index)) ratchet journal := by
  rw [advanceTo_apply, if_neg (UInt32.not_lt.mpr (UInt32.le_of_lt hlt)),
    if_neg (Ne.symm (UInt32.ne_of_lt hlt))]

/-- **Jumps follow single steps.** Where single steps arrive at an index, so does a jump, and with
the same ratchet. -/
theorem advanceTo_of_advanceTimes {index : UInt32} {ratchet after : Ratchet}
    (hle : ratchet.counter ≤ index)
    (hsteps : Yields (advanceTimes provider (index.toNat - ratchet.counter.toNat)) ratchet ()
      after) :
    Yields (advanceTo provider index) ratchet () after := by
  intro journal
  rw [advanceTo_apply, if_neg (UInt32.not_lt.mpr hle)]
  split
  case isTrue heq =>
    rw [heq, Nat.sub_self, advanceTimes_zero_yields_iff] at hsteps
    exact ⟨rfl, hsteps⟩
  case isFalse =>
    have hparts := advanceParts_of_advanceTimes h (Nat.zero_le 4) hle (sameHigh_zero _ _) hsteps
    exact hparts.bind (fun _ ↦ ⟨rfl, rfl⟩) journal

private theorem counter_of_advanceTimes {times : Nat} {ratchet after : Ratchet}
    (hsteps : Yields (advanceTimes provider times) ratchet () after) :
    after.counter = ratchet.counter + UInt32.ofNat times := by
  induction times generalizing after with
  | zero =>
    rw [advanceTimes_zero_yields_iff.mp hsteps]
    exact (UInt32.add_zero _).symm
  | succ times ih =>
    obtain ⟨middle, hmiddle, hstep⟩ := (advanceTimes_succ_yields_iff h).mp hsteps
    rw [((advance_yields_iff h).mp hstep).counter, ih hmiddle, UInt32.ofNat_add, UInt32.add_assoc]
    rfl

end Steady

private theorem add_ofNat_sub {counter index : UInt32} (hle : counter ≤ index) :
    counter + UInt32.ofNat (index.toNat - counter.toNat) = index := by
  have hlt : index.toNat < 2 ^ 32 := index.toNat_lt
  rw [UInt32.le_iff_toNat_le] at hle
  rw [← UInt32.toNat_inj, UInt32.toNat_add, UInt32.toNat_ofNat', Nat.mod_eq_of_lt (by omega),
    Nat.mod_eq_of_lt (by omega)]
  omega

/-! ## The path of a ratchet

If no hash fails, a ratchet has one state ahead for each later index, and it comes through that
state on whatever way it goes. -/

/-- The ratchet that a jump to an index leaves. -/
def atIndex (provider : Provider) (index : UInt32) (ratchet : Ratchet) : Ratchet :=
  (advanceTo provider index ratchet {}).state

@[simp] theorem atIndex_self (provider : Provider) (ratchet : Ratchet) :
    ratchet.atIndex provider ratchet.counter = ratchet := by
  rw [atIndex, advanceTo_self]

section Reliable

variable (h : provider.Steady .hmacSha256) (hreliable : provider.Reliable .hmacSha256)

include h hreliable

private theorem exists_rehashAll_yields (steps : List Rehash) (ratchet : Ratchet) :
    ∃ after, Yields (rehashAll provider steps) ratchet () after := by
  induction steps generalizing ratchet with
  | nil => exact ⟨ratchet, fun _ ↦ ⟨rfl, rfl⟩⟩
  | cons step steps ih =>
    obtain ⟨part, hpart⟩ := hreliable (step.request ratchet) rfl trivial []
    obtain ⟨after, hafter⟩ := ih { ratchet with parts := ratchet.parts.set step.target part }
    exact ⟨after, (rehashAll_cons_yields_iff h).mpr
      ⟨_, (rehash_yields_iff h).mpr ⟨part, hpart, rfl⟩, hafter⟩⟩

theorem exists_advanceTimes_yields (times : Nat) (ratchet : Ratchet) :
    ∃ after, Yields (advanceTimes provider times) ratchet () after := by
  induction times with
  | zero => exact ⟨ratchet, fun _ ↦ ⟨rfl, rfl⟩⟩
  | succ times ih =>
    obtain ⟨middle, hmiddle⟩ := ih
    obtain ⟨after, hafter⟩ := exists_rehashAll_yields h hreliable
      (reseed (firstChanged (middle.counter + 1))) { middle with counter := middle.counter + 1 }
    exact ⟨after, (advanceTimes_succ_yields_iff h).mpr ⟨middle, hmiddle, hafter⟩⟩

/-- Single steps lead to an index exactly as a jump does. -/
theorem advanceTimes_yields_atIndex {index : UInt32} {ratchet : Ratchet}
    (hle : ratchet.counter ≤ index) :
    Yields (advanceTimes provider (index.toNat - ratchet.counter.toNat)) ratchet ()
      (ratchet.atIndex provider index) := by
  obtain ⟨after, hafter⟩ := exists_advanceTimes_yields h hreliable
    (index.toNat - ratchet.counter.toNat) ratchet
  have hjump : ratchet.atIndex provider index = after :=
    (advanceTo_of_advanceTimes h hle hafter {}).2
  exact hjump ▸ hafter

theorem advanceTo_yields {index : UInt32} {ratchet : Ratchet} (hle : ratchet.counter ≤ index) :
    Yields (advanceTo provider index) ratchet () (ratchet.atIndex provider index) :=
  advanceTo_of_advanceTimes h hle (advanceTimes_yields_atIndex h hreliable hle)

theorem counter_atIndex {index : UInt32} {ratchet : Ratchet} (hle : ratchet.counter ≤ index) :
    (ratchet.atIndex provider index).counter = index := by
  rw [counter_of_advanceTimes h (advanceTimes_yields_atIndex h hreliable hle), add_ofNat_sub hle]

/-- **Jumps compose.** It does not matter where a ratchet stops on its way. -/
theorem atIndex_atIndex {middle index : UInt32} {ratchet : Ratchet}
    (hmiddle : ratchet.counter ≤ middle) (hindex : middle ≤ index) :
    (ratchet.atIndex provider middle).atIndex provider index = ratchet.atIndex provider index := by
  have hcounter := counter_atIndex h hreliable hmiddle
  have hfirst := advanceTimes_yields_atIndex h hreliable hmiddle
  have hsecond := advanceTimes_yields_atIndex h hreliable (hcounter.symm ▸ hindex)
  rw [hcounter] at hsecond
  have hboth := (advanceTimes_add_yields_iff h).mpr ⟨_, hfirst, hsecond⟩
  rw [UInt32.le_iff_toNat_le] at hmiddle hindex
  rw [show middle.toNat - ratchet.counter.toNat + (index.toNat - middle.toNat) =
    index.toNat - ratchet.counter.toNat by omega] at hboth
  have hle : ratchet.counter ≤ index := UInt32.le_iff_toNat_le.mpr (by omega)
  exact (hboth {}).2.symm.trans (advanceTimes_yields_atIndex h hreliable hle {}).2

theorem advanceTo_eq_of_atIndex_eq {index : UInt32} {ratchet other : Ratchet}
    (hle : ratchet.counter ≤ index) (hle' : other.counter ≤ index)
    (hsame : ratchet.atIndex provider index = other.atIndex provider index)
    (journal journal' : Journal) :
    (advanceTo provider index ratchet journal).result =
        (advanceTo provider index other journal').result ∧
      (advanceTo provider index ratchet journal).state =
        (advanceTo provider index other journal').state := by
  have hjump := advanceTo_yields h hreliable hle journal
  have hjump' := advanceTo_yields h hreliable hle' journal'
  exact ⟨hjump.1.trans hjump'.1.symm, hjump.2.trans (hsame.trans hjump'.2.symm)⟩

theorem advance_yields_atIndex {index : UInt32} {ratchet : Ratchet}
    (hle : ratchet.counter ≤ index) (hlt : index.toNat + 1 < 2 ^ 32) :
    Yields (advance provider) (ratchet.atIndex provider index) ()
      (ratchet.atIndex provider (index + 1)) := by
  have hcounter := counter_atIndex h hreliable hle
  have hsucc : (index + 1).toNat = index.toNat + 1 := toNat_add_one hlt
  have hnext : index ≤ index + 1 := UInt32.le_iff_toNat_le.mpr (by omega)
  have hstep := advanceTimes_yields_atIndex h hreliable (hcounter.symm ▸ hnext)
  rw [hcounter, hsucc, Nat.add_sub_cancel_left, atIndex_atIndex h hreliable hle hnext,
    advanceTimes_one] at hstep
  exact hstep

end Reliable

/-- **A jump equals single steps.** With a keyed hash that is a function of key and data, if the
steps from a ratchet to a later index all succeed, then so does the jump, and it leaves the same
ratchet, at that index. The hash may fail elsewhere. -/
theorem advanceTo_eq_advanceTimes (provider : Provider) (hsteady : provider.Steady .hmacSha256)
    (ratchet : Ratchet) (index : UInt32) (hle : ratchet.counter ≤ index) (journal : Journal)
    (hsteps : (advanceTimes provider (index.toNat - ratchet.counter.toNat) ratchet
      journal).result = .ok ()) (journal' : Journal) :
    (advanceTo provider index ratchet journal').result = .ok () ∧
      (advanceTo provider index ratchet journal').state =
        (advanceTimes provider (index.toNat - ratchet.counter.toNat) ratchet journal).state ∧
      (advanceTo provider index ratchet journal').state.counter = index := by
  have hyields := (ignoresJournal_advanceTimes hsteady _).yields hsteps
  obtain ⟨hresult, hstate⟩ := advanceTo_of_advanceTimes hsteady hle hyields journal'
  refine ⟨hresult, hstate, ?_⟩
  rw [hstate, counter_of_advanceTimes hsteady hyields, add_ofNat_sub hle]

/-- Five steps over the end of three bytes at once, and the jump. -/
theorem advanceTo_over_three_bytes :
    let ratchet : Ratchet := ofBytes (FixedBytes.zero 128) 0x00fffffe
    (advanceTimes Provider.standard 5 ratchet {}).result = .ok () ∧
      (advanceTo Provider.standard 0x01000003 ratchet {}).result = .ok () ∧
      (advanceTo Provider.standard 0x01000003 ratchet {}).state =
        (advanceTimes Provider.standard 5 ratchet {}).state ∧
      (advanceTo Provider.standard 0x01000003 ratchet {}).state.counter = 0x01000003 := by
  intro ratchet
  have hsteady : Provider.standard.Steady .hmacSha256 := Provider.deterministic_standard _
  have hreliable : Provider.standard.Reliable .hmacSha256 :=
    Provider.reliable_standard (by decide) (by decide)
  have htimes : (0x01000003 : UInt32).toNat - ratchet.counter.toNat = 5 := by decide
  obtain ⟨after, hafter⟩ := exists_advanceTimes_yields hsteady hreliable 5 ratchet
  have hjump :=
    advanceTo_eq_advanceTimes Provider.standard hsteady ratchet 0x01000003 (by decide) {}
  rw [htimes] at hjump
  exact ⟨(hafter {}).1, hjump (hafter {}).1 {}⟩

end Ratchet

end GroupSession
