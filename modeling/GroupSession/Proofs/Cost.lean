import GroupSession.Proofs.Authenticity
import GroupSession.Proofs.Waypoints
import Mathlib.Algebra.BigOperators.Fin
import Mathlib.Algebra.Order.BigOperators.Group.Finset

/-!
# What a jump costs

A jump is cheap however far it leads, because it does not take the steps in between. What it does
take is known before anything is hashed: each part is hashed once for every step it has on its way,
and with the last of them once more for every part below it.

## Counting requests

For an action on a ratchet it can be said how many requests it makes at most, and that it makes
exactly so many if it succeeds. Where one action follows another the numbers add up, but the second
one depends on where the first has left the counter. For a jump these places are the waypoints.

## The longest jump

A byte has at most 255 steps ahead of it, so the steps of all parts are at most 4 * 255 hashes. This
leaves out the lower parts, which are 3, 2, 1 and 0 for the four parts and so may add 6 hashes.
Jumps that cost more than 4 * 255 do exist, but one needs more than 4 * 255 - 6 steps for that.
-/

namespace GroupSession

namespace Action

variable {σ ε ε' α β : Type}

/-! ## Counting requests -/

/-- From a state, the action makes at most so many requests, and exactly so many if it succeeds. -/
structure Asks (action : Action σ ε α) (state : σ) (count : Nat) : Prop where
  at_most : ∀ journal, (action state journal).journal.requests.length ≤
    journal.requests.length + count
  of_ok : ∀ journal a, (action state journal).result = .ok a →
    (action state journal).journal.requests.length = journal.requests.length + count

namespace Asks

theorem nothing {action : Action σ ε α} {state : σ}
    (h : ∀ journal, (action state journal).journal.requests = journal.requests) :
    Asks action state 0 := by
  constructor
  · intro journal
    rw [h journal]
    exact Nat.le_refl _
  · intro journal _ _
    rw [h journal]
    rfl

theorem of_eq {action action' : Action σ ε α} {state : σ} {count : Nat}
    (h : Asks action' state count)
    (heq : ∀ journal, action state journal = action' state journal) :
    Asks action state count := by
  constructor
  · intro journal
    rw [heq]
    exact h.at_most journal
  · intro journal a
    rw [heq]
    exact h.of_ok journal a

theorem bind {action : Action σ ε α} {next : α → Action σ ε β} {state : σ} {first second : Nat}
    (h : Asks action state first)
    (hnext : ∀ journal a, (action state journal).result = .ok a →
      Asks (next a) (action state journal).state second) :
    Asks (action >>= next) state (first + second) := by
  constructor
  · intro journal
    have hfirst := h.at_most journal
    rw [bind_apply]
    cases hresult : (action state journal).result with
    | error fault =>
      dsimp only
      omega
    | ok a =>
      have hsecond := (hnext journal a hresult).at_most (action state journal).journal
      dsimp only
      omega
  · intro journal b hok
    obtain ⟨a, hresult, hlast⟩ := result_bind_eq_ok_iff.mp hok
    have hfirst := h.of_ok journal a hresult
    have hsecond := (hnext journal a hresult).of_ok _ b hlast
    rw [bind_apply_ok hresult]
    omega

end Asks

end Action

open GroupSession.Action

namespace Ratchet

variable {provider : Provider} {ratchet : Ratchet}

/-! ## Hashes -/

private theorem asks_rehash (step : Rehash) (ratchet : Ratchet) :
    Asks (rehash provider step) ratchet 1 := by
  obtain ⟨source, target⟩ := step
  constructor
  · intro journal
    rw [rehash_apply]
    split <;> simp
  · intro journal _ _
    rw [rehash_apply]
    split <;> simp

private theorem asks_rehashAll (steps : List Rehash) (ratchet : Ratchet) :
    Asks (rehashAll provider steps) ratchet steps.length := by
  induction steps generalizing ratchet with
  | nil => exact .nothing fun _ ↦ rfl
  | cons step steps ih =>
    rw [List.length_cons, Nat.add_comm]
    exact (asks_rehash step ratchet).bind fun _ _ _ ↦ ih _

private theorem length_reseed (part : Fin 4) : (reseed part).length = 4 - part := by
  decide +revert

private theorem length_plan (part : Fin 4) {steps : Nat} (hsteps : steps ≠ 0) :
    (plan part steps).length = steps + (3 - part) := by
  rw [plan, List.length_append, List.length_replicate, length_reseed]
  omega

/-! ## Turns -/

/-- How many hashes the turn of a part takes on the way between two indices. -/
def hashesOfTurn (counter index : UInt32) (part : Fin 4) : Nat :=
  if stepsOnWay counter index part = 0 then 0 else stepsOnWay counter index part + (3 - part)

private theorem asks_advancePart {counter index : UInt32} (hle : counter ≤ index) (part : Fin 4)
    (hcounter : ratchet.counter = waypoint counter index part) :
    Asks (advancePart provider index part) ratchet (hashesOfTurn counter index part) := by
  have hsteps := toNat_stepsBetween_waypoint part hle
  rw [← hcounter] at hsteps
  by_cases hzero : stepsBetween part ratchet.counter index = 0
  · have hidle : stepsOnWay counter index part = 0 := by
      rw [← hsteps, hzero]
      rfl
    rw [hashesOfTurn, if_pos hidle]
    apply Asks.nothing
    intro journal
    rw [advancePart_apply, if_pos hzero]
  · have hne : stepsOnWay counter index part ≠ 0 := by
      rw [← hsteps]
      exact fun h ↦ hzero (UInt32.toNat_inj.mp h)
    rw [hashesOfTurn, if_neg hne, ← length_plan part hne, ← hsteps]
    have hturn : Asks (rehashAll provider
        (plan part (stepsBetween part ratchet.counter index).toNat) >>= fun _ ↦
          modify fun ratchet ↦ { ratchet with counter := clearBehind part index }) ratchet
        ((plan part (stepsBetween part ratchet.counter index).toNat).length + 0) :=
      (asks_rehashAll _ ratchet).bind fun _ _ _ ↦ .nothing fun _ ↦ rfl
    apply hturn.of_eq
    intro journal
    rw [advancePart_apply, if_neg hzero]

/-- How many hashes the jump between two indices takes. -/
def hashesOfJump (counter index : UInt32) : Nat :=
  ∑ part, hashesOfTurn counter index part

private theorem asks_advanceParts_take {index : UInt32} (hle : ratchet.counter ≤ index)
    {count : Nat} (hcount : count ≤ 4) :
    Asks (advanceParts provider index ((List.finRange 4).take count)) ratchet
      (((List.finRange 4).take count).map (hashesOfTurn ratchet.counter index)).sum := by
  induction count with
  | zero => exact .nothing fun _ ↦ rfl
  | succ count ih =>
    let part : Fin 4 := ⟨count, hcount⟩
    have hboth : Asks (advanceParts provider index ((List.finRange 4).take count) >>= fun _ ↦
        advancePart provider index part) ratchet
        ((((List.finRange 4).take count).map (hashesOfTurn ratchet.counter index)).sum +
          hashesOfTurn ratchet.counter index part) := by
      refine (ih (Nat.le_of_succ_le hcount)).bind fun journal _ hok ↦ ?_
      apply asks_advancePart hle part
      exact counter_advanceParts_take_of_ok (Nat.le_of_succ_le hcount) hle hok
    have htake : (List.finRange 4).take (count + 1) = (List.finRange 4).take count ++ [part] :=
      take_finRange_succ part
    rw [← advanceParts_take_succ index part] at hboth
    rw [htake, List.map_append, List.sum_append, List.map_singleton, List.sum_singleton, ← htake]
    exact hboth

theorem hashesOfJump_self (index : UInt32) : hashesOfJump index index = 0 := by
  refine Finset.sum_eq_zero fun part _ ↦ ?_
  have hsame : SameHigh part index index := rfl
  rw [hashesOfTurn, stepsOnWay, if_pos hsame, Nat.sub_self, if_pos rfl]

/-- What a jump takes is known from its two indices. -/
theorem asks_advanceTo {index : UInt32} (hle : ratchet.counter ≤ index) :
    Asks (advanceTo provider index) ratchet (hashesOfJump ratchet.counter index) := by
  by_cases hown : ratchet.counter = index
  · rw [← hown, hashesOfJump_self]
    apply Asks.nothing
    intro journal
    rw [advanceTo_self]
  · have hturns : Asks (advanceParts provider index (List.finRange 4)) ratchet
        (hashesOfJump ratchet.counter index) := by
      rw [hashesOfJump, Fin.sum_univ_def]
      exact asks_advanceParts_take hle (Nat.le_refl 4)
    have hjump : Asks (advanceParts provider index (List.finRange 4) >>= fun _ ↦
        log (.advanced ratchet.counter index)) ratchet
        (hashesOfJump ratchet.counter index + 0) :=
      hturns.bind fun _ _ _ ↦ .nothing fun _ ↦ rfl
    exact hjump.of_eq (advanceTo_of_lt (UInt32.lt_of_le_of_ne hle hown))

/-! ## The longest jump -/

private theorem hashesOfTurn_le (counter index : UInt32) (part : Fin 4) :
    hashesOfTurn counter index part ≤ stepsOnWay counter index part + (3 - part) := by
  rw [hashesOfTurn]
  split
  case isTrue => exact Nat.zero_le _
  case isFalse => exact Nat.le_refl _

/-- The steps of all parts. -/
def stepsOfJump (counter index : UInt32) : Nat :=
  ∑ part, stepsOnWay counter index part

/-- With the lower parts for every part there are 6 more. -/
private theorem sum_stepsOnWay_add (counter index : UInt32) :
    ∑ part, (stepsOnWay counter index part + (3 - part)) = stepsOfJump counter index + 6 :=
  Finset.sum_add_distrib

theorem hashesOfJump_le (counter index : UInt32) :
    hashesOfJump counter index ≤ stepsOfJump counter index + 6 :=
  calc
    hashesOfJump counter index
    _ ≤ ∑ part, (stepsOnWay counter index part + (3 - part)) :=
      Finset.sum_le_sum fun part _ ↦ hashesOfTurn_le counter index part
    _ = stepsOfJump counter index + 6 := sum_stepsOnWay_add counter index

private theorem stepsOnWay_le_255 (counter index : UInt32) (part : Fin 4) :
    stepsOnWay counter index part ≤ 255 :=
  Nat.le_trans (stepsOnWay_le counter index part)
    (Nat.le_of_lt_succ (counterByte_lt part index))

theorem stepsOfJump_le (counter index : UInt32) : stepsOfJump counter index ≤ 4 * 255 :=
  Finset.sum_le_card_nsmul _ _ 255 fun part _ ↦ stepsOnWay_le_255 counter index part

private theorem hashesOfJump_of_lt {counter index : UInt32}
    (hmany : 4 * 255 < stepsOfJump counter index + 6) :
    hashesOfJump counter index = stepsOfJump counter index + 6 := by
  have hsome (part : Fin 4) : stepsOnWay counter index part ≠ 0 := by
    intro hzero
    have hcard : (Finset.univ.erase part).card = 3 :=
      Finset.card_erase_of_mem (Finset.mem_univ part)
    have hothers : ∑ other ∈ Finset.univ.erase part, stepsOnWay counter index other ≤ 3 * 255 := by
      rw [← hcard]
      exact Finset.sum_le_card_nsmul _ _ _ fun other _ ↦ stepsOnWay_le_255 counter index other
    rw [stepsOfJump, ← Finset.add_sum_erase _ _ (Finset.mem_univ part), hzero] at hmany
    omega
  calc
    hashesOfJump counter index
    _ = ∑ part, (stepsOnWay counter index part + (3 - part)) :=
      Finset.sum_congr rfl fun part _ ↦ if_neg (hsome part)
    _ = stepsOfJump counter index + 6 := sum_stepsOnWay_add counter index

private theorem lt_hashesOfJump_iff (counter index : UInt32) :
    4 * 255 < hashesOfJump counter index ↔ 4 * 255 < stepsOfJump counter index + 6 := by
  constructor
  · intro hlong
    exact Nat.lt_of_lt_of_le hlong (hashesOfJump_le counter index)
  · intro hmany
    rwa [hashesOfJump_of_lt hmany]

/-- **A jump takes a known number of hashes, at most 4 * 255 + 6.** With any provider, a jump that
does not lead back makes no other requests than hashes, and if it succeeds, it makes as many as
follow from the two indices. If it fails, it has made no more than that. There are more than
4 * 255 if and only if the parts have more than 4 * 255 - 6 steps to take. -/
theorem advanceTo_cost (provider : Provider) (ratchet : Ratchet) (index : UInt32)
    (journal : Journal) (hle : ratchet.counter ≤ index) :
    let outcome := advanceTo provider index ratchet journal
    let hashes := hashesOfJump ratchet.counter index
    (∃ made : List Request, outcome.journal.requests = made ++ journal.requests ∧
      (∀ request ∈ made, request.primitive = .hmacSha256) ∧ made.length ≤ hashes ∧
      (outcome.result = .ok () → made.length = hashes)) ∧
    hashes ≤ 4 * 255 + 6 ∧
    (4 * 255 < hashes ↔ 4 * 255 < stepsOfJump ratchet.counter index + 6) := by
  intro outcome hashes
  have hasks : Asks (advanceTo provider index) ratchet hashes := asks_advanceTo hle
  have hmade : ∃ made : List Request, outcome.journal.requests = made ++ journal.requests ∧
      ∀ request ∈ made, request.primitive = .hmacSha256 := by
    cases hresult : outcome.result with
    | ok => exact (answeredAll_of_advanceTo_ok hresult).exists_append
    | error fault => exact (refusedLast_of_advanceTo_error hle hresult).exists_append
  obtain ⟨made, hrequests, hkinds⟩ := hmade
  have hlength : outcome.journal.requests.length = made.length + journal.requests.length := by
    rw [hrequests, List.length_append]
  refine ⟨⟨made, hrequests, hkinds, ?_, ?_⟩, ?_, lt_hashesOfJump_iff ratchet.counter index⟩
  · have hmost : outcome.journal.requests.length ≤ journal.requests.length + hashes :=
      hasks.at_most journal
    omega
  · intro hok
    have hexact : outcome.journal.requests.length = journal.requests.length + hashes :=
      hasks.of_ok journal () hok
    omega
  · exact Nat.le_trans (hashesOfJump_le ratchet.counter index)
      (Nat.add_le_add_right (stepsOfJump_le ratchet.counter index) 6)

/-- The jump over all indices makes all 4 * 255 + 6 hashes. -/
theorem advanceTo_cost_of_longest :
    let ratchet : Ratchet := ofBytes (FixedBytes.zero 128) 0
    (advanceTo .standard 0xffffffff ratchet {}).result = .ok () ∧
      (advanceTo .standard 0xffffffff ratchet {}).journal.requests.length = 4 * 255 + 6 := by
  intro ratchet
  have hle : ratchet.counter ≤ 0xffffffff := by decide
  have hresult : (advanceTo .standard 0xffffffff ratchet {}).result = .ok () :=
    result_advanceTo_of_reliable (Provider.reliable_standard (by decide) (by decide)) hle
  obtain ⟨made, hrequests, -, -, hexact⟩ := (advanceTo_cost .standard ratchet 0xffffffff {} hle).1
  have hcount : hashesOfJump ratchet.counter 0xffffffff = 4 * 255 + 6 := by decide
  refine ⟨hresult, ?_⟩
  rw [hrequests, List.length_append, hexact hresult, hcount]
  rfl

/-- So 4 * 255 hashes are not always enough. -/
theorem not_advanceTo_within_steps :
    ¬∀ (provider : Provider) (ratchet : Ratchet) (index : UInt32), ratchet.counter ≤ index →
      (advanceTo provider index ratchet {}).journal.requests.length ≤ 4 * 255 := by
  intro h
  let ratchet : Ratchet := ofBytes (FixedBytes.zero 128) 0
  have hle : ratchet.counter ≤ 0xffffffff := by decide
  have hresult : (advanceTo .standard 0xffffffff ratchet {}).result = .ok () :=
    result_advanceTo_of_reliable (Provider.reliable_standard (by decide) (by decide)) hle
  have hmade : (advanceTo .standard 0xffffffff ratchet {}).journal.requests.length =
      0 + hashesOfJump 0 0xffffffff := (asks_advanceTo hle).of_ok {} () hresult
  have hcount : hashesOfJump 0 0xffffffff = 4 * 255 + 6 := by decide
  have hbound := h .standard ratchet 0xffffffff hle
  omega

end Ratchet

end GroupSession
