import GroupSession.Proofs.Authenticity
import GroupSession.Proofs.Forgetting

/-!
# One step of a ratchet

A step counts on by one, finds the first byte of the counter that this has changed, and derives anew
the part in charge of it and all parts below: each becomes the hash of that part, as it was before.
Everything that is said about ratchets comes from this rule, and jumps are measured by it. This file
says that a step keeps to the rule at every counter, the last one included, behind which counting
begins anew, and with any provider whose hashes do not fail.

## Which part

The search sees the new counter only. It shrinks a mask until no bit is left under it, and so finds
the first part whose span divides the counter. Those are the bytes that counting on has changed.

## In place

The parts are replaced from the lowest up, and each hash takes its key from the ratchet as it is by
then. The key is the highest of these parts. So at any time all parts down to some place are new and
all above it are as they were, the key among them. This is the invariant `Rederived`, which one more
hash carries on to the next part above, and the last of these is the key itself.

An answer may depend on what was asked for before. What a part becomes is therefore said together
with the hashes that come before its own: they are those of the parts below it.
-/

namespace GroupSession

open GroupSession.Action

namespace Ratchet

variable {provider : Provider} {ratchet : Ratchet} {journal : Journal}

/-! ## The byte that changes -/

/-- The part that is found is in charge of the first byte that counting on has changed. -/
theorem firstDifference_firstChanged (counter : UInt32) :
    FirstDifference (firstChanged (counter + 1)) counter (counter + 1) := by
  by_cases hlast : counter.toNat + 1 < 2 ^ 32
  · have hsucc : (counter + 1).toNat = counter.toNat + 1 := toNat_add_one hlast
    constructor
    · intro higher hhigher
      have hpassed : ¬span higher ∣ counter.toNat + 1 := by
        rw [← hsucc, ← firstChanged_le_iff]
        exact Fin.not_le.mpr hhigher
      rw [counterByte, counterByte, hsucc, Nat.succ_div_of_not_dvd hpassed]
    · have hfound : span (firstChanged (counter + 1)) ∣ counter.toNat + 1 :=
        hsucc ▸ span_firstChanged_dvd (counter + 1)
      rw [counterByte, counterByte, hsucc, Nat.succ_div_of_dvd hfound]
      omega
  · -- Behind the last counter all bytes change, and all of the new ones are zero.
    have hlt : counter.toNat < 2 ^ 32 := counter.toNat_lt
    have hvalue : counter.toNat = (0xffffffff : UInt32).toNat := by
      change counter.toNat = 2 ^ 32 - 1
      omega
    obtain rfl : counter = 0xffffffff := UInt32.toNat_inj.mp hvalue
    exact ⟨by decide, by decide⟩

theorem firstDifference_succ_iff {counter : UInt32} {part : Part} :
    FirstDifference part counter (counter + 1) ↔ firstChanged (counter + 1) = part := by
  constructor
  · intro hpart
    exact hpart.unique (firstDifference_firstChanged counter)
  · rintro rfl
    exact firstDifference_firstChanged counter

/-- Behind the last index counting begins anew, and so do all parts. -/
example : firstChanged (0xffffffff + 1) = 0 ∧ firstChanged (0x0001ffff + 1) = 1 := by decide

/-! ## The parts that are replaced -/

/-- What is asked for to replace a part by a hash of a key. -/
def hashRequest (key : FixedBytes 32) (part : Part) : Request :=
  .hmacSha256 key.toList [UInt8.ofNat part]

/-- The requests for all parts from a given place on. They are made from the lowest part up, so the
latest comes first. -/
def hashRequestsFrom (key : FixedBytes 32) (count : Nat) : List Request :=
  ((List.finRange 4).drop count).map (hashRequest key)

private theorem hashRequestsFrom_part (key : FixedBytes 32) (part : Part) :
    hashRequestsFrom key part = hashRequest key part :: hashRequestsFrom key (part + 1) := by
  rw [hashRequestsFrom, drop_finRange part.isLt, List.map_cons, hashRequestsFrom]

/-- The parts from a given place on are hashes of a key, each as it is answered behind those of the
parts below. The parts above are as they were. -/
structure Rederived (provider : Provider) (key : FixedBytes 32) (history : List Request)
    (count : Nat) (ratchet after : Ratchet) : Prop where
  counter : after.counter = ratchet.counter
  kept : ∀ higher : Part, higher < count → after.parts.get higher = ratchet.parts.get higher
  derived : ∀ part : Part, count ≤ part →
    provider.answer (hashRequestsFrom key (part + 1) ++ history) (hashRequest key part) =
      .ok (after.parts.get part)

private theorem rehash_of_ok {source target : Part}
    (hok : (rehash provider ⟨source, target⟩ ratchet journal).result = .ok ()) :
    let outcome := rehash provider ⟨source, target⟩ ratchet journal
    let request := hashRequest (ratchet.parts.get source) target
    provider.answer journal.requests request = .ok (outcome.state.parts.get target) ∧
      outcome.journal.requests = request :: journal.requests ∧
      outcome.state.counter = ratchet.counter ∧
      ∀ other : Part, other ≠ target →
        outcome.state.parts.get other = ratchet.parts.get other := by
  intro outcome request
  have houtcome : outcome = _ := rehash_apply source target ratchet journal
  rw [rehash_apply] at hok
  cases hanswer : provider.answer journal.requests (Rehash.request ⟨source, target⟩ ratchet) with
  | error failure =>
    rw [hanswer] at hok
    cases hok
  | ok value =>
    rw [hanswer] at houtcome
    have hparts (part : Part) := getElem_set_part ratchet.parts target part value
    rw [houtcome]
    refine ⟨?_, rfl, rfl, fun other hother ↦ ?_⟩
    · exact hanswer.trans (congrArg Except.ok ((hparts target).trans (if_pos rfl)).symm)
    · exact (hparts other).trans (if_neg hother.symm)

private theorem Rederived.rehash {source part : Part} {history : List Request} {middle : Ratchet}
    (h : Rederived provider (ratchet.parts.get source) history (part + 1) ratchet middle)
    (hsource : source ≤ part)
    (hjournal : journal.requests =
      hashRequestsFrom (ratchet.parts.get source) (part + 1) ++ history)
    (hok : (rehash provider ⟨source, part⟩ middle journal).result = .ok ()) :
    (Ratchet.rehash provider ⟨source, part⟩ middle journal).journal.requests =
        hashRequestsFrom (ratchet.parts.get source) part ++ history ∧
      Rederived provider (ratchet.parts.get source) history part ratchet
        (Ratchet.rehash provider ⟨source, part⟩ middle journal).state := by
  -- The key is not below the part, so it has not been replaced.
  have hkey : middle.parts.get source = ratchet.parts.get source :=
    h.kept source (Nat.lt_succ_of_le hsource)
  obtain ⟨hanswer, hrequests, hcounter, hothers⟩ := rehash_of_ok hok
  rw [hkey, hjournal] at hanswer hrequests
  refine ⟨?_, hcounter.trans h.counter, ?_, ?_⟩
  · rw [hrequests, hashRequestsFrom_part, List.cons_append]
  · intro higher hhigher
    rw [hothers higher (Fin.ne_of_lt hhigher)]
    exact h.kept higher (Nat.lt_succ_of_lt hhigher)
  · intro other hother
    by_cases heq : other = part
    · rw [heq]
      exact hanswer
    · have hval : other.val ≠ part.val := Fin.val_ne_of_ne heq
      rw [hothers other heq]
      exact h.derived other (by omega)

/-- All parts from a given place on are replaced, none of which lies above the key. -/
private theorem rederived_of_rehashAll {source : Part} {count : Nat} (hsource : source ≤ count)
    (hcount : count ≤ 4)
    (hok : (rehashAll provider (((List.finRange 4).drop count).reverse.map (⟨source, ·⟩)) ratchet
      journal).result = .ok ()) :
    let outcome := rehashAll provider (((List.finRange 4).drop count).reverse.map (⟨source, ·⟩))
      ratchet journal
    outcome.journal.requests =
        hashRequestsFrom (ratchet.parts.get source) count ++ journal.requests ∧
      Rederived provider (ratchet.parts.get source) journal.requests count ratchet
        outcome.state := by
  -- The induction is on the number of parts to replace.
  induction hrest : 4 - count generalizing count with
  | zero =>
    obtain rfl : count = 4 := by omega
    exact ⟨rfl, rfl, fun _ _ ↦ rfl, fun part hpart ↦ absurd part.isLt (Nat.not_lt.mpr hpart)⟩
  | succ rest ih =>
    have hlt : count < 4 := by omega
    let part : Part := ⟨count, hlt⟩
    have hsplit : ((List.finRange 4).drop count).reverse.map (⟨source, ·⟩ : Part → Rehash) =
        ((List.finRange 4).drop (count + 1)).reverse.map (⟨source, ·⟩) ++ [⟨source, part⟩] := by
      rw [drop_finRange hlt, List.reverse_cons, List.map_append, List.map_singleton]
    rw [hsplit, rehashAll_append, rehashAll_singleton] at hok ⊢
    obtain ⟨_, hbelow, hlast⟩ := result_bind_eq_ok_iff.mp hok
    obtain ⟨hjournal, hmiddle⟩ := ih (Nat.le_succ_of_le hsource) hlt hbelow (by omega)
    have hmiddle : Rederived provider (ratchet.parts.get source) journal.requests (part + 1)
        ratchet _ := hmiddle
    rw [bind_apply_ok hbelow]
    exact hmiddle.rehash hsource hjournal hlast

/-! ## The whole step -/

private theorem reseed_eq_drop (part : Part) :
    reseed part = ((List.finRange 4).drop part).reverse.map (⟨part, ·⟩) := by
  decide +revert

theorem rederived_of_advance (hok : (advance provider ratchet journal).result = .ok ()) :
    let first := firstChanged (ratchet.counter + 1)
    let outcome := advance provider ratchet journal
    outcome.journal.requests =
        hashRequestsFrom (ratchet.parts.get first) first ++ journal.requests ∧
      Rederived provider (ratchet.parts.get first) journal.requests first
        { ratchet with counter := ratchet.counter + 1 } outcome.state := by
  intro first outcome
  have hadvance : advance provider ratchet journal =
      rehashAll provider (((List.finRange 4).drop first).reverse.map (⟨first, ·⟩))
        { ratchet with counter := ratchet.counter + 1 } journal := by
    rw [← reseed_eq_drop]
    rfl
  rw [hadvance] at hok
  have hderived := rederived_of_rehashAll (Nat.le_refl _) (Nat.le_of_lt first.isLt) hok
  rwa [← hadvance] at hderived

/-- **A step follows the recurrence.** With any provider whose hashes do not fail, a step succeeds
at every counter and counts on by one, from the last index to 0. There is exactly one part in charge
of the first byte that this changes, and the search through the four parts ends with it. The step
leaves the parts above as they are. The part itself and all below become hashes of the value that it
had before, each with its own number as the data. Nothing else is asked for, and the lowest part
comes first. -/
theorem advance_follows_recurrence (provider : Provider)
    (hreliable : provider.Reliable .hmacSha256) (ratchet : Ratchet) (journal : Journal) :
    let next := ratchet.counter + 1
    let outcome := advance provider ratchet journal
    next.toNat = (ratchet.counter.toNat + 1) % 2 ^ 32 ∧
    (∃! first, FirstDifference first ratchet.counter next) ∧
    ∀ first : Part, FirstDifference first ratchet.counter next →
      seekChanged next 0x00ffffff (List.finRange 4) = some first ∧
      outcome.result = .ok () ∧ outcome.state.counter = next ∧
      outcome.journal.requests =
        hashRequestsFrom (ratchet.parts.get first) first ++ journal.requests ∧
      (∀ higher : Part, higher < first →
        outcome.state.parts.get higher = ratchet.parts.get higher) ∧
      ∀ part : Part, first ≤ part →
        provider.answer (hashRequestsFrom (ratchet.parts.get first) (part + 1) ++ journal.requests)
            (.hmacSha256 (ratchet.parts.get first).toList [UInt8.ofNat part]) =
          .ok (outcome.state.parts.get part) := by
  intro next outcome
  refine ⟨UInt32.toNat_add _ _, ⟨firstChanged next, firstDifference_firstChanged _,
    fun other hother ↦ (firstDifference_succ_iff.mp hother).symm⟩, fun first hfirst ↦ ?_⟩
  obtain rfl : firstChanged next = first := firstDifference_succ_iff.mp hfirst
  obtain ⟨_, hok⟩ :=
    inherited_stopsAtRefusal.advance.exists_result_of_reliable hreliable ratchet journal
  obtain ⟨hrequests, hcounter, hkept, hderived⟩ := rederived_of_advance hok
  exact ⟨seekChanged_finRange next, hok, hcounter, hrequests, hkept, hderived⟩

/-- A step over the end of two bytes. -/
theorem advance_over_two_bytes :
    let ratchet : Ratchet := ofBytes (FixedBytes.zero 128) 0x0001ffff
    let outcome := advance .standard ratchet {}
    FirstDifference 1 ratchet.counter 0x00020000 ∧ outcome.result = .ok () ∧
      outcome.state.counter = 0x00020000 ∧
      outcome.state.parts.get 0 = ratchet.parts.get 0 ∧
      ∀ part : Part, 1 ≤ part → outcome.state.parts.get part =
        hmacSha256 (ratchet.parts.get 1).toList [UInt8.ofNat part] := by
  intro ratchet outcome
  have hreliable : Provider.standard.Reliable .hmacSha256 :=
    Provider.reliable_standard (by decide) (by decide)
  have hfirst : FirstDifference 1 ratchet.counter 0x00020000 := ⟨by decide, by decide⟩
  obtain ⟨-, -, hstep⟩ := advance_follows_recurrence .standard hreliable ratchet {}
  obtain ⟨-, hok, hcounter, -, hkept, hderived⟩ := hstep 1 hfirst
  refine ⟨hfirst, hok, hcounter, hkept 0 (by decide), fun part hpart ↦ ?_⟩
  exact (Except.ok.inj (hderived part hpart)).symm

end Ratchet

end GroupSession
