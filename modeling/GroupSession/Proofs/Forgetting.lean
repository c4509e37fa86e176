import GroupSession.Proofs.Jump
import Mathlib.Logic.ExistsUnique

/-!
# Advancing forgets

Whoever gets hold of a ratchet should learn nothing about messages before its index. The keys of
those messages were derived from parts that are no longer there, and what can be said without going
into cryptography is that nothing has been kept of them: a jump overwrites these parts, and what it
writes does not come from them.

## Where a jump begins

A jump leaves alone the parts whose bytes are the same in both indices, and it begins with the part
of the first byte that differs. From that part on everything is derived anew, from the part as it
was. So two ratchets that agree on it come to agree on all lower parts, whatever those have been.

## Two ratchets side by side

Once two ratchets at one index agree from a part on, the turns of that part and of lower ones keep
them so, because the key of each hash is among the parts that are the same. The turn of the first
part is the one at which they start to agree.
-/

namespace GroupSession

open GroupSession.Action

namespace Ratchet

variable {provider : Provider}

/-! ## The first byte that differs -/

/-- The part is in charge of the first byte in which two counters differ. -/
structure FirstDifference (part : Fin 4) (counter index : UInt32) : Prop where
  higher : ∀ higher, higher < part → counterByte higher counter = counterByte higher index
  differ : counterByte part counter ≠ counterByte part index

theorem FirstDifference.sameHigh {part : Fin 4} {counter index : UInt32}
    (hfirst : FirstDifference part counter index) {count : Nat} (hcount : count ≤ part) :
    SameHigh count counter index := by
  rw [sameHigh_iff_counterByte (by omega)]
  intro higher hhigher
  exact hfirst.higher higher (Fin.lt_def.mpr (by omega))

theorem FirstDifference.unique {part other : Fin 4} {counter index : UInt32}
    (hfirst : FirstDifference part counter index) (hother : FirstDifference other counter index) :
    other = part := by
  by_cases hlt : other < part
  · exact absurd (hfirst.higher other hlt) hother.differ
  · by_cases hgt : part < other
    · exact absurd (hother.higher part hgt) hfirst.differ
    · omega

private theorem exists_firstDifference {count : Nat} (hcount : count ≤ 4) {counter index : UInt32}
    (hdiffer : ¬SameHigh count counter index) : ∃ part, FirstDifference part counter index := by
  induction count with
  | zero => exact absurd (sameHigh_zero counter index) hdiffer
  | succ count ih =>
    by_cases hsame : SameHigh count counter index
    · refine ⟨⟨count, hcount⟩, fun higher hhigher ↦ ?_, fun hbyte ↦ hdiffer ?_⟩
      · exact (sameHigh_iff_counterByte (by omega)).mp hsame higher hhigher
      · exact (@sameHigh_succ_iff_counterByte ⟨count, hcount⟩ counter index).mpr ⟨hsame, hbyte⟩
    · exact ih (by omega) hsame

/-! ## Agreeing from a part on -/

/-- Both ratchets stand at the same index and have the same parts from a given one on. -/
structure AgreeFrom (part : Fin 4) (ratchet other : Ratchet) : Prop where
  counter : other.counter = ratchet.counter
  parts : ∀ lower, part ≤ lower → other.parts[lower] = ratchet.parts[lower]

theorem AgreeFrom.eq {part : Fin 4} {ratchet other : Ratchet}
    (hagree : AgreeFrom part ratchet other)
    (hhigher : ∀ higher, higher < part → other.parts[higher] = ratchet.parts[higher]) :
    other = ratchet := by
  obtain ⟨parts, counter⟩ := ratchet
  obtain ⟨parts', counter'⟩ := other
  obtain rfl : counter' = counter := hagree.counter
  have hparts : parts' = parts := by
    refine Vector.ext fun i hi ↦ ?_
    by_cases hlt : (⟨i, hi⟩ : Fin 4) < part
    · exact hhigher ⟨i, hi⟩ hlt
    · exact hagree.parts ⟨i, hi⟩ (Fin.not_lt.mp hlt)
  rw [hparts]

/-! ## The turn of a part -/

section Steady

variable (h : provider.Steady .hmacSha256)

include h

/-- What the turn of a part makes of a ratchet, if the part has steps to take: the counter is set to
its byte, and everything from it on comes from one key. -/
private theorem chain_of_advancePart_yields {index : UInt32} {part : Fin 4}
    {ratchet after : Ratchet} (hne : stepsBetween part ratchet.counter index ≠ 0)
    (hyields : Yields (advancePart provider index part) ratchet () after) :
    after.counter = clearBehind part index ∧
      ∃ key, HashChain provider part ((stepsBetween part ratchet.counter index).toNat - 1)
          ratchet.parts[part] key ∧
        (∀ higher, higher < part → after.parts[higher] = ratchet.parts[higher]) ∧
        ∀ lower, part ≤ lower → provider.hashPart key lower = .ok after.parts[lower] := by
  obtain ⟨steps, hsteps⟩ := exists_toNat_stepsBetween hne
  have hturn : Yields (rehashAll provider (plan part (steps + 1)) >>= fun _ ↦
      modify fun ratchet ↦ { ratchet with counter := clearBehind part index })
        ratchet () after := by
    intro journal
    have hjournal := hyields journal
    rwa [advancePart_apply, if_neg hne, hsteps] at hjournal
  obtain ⟨_, middle, hplan, hset⟩ :=
    ((ignoresJournal_rehashAll h _).yields_bind_iff fun _ ↦ .modify _).mp hturn
  obtain rfl : { middle with counter := clearBehind part index } = after := (hset {}).2
  obtain ⟨key, hchain, -, hkept, hderived⟩ := exists_chain_of_plan_yields h hplan
  rw [hsteps, Nat.add_sub_cancel]
  exact ⟨rfl, key, hchain, hkept, hderived⟩

omit h in
private theorem advancePart_yields_self {index : UInt32} {part : Fin 4} {ratchet : Ratchet}
    (hzero : stepsBetween part ratchet.counter index = 0) :
    Yields (advancePart provider index part) ratchet () ratchet := by
  intro journal
  rw [advancePart_apply, if_pos hzero]
  exact ⟨rfl, rfl⟩

private theorem kept_of_advancePart_yields {index : UInt32} {part higher : Fin 4}
    {ratchet after : Ratchet} (hhigher : higher < part)
    (hyields : Yields (advancePart provider index part) ratchet () after) :
    after.parts[higher] = ratchet.parts[higher] := by
  by_cases hzero : stepsBetween part ratchet.counter index = 0
  · rw [(advancePart_yields_self hzero).unique hyields]
  · obtain ⟨-, _, -, hkept, -⟩ := chain_of_advancePart_yields h hzero hyields
    exact hkept higher hhigher

/-! ## Two ratchets side by side -/

/-- Ratchets that agree on a part come to agree on all lower ones with its turn. -/
private theorem AgreeFrom.of_turn {index : UInt32} {part : Fin 4}
    {ratchet other after after' : Ratchet}
    (hcounter : other.counter = ratchet.counter) (hpart : other.parts[part] = ratchet.parts[part])
    (hsteps : stepsBetween part ratchet.counter index ≠ 0)
    (hyields : Yields (advancePart provider index part) ratchet () after)
    (hyields' : Yields (advancePart provider index part) other () after') :
    AgreeFrom part after after' := by
  obtain ⟨hafter, key, hchain, -, hderived⟩ := chain_of_advancePart_yields h hsteps hyields
  rw [← hcounter] at hsteps
  obtain ⟨hafter', key', hchain', -, hderived'⟩ := chain_of_advancePart_yields h hsteps hyields'
  rw [hcounter, hpart] at hchain'
  -- Both chains start with the same part and are equally long, so they end with the same key.
  obtain rfl : key' = key := hchain'.unique hchain
  refine ⟨hafter'.trans hafter.symm, fun lower hlower ↦ ?_⟩
  exact Except.ok.inj ((hderived' lower hlower).symm.trans (hderived lower hlower))

private theorem AgreeFrom.turn {index : UInt32} {first part : Fin 4}
    {ratchet other after after' : Ratchet}
    (hagree : AgreeFrom first ratchet other) (hle : first ≤ part)
    (hyields : Yields (advancePart provider index part) ratchet () after)
    (hyields' : Yields (advancePart provider index part) other () after') :
    AgreeFrom first after after' := by
  by_cases hzero : stepsBetween part ratchet.counter index = 0
  · have hzero' : stepsBetween part other.counter index = 0 := by
      rw [hagree.counter]
      exact hzero
    obtain rfl := (advancePart_yields_self hzero).unique hyields
    obtain rfl := (advancePart_yields_self hzero').unique hyields'
    exact hagree
  · have hnew := AgreeFrom.of_turn h hagree.counter (hagree.parts part hle) hzero hyields hyields'
    refine ⟨hnew.counter, fun lower hlower ↦ ?_⟩
    -- Parts between the first one and the one whose turn it is are kept on both sides.
    by_cases hbelow : part ≤ lower
    · exact hnew.parts lower hbelow
    · have hlt : lower < part := Fin.not_le.mp hbelow
      rw [kept_of_advancePart_yields h hlt hyields', kept_of_advancePart_yields h hlt hyields]
      exact hagree.parts lower hlower

omit h in
theorem advanceParts_append (index : UInt32) (parts rest : List (Fin 4)) :
    advanceParts provider index (parts ++ rest) =
      advanceParts provider index parts >>= fun _ ↦ advanceParts provider index rest := by
  induction parts with
  | nil => rw [List.nil_append, advanceParts, pure_bind]
  | cons part parts ih => rw [List.cons_append, advanceParts, ih, advanceParts, bind_assoc]

private theorem advanceParts_cons_yields_iff {index : UInt32} {part : Fin 4} {parts : List (Fin 4)}
    {ratchet after : Ratchet} :
    Yields (advanceParts provider index (part :: parts)) ratchet () after ↔
      ∃ middle, Yields (advancePart provider index part) ratchet () middle ∧
        Yields (advanceParts provider index parts) middle () after := by
  rw [advanceParts, (ignoresJournal_advancePart h index part).yields_bind_iff
    fun _ ↦ ignoresJournal_advanceParts h index parts]
  exact ⟨fun ⟨_, middle, hs⟩ ↦ ⟨middle, hs⟩, fun ⟨middle, hs⟩ ↦ ⟨(), middle, hs⟩⟩

private theorem kept_of_advanceParts_yields {index : UInt32} {higher : Fin 4} {parts : List (Fin 4)}
    {ratchet after : Ratchet} (hparts : ∀ part ∈ parts, higher < part)
    (hyields : Yields (advanceParts provider index parts) ratchet () after) :
    after.parts[higher] = ratchet.parts[higher] := by
  induction parts generalizing ratchet with
  | nil =>
    obtain rfl : ratchet = after := (hyields {}).2
    rfl
  | cons part parts ih =>
    obtain ⟨middle, hfirst, hrest⟩ := (advanceParts_cons_yields_iff h).mp hyields
    rw [ih (fun other hother ↦ hparts other (List.mem_cons_of_mem _ hother)) hrest]
    exact kept_of_advancePart_yields h (hparts part List.mem_cons_self) hfirst

private theorem AgreeFrom.turns {index : UInt32} {first : Fin 4} {parts : List (Fin 4)}
    {ratchet other after after' : Ratchet} (hagree : AgreeFrom first ratchet other)
    (hparts : ∀ part ∈ parts, first ≤ part)
    (hyields : Yields (advanceParts provider index parts) ratchet () after)
    (hyields' : Yields (advanceParts provider index parts) other () after') :
    AgreeFrom first after after' := by
  induction parts generalizing ratchet other with
  | nil =>
    obtain rfl : ratchet = after := (hyields {}).2
    obtain rfl : other = after' := (hyields' {}).2
    exact hagree
  | cons part parts ih =>
    obtain ⟨middle, hfirst, hrest⟩ := (advanceParts_cons_yields_iff h).mp hyields
    obtain ⟨middle', hfirst', hrest'⟩ := (advanceParts_cons_yields_iff h).mp hyields'
    have hmiddle := hagree.turn h (hparts part List.mem_cons_self) hfirst hfirst'
    exact ih hmiddle (fun other hother ↦ hparts other (List.mem_cons_of_mem _ hother)) hrest hrest'

/-! ## The whole jump -/

omit h in
private theorem advanceParts_yields_self {index : UInt32} {parts : List (Fin 4)} {ratchet : Ratchet}
    (hzero : ∀ part ∈ parts, stepsBetween part ratchet.counter index = 0) :
    Yields (advanceParts provider index parts) ratchet () ratchet := by
  induction parts with
  | nil => exact yields_pure () ratchet
  | cons part parts ih =>
    have hfirst : Yields (advancePart provider index part) ratchet () ratchet :=
      advancePart_yields_self (hzero part List.mem_cons_self)
    exact hfirst.bind (ih fun other hother ↦ hzero other (List.mem_cons_of_mem _ hother))

omit h in
private theorem finRange_eq (part : Fin 4) :
    List.finRange 4 =
      (List.finRange 4).filter (· < part) ++ part :: (List.finRange 4).filter (part < ·) := by
  decide +revert

/-- A jump begins with the part of the first byte that differs, and goes on with lower parts. -/
private theorem turns_of_advanceTo_yields {index : UInt32} {part : Fin 4} {ratchet after : Ratchet}
    (hlt : ratchet.counter < index) (hfirst : FirstDifference part ratchet.counter index)
    (hyields : Yields (advanceTo provider index) ratchet () after) :
    stepsBetween part ratchet.counter index ≠ 0 ∧
      Yields (advanceParts provider index (part :: (List.finRange 4).filter (part < ·))) ratchet ()
        after := by
  have hle : ratchet.counter ≤ index := UInt32.le_of_lt hlt
  constructor
  · rw [ne_eq, stepsBetween_eq_zero_iff hle (hfirst.sameHigh (Nat.le_refl _)),
      sameHigh_succ_iff_counterByte]
    exact fun hsame ↦ hfirst.differ hsame.2
  · have hidle : Yields (advanceParts provider index ((List.finRange 4).filter (· < part))) ratchet
        () ratchet := by
      refine advanceParts_yields_self fun higher hmem ↦ ?_
      have hhigher : higher < part := by simpa using hmem
      rw [stepsBetween_eq_zero_iff hle (hfirst.sameHigh (Nat.le_of_lt hhigher))]
      exact hfirst.sameHigh hhigher
    have hall : Yields (advanceParts provider index (List.finRange 4) >>=
        fun _ ↦ Action.log (.advanced ratchet.counter index)) ratchet () after := by
      intro journal
      have hjournal := hyields journal
      rwa [advanceTo_of_lt hlt] at hjournal
    obtain ⟨_, middle, hparts, hlog⟩ :=
      ((ignoresJournal_advanceParts h index _).yields_bind_iff fun _ ↦ .log _).mp hall
    obtain rfl : middle = after := (hlog {}).2
    rw [finRange_eq part, advanceParts_append] at hparts
    obtain ⟨_, first, hskip, hrest⟩ := ((ignoresJournal_advanceParts h index _).yields_bind_iff
      fun _ ↦ ignoresJournal_advanceParts h index _).mp hparts
    obtain rfl := hidle.unique hskip
    exact hrest

theorem kept_of_advanceTo_yields {index : UInt32} {part higher : Fin 4} {ratchet after : Ratchet}
    (hlt : ratchet.counter < index) (hfirst : FirstDifference part ratchet.counter index)
    (hyields : Yields (advanceTo provider index) ratchet () after) (hhigher : higher < part) :
    after.parts[higher] = ratchet.parts[higher] := by
  refine kept_of_advanceParts_yields h (fun other hother ↦ ?_)
    (turns_of_advanceTo_yields h hlt hfirst hyields).2
  rcases List.mem_cons.mp hother with rfl | hother
  · exact hhigher
  · have hbelow : part < other := by simpa using hother
    exact Fin.lt_trans hhigher hbelow

/-- A jump takes ratchets that agree on the part of that byte to ratchets that agree from it on. -/
theorem agreeFrom_of_advanceTo_yields {index : UInt32} {part : Fin 4}
    {ratchet other after after' : Ratchet} (hlt : ratchet.counter < index)
    (hfirst : FirstDifference part ratchet.counter index)
    (hcounter : other.counter = ratchet.counter) (hpart : other.parts[part] = ratchet.parts[part])
    (hyields : Yields (advanceTo provider index) ratchet () after)
    (hyields' : Yields (advanceTo provider index) other () after') :
    AgreeFrom part after after' := by
  obtain ⟨hsteps, hturns⟩ := turns_of_advanceTo_yields h hlt hfirst hyields
  rw [← hcounter] at hlt hfirst
  obtain ⟨-, hturns'⟩ := turns_of_advanceTo_yields h hlt hfirst hyields'
  obtain ⟨middle, hturn, hrest⟩ := (advanceParts_cons_yields_iff h).mp hturns
  obtain ⟨middle', hturn', hrest'⟩ := (advanceParts_cons_yields_iff h).mp hturns'
  have hagree : AgreeFrom part middle middle' := .of_turn h hcounter hpart hsteps hturn hturn'
  refine hagree.turns h (fun lower hlower ↦ ?_) hrest hrest'
  have hbelow : part < lower := by simpa using hlower
  exact Fin.le_of_lt hbelow

end Steady

/-- **Advancing forgets.** With a keyed hash that is a function of key and data and never fails, a
ratchet jumps to any later index. There is exactly one part in charge of the first byte in which the
two indices differ. The jump leaves the parts above it as they are, and what it makes of this part
and all below depends on nothing but the part itself and the two indices: any other ratchet at the
same index that has this part in common comes out with the same parts from there on. If it has the
higher parts in common as well, the same ratchet comes out: nothing is left of the lower parts. -/
theorem advanceTo_forgets (provider : Provider) (hsteady : provider.Steady .hmacSha256)
    (hreliable : provider.Reliable .hmacSha256) (ratchet : Ratchet) (index : UInt32)
    (hlt : ratchet.counter < index) :
    (∃! part, FirstDifference part ratchet.counter index) ∧
    ∀ part, FirstDifference part ratchet.counter index → ∀ journal,
      (advanceTo provider index ratchet journal).result = .ok () ∧
      (∀ higher, higher < part →
        (advanceTo provider index ratchet journal).state.parts[higher] = ratchet.parts[higher]) ∧
      ∀ other : Ratchet, other.counter = ratchet.counter →
        other.parts[part] = ratchet.parts[part] → ∀ journal',
          (∀ lower, part ≤ lower →
            (advanceTo provider index other journal').state.parts[lower] =
              (advanceTo provider index ratchet journal).state.parts[lower]) ∧
          ((∀ higher, higher < part → other.parts[higher] = ratchet.parts[higher]) →
            (advanceTo provider index other journal').state =
              (advanceTo provider index ratchet journal).state) := by
  obtain ⟨first, hexists⟩ := exists_firstDifference (Nat.le_refl 4)
    fun hsame ↦ UInt32.ne_of_lt hlt (sameHigh_four_iff.mp hsame)
  refine ⟨⟨first, hexists, fun part ↦ hexists.unique⟩, fun part hfirst journal ↦ ?_⟩
  have hyields := advanceTo_yields hsteady hreliable (UInt32.le_of_lt hlt)
  refine ⟨(hyields journal).1, fun higher hhigher ↦ ?_, fun other hcounter hpart journal' ↦ ?_⟩
  · rw [(hyields journal).2]
    exact kept_of_advanceTo_yields hsteady hlt hfirst hyields hhigher
  · have hyields' := advanceTo_yields hsteady hreliable (hcounter ▸ UInt32.le_of_lt hlt)
    have hagree :=
      agreeFrom_of_advanceTo_yields hsteady hlt hfirst hcounter hpart hyields hyields'
    rw [(hyields journal).2, (hyields' journal').2]
    refine ⟨hagree.parts, fun hhigher ↦ hagree.eq fun higher hlt' ↦ ?_⟩
    rw [kept_of_advanceTo_yields hsteady (hcounter ▸ hlt) (hcounter ▸ hfirst) hyields' hlt',
      kept_of_advanceTo_yields hsteady hlt hfirst hyields hlt']
    exact hhigher higher hlt'

/-- A jump over the ends of three bytes, from two ratchets that differ in their lowest parts. -/
theorem advanceTo_forgets_lowest_parts :
    let ratchet : Ratchet := ofBytes (FixedBytes.zero 128) 0x0001ff10
    let secret : FixedBytes 32 := ⟨List.replicate 32 7, List.length_replicate⟩
    let other : Ratchet :=
      { ratchet with parts := (ratchet.parts.set (2 : Fin 4) secret).set (3 : Fin 4) secret }
    ratchet ≠ other ∧ FirstDifference 1 ratchet.counter 0x00030005 ∧
      (advanceTo .standard 0x00030005 ratchet {}).result = .ok () ∧
      (advanceTo .standard 0x00030005 ratchet {}).state.parts[(0 : Fin 4)] =
        ratchet.parts[(0 : Fin 4)] ∧
      (advanceTo .standard 0x00030005 other {}).state =
        (advanceTo .standard 0x00030005 ratchet {}).state := by
  intro ratchet secret other
  have hfirst : FirstDifference 1 ratchet.counter 0x00030005 := ⟨by decide, by decide⟩
  have hhigher : ∀ higher : Fin 4, higher < 1 → other.parts[higher] = ratchet.parts[higher] := by
    decide
  have hforgets := advanceTo_forgets .standard (Provider.deterministic_standard _)
    (Provider.reliable_standard (by decide) (by decide)) ratchet 0x00030005 (by decide)
  obtain ⟨hresult, hkept, hsame⟩ := hforgets.2 1 hfirst {}
  refine ⟨by decide, hfirst, hresult, hkept 0 (by decide), ?_⟩
  exact (hsame other rfl rfl {}).2 hhigher

end Ratchet

end GroupSession
