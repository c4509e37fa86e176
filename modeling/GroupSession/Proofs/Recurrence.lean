import GroupSession.Proofs.CounterBytes
import GroupSession.Proofs.Effects

/-!
# What steps and jumps do to the parts

Everything that happens to the parts of a ratchet is a list of rehashes. Two kinds of lists occur:
`reseed` replaces a part and all lower ones by hashes of the part as it was, and `plan` does so
after hashing the part alone some times over. For a provider whose keyed hash does not look back,
this file says when such a list succeeds and which parts it leaves.

## In-place replacement

The list of `reseed` overwrites parts one after the other, and each hash reads its key from the
ratchet as it is at that moment. What makes the result simple is the order: the part that is the key
comes last, so that all hashes see its old value.
-/

namespace GroupSession

open GroupSession.Action

/-- A part by its place in a ratchet, the highest first. -/
abbrev Ratchet.Part := Fin 4

/-- The keyed hash that replaces a part, asked for before anything else. -/
def Provider.hashPart (provider : Provider) (key : FixedBytes 32) (part : Ratchet.Part) :
    Except Failure (FixedBytes 32) :=
  provider.answer [] (.hmacSha256 key.toList [UInt8.ofNat part])

/-- The request that a rehash makes. -/
def Rehash.request : Rehash → Ratchet → Request
  | ⟨source, target⟩, ratchet => .hmacSha256 (ratchet.parts.get source).toList [UInt8.ofNat target]

namespace Ratchet

variable {provider : Provider}

/-! ## What jumps inherit from hashes -/

/-- A property that holds of every action on a ratchet which only makes keyed hashes: it holds of a
hash and of what makes no request, and it passes through `>>=`. -/
structure Inherited (provider : Provider)
    (property : (α : Type) → Action Ratchet RatchetError α → Prop) : Prop where
  pure : ∀ {α : Type} (a : α), property α (pure a)
  get : property Ratchet get
  modify : ∀ change, property PUnit (modify change)
  hash : ∀ key data, property (FixedBytes 32)
    (mapError RatchetError.crypto (Action.request provider (.hmacSha256 key data)))
  bind : ∀ {α β : Type} {action : Action Ratchet RatchetError α}
    {next : α → Action Ratchet RatchetError β}, property α action → (∀ a, property β (next a)) →
      property β (action >>= next)

namespace Inherited

variable {property : (α : Type) → Action Ratchet RatchetError α → Prop}
  (h : Inherited provider property)

include h

theorem rehash (step : Rehash) : property Unit (Ratchet.rehash provider step) :=
  h.bind h.get fun _ ↦ h.bind (h.hash _ _) fun _ ↦ h.modify _

theorem rehashAll (steps : List Rehash) : property Unit (Ratchet.rehashAll provider steps) := by
  induction steps with
  | nil => exact h.pure ()
  | cons step steps ih => exact h.bind (h.rehash step) fun _ ↦ ih

theorem advance : property Unit (Ratchet.advance provider) :=
  h.bind (h.modify _) fun _ ↦ h.bind h.get fun _ ↦ h.rehashAll _

theorem advanceTimes (times : Nat) : property Unit (Ratchet.advanceTimes provider times) := by
  induction times with
  | zero => exact h.pure ()
  | succ times ih => exact h.bind h.advance fun _ ↦ ih

theorem advancePart (index : UInt32) (part : Part) :
    property Unit (Ratchet.advancePart provider index part) := by
  refine h.bind h.get fun ratchet ↦ ?_
  dsimp only
  split
  case isTrue => exact h.pure ()
  case isFalse => exact h.bind (h.rehashAll _) fun _ ↦ h.modify _

theorem advanceParts (index : UInt32) (parts : List Part) :
    property Unit (Ratchet.advanceParts provider index parts) := by
  induction parts with
  | nil => exact h.pure ()
  | cons part parts ih => exact h.bind (h.advancePart index part) fun _ ↦ ih

end Inherited

/-! ## Independence of the journal -/

section IgnoresJournal

variable (h : provider.Steady .hmacSha256)

include h

private theorem inherited_ignoresJournal : Inherited provider fun _ ↦ IgnoresJournal where
  pure := .pure
  get := .get
  modify := .modify
  hash _ _ := .mapError (.request h) _
  bind := .bind

private theorem ignoresJournal_rehash (step : Rehash) : IgnoresJournal (rehash provider step) :=
  (inherited_ignoresJournal h).rehash step

theorem ignoresJournal_rehashAll (steps : List Rehash) :
    IgnoresJournal (rehashAll provider steps) := (inherited_ignoresJournal h).rehashAll steps

theorem ignoresJournal_advanceTimes (times : Nat) :
    IgnoresJournal (advanceTimes provider times) := (inherited_ignoresJournal h).advanceTimes times

theorem ignoresJournal_advancePart (index : UInt32) (part : Part) :
    IgnoresJournal (advancePart provider index part) :=
  (inherited_ignoresJournal h).advancePart index part

theorem ignoresJournal_advanceParts (index : UInt32) (parts : List Part) :
    IgnoresJournal (advanceParts provider index parts) :=
  (inherited_ignoresJournal h).advanceParts index parts

theorem ignoresJournal_advanceTo (index : UInt32) :
    IgnoresJournal (advanceTo provider index) := by
  refine .bind .get fun ratchet ↦ ?_
  dsimp only
  split
  · exact .throw _
  split
  · exact .pure ()
  · exact .bind (ignoresJournal_advanceParts h index _) fun _ ↦ .log _

end IgnoresJournal

/-! ## Replacing parts -/

theorem rehash_apply (source target : Part) (ratchet : Ratchet) (journal : Journal) :
    rehash provider ⟨source, target⟩ ratchet journal =
      match provider.answer journal.requests (Rehash.request ⟨source, target⟩ ratchet) with
      | .ok part =>
        ⟨.ok (), { ratchet with parts := ratchet.parts.set target part },
          { journal with
            requests := Rehash.request ⟨source, target⟩ ratchet :: journal.requests }⟩
      | .error failure =>
        ⟨.error (.crypto failure), ratchet,
          { journal with
            requests := Rehash.request ⟨source, target⟩ ratchet :: journal.requests }⟩ := by
  change (mapError RatchetError.crypto
      (Action.request provider (Rehash.request ⟨source, target⟩ ratchet)) >>=
    fun part ↦ modify fun ratchet ↦ { ratchet with parts := ratchet.parts.set target part })
      ratchet journal = _
  rw [bind_apply, mapError, request_apply]
  cases provider.answer journal.requests (Rehash.request ⟨source, target⟩ ratchet) <;> rfl

theorem getElem_set_part (parts : Vector (FixedBytes 32) 4) (target part : Part)
    (value : FixedBytes 32) :
    (parts.set target value)[part] = if target = part then value else parts[part] := by
  simp only [Fin.getElem_fin, Vector.getElem_set, Fin.ext_iff]

/-- The parts below a given one, the lowest first. -/
def lowerParts (part : Part) : List Part := ((List.finRange 4).filter (part < ·)).reverse

private theorem mem_lowerParts {part lower : Part} : lower ∈ lowerParts part ↔ part < lower := by
  simp [lowerParts]

private theorem reseed_eq (part : Part) :
    reseed part = (lowerParts part).map (⟨part, ·⟩) ++ [⟨part, part⟩] := by
  decide +revert

theorem rehashAll_append (provider : Provider) (steps rest : List Rehash) :
    rehashAll provider (steps ++ rest) =
      rehashAll provider steps >>= fun _ ↦ rehashAll provider rest := by
  induction steps with
  | nil => rw [List.nil_append, rehashAll, pure_bind]
  | cons step steps ih => rw [List.cons_append, rehashAll, ih, rehashAll, bind_assoc]

theorem rehashAll_singleton (step : Rehash) : rehashAll provider [step] = rehash provider step :=
  bind_pure_unit

section Rehash

variable (h : provider.Steady .hmacSha256)

include h

theorem rehash_yields_iff {source target : Part} {ratchet after : Ratchet} :
    Yields (rehash provider ⟨source, target⟩) ratchet () after ↔
      ∃ part, provider.hashPart ratchet.parts[source] target = .ok part ∧
        after = { ratchet with parts := ratchet.parts.set target part } := by
  have hanswer (journal : Journal) :
      provider.answer journal.requests (Rehash.request ⟨source, target⟩ ratchet) =
        provider.hashPart ratchet.parts[source] target := h _ rfl _
  constructor
  · intro hyields
    obtain ⟨hresult, hstate⟩ := hyields {}
    rw [rehash_apply, hanswer] at hresult hstate
    cases hpart : provider.hashPart ratchet.parts[source] target with
    | ok part =>
      rw [hpart] at hstate
      exact ⟨part, rfl, hstate.symm⟩
    | error failure =>
      rw [hpart] at hresult
      cases hresult
  · rintro ⟨part, hpart, rfl⟩ journal
    rw [rehash_apply, hanswer, hpart]
    exact ⟨rfl, rfl⟩

theorem rehashAll_cons_yields_iff {step : Rehash} {steps : List Rehash}
    {ratchet after : Ratchet} :
    Yields (rehashAll provider (step :: steps)) ratchet () after ↔
      ∃ middle, Yields (rehash provider step) ratchet () middle ∧
        Yields (rehashAll provider steps) middle () after := by
  rw [rehashAll, (ignoresJournal_rehash h step).yields_bind_iff
    fun _ ↦ ignoresJournal_rehashAll h steps]
  exact ⟨fun ⟨_, middle, hs⟩ ↦ ⟨middle, hs⟩, fun ⟨middle, hs⟩ ↦ ⟨(), middle, hs⟩⟩

private theorem rehashAll_append_yields_iff {steps rest : List Rehash} {ratchet after : Ratchet} :
    Yields (rehashAll provider (steps ++ rest)) ratchet () after ↔
      ∃ middle, Yields (rehashAll provider steps) ratchet () middle ∧
        Yields (rehashAll provider rest) middle () after := by
  rw [rehashAll_append, (ignoresJournal_rehashAll h steps).yields_bind_iff
    fun _ ↦ ignoresJournal_rehashAll h rest]
  exact ⟨fun ⟨_, middle, hs⟩ ↦ ⟨middle, hs⟩, fun ⟨middle, hs⟩ ↦ ⟨(), middle, hs⟩⟩

/-- Replacing parts by hashes of another part, which is not replaced itself: each of them becomes
the hash of the same key. -/
private theorem rehashAll_map_yields_iff {source : Part} {targets : List Part}
    (hsource : source ∉ targets) {ratchet after : Ratchet} :
    Yields (rehashAll provider (targets.map (⟨source, ·⟩))) ratchet () after ↔
      after.counter = ratchet.counter ∧
        (∀ part, part ∉ targets → after.parts[part] = ratchet.parts[part]) ∧
        ∀ part ∈ targets,
          provider.hashPart ratchet.parts[source] part = .ok after.parts[part] := by
  induction targets generalizing ratchet with
  | nil =>
    constructor
    · intro hyields
      obtain rfl : ratchet = after := (hyields {}).2
      exact ⟨rfl, fun _ _ ↦ rfl, nofun⟩
    · rintro ⟨hcounter, hkept, -⟩ journal
      refine ⟨rfl, ?_⟩
      obtain ⟨parts, counter⟩ := ratchet
      obtain ⟨parts', counter'⟩ := after
      obtain rfl : counter' = counter := hcounter
      obtain rfl : parts' = parts := Vector.ext fun i hi ↦ hkept ⟨i, hi⟩ List.not_mem_nil
      rfl
  | cons target targets ih =>
    rw [List.mem_cons, not_or] at hsource
    obtain ⟨hne, hsource⟩ := hsource
    -- The first rehash leaves the key alone, so the rest sees the same key.
    have hkey (value : FixedBytes 32) :
        (ratchet.parts.set target value)[source] = ratchet.parts[source] := by
      rw [getElem_set_part, if_neg (Ne.symm hne)]
    rw [List.map_cons, rehashAll_cons_yields_iff h]
    constructor
    · rintro ⟨middle, hmiddle, hrest⟩
      obtain ⟨value, hvalue, rfl⟩ := (rehash_yields_iff h).mp hmiddle
      obtain ⟨hcounter, hkept, hderived⟩ := (ih hsource).mp hrest
      refine ⟨hcounter, fun part hpart ↦ ?_, fun part hpart ↦ ?_⟩
      · rw [List.mem_cons, not_or] at hpart
        rw [hkept part hpart.2, getElem_set_part, if_neg (Ne.symm hpart.1)]
      · -- A target may be named again later, and then the later hash stays.
        by_cases hmem : part ∈ targets
        · have hpart := hderived part hmem
          rwa [hkey] at hpart
        · obtain rfl : part = target := (List.mem_cons.mp hpart).resolve_right hmem
          rw [hkept part hmem, getElem_set_part, if_pos rfl]
          exact hvalue
    · rintro ⟨hcounter, hkept, hderived⟩
      refine ⟨_, (rehash_yields_iff h).mpr ⟨_, hderived target List.mem_cons_self, rfl⟩,
        (ih hsource).mpr ⟨hcounter, fun part hpart ↦ ?_, fun part hpart ↦ ?_⟩⟩
      · rw [getElem_set_part]
        split
        case isTrue heq =>
          obtain rfl : target = part := heq
          rfl
        case isFalse hneq =>
          exact hkept part fun hmem ↦ (List.mem_cons.mp hmem).elim (hneq ·.symm) hpart
      · rw [hkey]
        exact hderived part (List.mem_cons_of_mem _ hpart)

/-- The parts of a ratchet from a given one on come from a key, all others are as they were. -/
structure DerivedFrom (provider : Provider) (part : Part) (key : FixedBytes 32)
    (ratchet after : Ratchet) : Prop where
  counter : after.counter = ratchet.counter
  kept : ∀ higher, higher < part → after.parts[higher] = ratchet.parts[higher]
  derived : ∀ lower, part ≤ lower → provider.hashPart key lower = .ok after.parts[lower]

/-- Reseeding from a part hashes the value that the part had before. -/
theorem reseed_yields_iff {part : Part} {ratchet after : Ratchet} :
    Yields (rehashAll provider (reseed part)) ratchet () after ↔
      DerivedFrom provider part ratchet.parts[part] ratchet after := by
  have hself : part ∉ lowerParts part := fun hmem ↦ Fin.lt_irrefl part (mem_lowerParts.mp hmem)
  rw [reseed_eq, rehashAll_append_yields_iff h]
  constructor
  · rintro ⟨middle, hmiddle, hlast⟩
    obtain ⟨hcounter, hkept, hderived⟩ := (rehashAll_map_yields_iff h hself).mp hmiddle
    rw [rehashAll_singleton, rehash_yields_iff h] at hlast
    obtain ⟨value, hvalue, rfl⟩ := hlast
    refine ⟨hcounter, fun higher hhigher ↦ ?_, fun lower hlower ↦ ?_⟩
    · rw [getElem_set_part, if_neg (Fin.ne_of_gt hhigher)]
      exact hkept higher fun hmem ↦ Fin.lt_asymm hhigher (mem_lowerParts.mp hmem)
    · rw [getElem_set_part]
      split
      case isTrue heq =>
        obtain rfl : part = lower := heq
        rw [← hkept part hself]
        exact hvalue
      case isFalse hne =>
        exact hderived lower (mem_lowerParts.mpr (Nat.lt_of_le_of_ne hlower (Fin.val_ne_of_ne hne)))
  · rintro ⟨hcounter, hkept, hderived⟩
    -- Just before the end, all lower parts are new, and the part itself is still the old key.
    refine ⟨{ ratchet with parts := after.parts.set part ratchet.parts[part] },
      (rehashAll_map_yields_iff h hself).mpr ⟨rfl, fun other hother ↦ ?_, fun lower hlower ↦ ?_⟩,
      ?_⟩
    · rw [getElem_set_part]
      split
      case isTrue heq =>
        obtain rfl : part = other := heq
        rfl
      case isFalse hne =>
        have hle : ¬part < other := fun hlt ↦ hother (mem_lowerParts.mpr hlt)
        have hne : other ≠ part := Ne.symm hne
        exact hkept other (Nat.lt_of_le_of_ne (Fin.not_lt.mp hle) (Fin.val_ne_of_ne hne))
    · have hlt : part < lower := mem_lowerParts.mp hlower
      rw [getElem_set_part, if_neg (Fin.ne_of_lt hlt)]
      exact hderived lower (Fin.le_of_lt hlt)
    · rw [rehashAll_singleton, rehash_yields_iff h]
      refine ⟨after.parts[part], ?_, ?_⟩
      · rw [getElem_set_part, if_pos rfl]
        exact hderived part (Fin.le_refl part)
      · obtain ⟨parts, counter⟩ := after
        obtain rfl : counter = ratchet.counter := hcounter
        simp

/-- Hashing a part over and over: a key, and what it becomes after so many hashes. -/
inductive HashChain (provider : Provider) (part : Part) :
    Nat → FixedBytes 32 → FixedBytes 32 → Prop
  | refl (key : FixedBytes 32) : HashChain provider part 0 key key
  | step {steps : Nat} {key last next : FixedBytes 32}
    (chain : HashChain provider part steps key last)
    (hash : provider.hashPart last part = .ok next) : HashChain provider part (steps + 1) key next

private theorem rehashAll_replicate_yields {part : Part} {steps : Nat} {ratchet : Ratchet}
    {key : FixedBytes 32} (hchain : HashChain provider part steps ratchet.parts[part] key) :
    Yields (rehashAll provider (List.replicate steps ⟨part, part⟩)) ratchet ()
      { ratchet with parts := ratchet.parts.set part key } := by
  generalize hfirst : ratchet.parts[part] = first at hchain
  induction hchain with
  | refl key =>
    subst hfirst
    intro journal
    refine ⟨rfl, ?_⟩
    simp [rehashAll]
  | @step steps key last next chain hash ih =>
    -- The chain grows at its end, so the last rehash is split off.
    rw [List.replicate_succ', rehashAll_append_yields_iff h]
    refine ⟨_, ih hfirst, ?_⟩
    rw [rehashAll_singleton, rehash_yields_iff h]
    exact ⟨next, by rw [getElem_set_part, if_pos rfl]; exact hash, by simp⟩

/-- All steps of a part in a jump: the part is hashed alone for all steps but the last one. -/
theorem plan_yields {part : Part} {steps : Nat} {ratchet after : Ratchet} {key : FixedBytes 32}
    (hchain : HashChain provider part steps ratchet.parts[part] key)
    (hderived : DerivedFrom provider part key ratchet after) :
    Yields (rehashAll provider (plan part (steps + 1))) ratchet () after := by
  rw [plan, Nat.add_sub_cancel, rehashAll_append_yields_iff h]
  refine ⟨_, rehashAll_replicate_yields h hchain, (reseed_yields_iff h).mpr ?_⟩
  refine ⟨hderived.counter, fun higher hhigher ↦ ?_, fun lower hlower ↦ ?_⟩
  · rw [getElem_set_part, if_neg (Fin.ne_of_gt hhigher)]
    exact hderived.kept higher hhigher
  · rw [getElem_set_part, if_pos rfl]
    exact hderived.derived lower hlower

private theorem exists_chain_of_replicate_yields {part : Part} {steps : Nat}
    {ratchet after : Ratchet}
    (hyields : Yields (rehashAll provider (List.replicate steps ⟨part, part⟩)) ratchet () after) :
    ∃ key, HashChain provider part steps ratchet.parts[part] key ∧
      after = { ratchet with parts := ratchet.parts.set part key } := by
  induction steps generalizing after with
  | zero =>
    obtain rfl : ratchet = after := (hyields {}).2
    exact ⟨_, .refl _, by simp⟩
  | succ steps ih =>
    rw [List.replicate_succ', rehashAll_append_yields_iff h] at hyields
    obtain ⟨middle, hmiddle, hlast⟩ := hyields
    obtain ⟨last, hchain, rfl⟩ := ih hmiddle
    rw [rehashAll_singleton, rehash_yields_iff h, getElem_set_part, if_pos rfl] at hlast
    obtain ⟨next, hnext, rfl⟩ := hlast
    exact ⟨next, .step hchain hnext, by simp⟩

/-- The other way round, a part that has taken its steps has grown a chain, and what is at its end
is what the part and all lower ones come from. -/
theorem exists_chain_of_plan_yields {part : Part} {steps : Nat} {ratchet after : Ratchet}
    (hyields : Yields (rehashAll provider (plan part (steps + 1))) ratchet () after) :
    ∃ key, HashChain provider part steps ratchet.parts[part] key ∧
      DerivedFrom provider part key ratchet after := by
  rw [plan, Nat.add_sub_cancel, rehashAll_append_yields_iff h] at hyields
  obtain ⟨middle, hmiddle, hlast⟩ := hyields
  obtain ⟨key, hchain, rfl⟩ := exists_chain_of_replicate_yields h hmiddle
  obtain ⟨hcounter, hkept, hderived⟩ := (reseed_yields_iff h).mp hlast
  refine ⟨key, hchain, hcounter, fun higher hhigher ↦ ?_, fun lower hlower ↦ ?_⟩
  · rw [hkept higher hhigher, getElem_set_part, if_neg (Fin.ne_of_gt hhigher)]
  · have hpart := hderived lower hlower
    rwa [getElem_set_part, if_pos rfl] at hpart

end Rehash

theorem HashChain.unique {part : Part} {steps : Nat} {key last last' : FixedBytes 32}
    (hchain : HashChain provider part steps key last)
    (hchain' : HashChain provider part steps key last') : last = last' := by
  induction hchain generalizing last' with
  | refl =>
    cases hchain'
    rfl
  | step chain hash ih =>
    cases hchain' with
    | step chain' hash' =>
      obtain rfl := ih chain'
      exact Except.ok.inj (hash.symm.trans hash')

end Ratchet

end GroupSession
