import GroupSession.Proofs.Authenticity
import GroupSession.Proofs.Logging
import GroupSession.Proofs.Waypoints

/-!
# Where an interrupted jump leaves the ratchet

A hash can fail at any point of a jump, and the ratchet then stays as far as it came. This file says
how far that is. The counter moves once in the turn of each part, at its end, while the parts change
with every hash, and so the two need not fit together: what is known for certain is the part whose
turn was interrupted, and everything that belongs to higher parts.

## The interrupted turn

All turns before the interrupted one have succeeded, and so the counter stands at the waypoint that
they have reached. The interrupted turn has not moved it, and it hashes no part above its own.

## The same jump without a failure

To say that the higher parts are those of the jump as it should have been, it is compared with the
jump for another provider, which answers every request as before that was answered. The turns before
the interrupted one are then the same, and the ones from there on leave the higher parts alone.
-/

namespace GroupSession

/-! ## Failures and answers -/

namespace Provider

/-- Between one history and a later one, a request was made at some point, and it was refused. -/
structure RefusedBetween (provider : Provider) (before after history : List Request)
    (request : Request) (failure : Failure) : Prop where
  since : before <:+ history
  made : request :: history <:+ after
  refused : provider.answer history request = .error failure

namespace RefusedBetween

variable {provider : Provider} {kinds : Primitive → Prop} {before after history : List Request}
  {request : Request} {failure : Failure}

private theorem not_answeredAll (h : provider.RefusedBetween before after history request failure) :
    ¬provider.AnsweredAll kinds before after := by
  intro hanswered
  obtain ⟨answer, hanswer⟩ := hanswered.exists_answer h.since h.made
  cases h.refused.symm.trans hanswer

private theorem eq_cons (h : provider.RefusedBetween before after history request failure)
    (hlast : provider.RefusedLast kinds before after) : after = request :: history := by
  obtain ⟨hanswered, -, -⟩ := hlast
  rcases List.suffix_cons_iff.mp h.made with heq | hearlier
  · exact heq.symm
  · exact absurd hanswered (not_answeredAll ⟨h.since, hearlier, h.refused⟩)

end RefusedBetween

/-- Whatever was answered between one history and a later one, another provider answers the same. -/
def RepeatsBetween (provider other : Provider) (before after : List Request) : Prop :=
  ∀ history request answer, before <:+ history → request :: history <:+ after →
    provider.answer history request = .ok answer → other.answer history request = .ok answer

theorem RepeatsBetween.mono {provider other : Provider}
    {before before' after after' : List Request}
    (h : provider.RepeatsBetween other before after) (hbefore : before <:+ before')
    (hafter : after' <:+ after) : provider.RepeatsBetween other before' after' :=
  fun history request answer hsince hmade ↦
    h history request answer (hbefore.trans hsince) (hmade.trans hafter)

end Provider

namespace Action

variable {σ ε ε' α β : Type} {provider other : Provider}

/-- An action that fails has failed at its latest request, for the reason given there. -/
def FailsAsRefused (provider : Provider) (action : Action σ RatchetError α) : Prop :=
  ∀ state journal fault, (action state journal).result = .error fault →
    ∃ request history failure, (action state journal).journal.requests = request :: history ∧
      provider.answer history request = .error failure ∧ fault = .crypto failure

namespace FailsAsRefused

theorem of_succeeds {action : Action σ RatchetError α} (h : FailsOnly action fun _ ↦ False) :
    FailsAsRefused provider action :=
  fun state journal fault hfault ↦ (h state journal fault hfault).elim

theorem request (r : Request) :
    FailsAsRefused provider
      (mapError RatchetError.crypto (request provider r) : Action σ RatchetError r.Answer) := by
  intro state journal fault hfault
  obtain ⟨failure, hrefused, rfl⟩ := result_mapError_eq_error_iff.mp hfault
  exact ⟨r, journal.requests, failure, rfl, hrefused, rfl⟩

theorem bind {action : Action σ RatchetError α} {next : α → Action σ RatchetError β}
    (h : FailsAsRefused provider action) (hnext : ∀ a, FailsAsRefused provider (next a)) :
    FailsAsRefused provider (action >>= next) := by
  intro state journal fault hfault
  rcases result_bind_eq_error_iff.mp hfault with hfirst | ⟨a, hfirst, hsecond⟩
  · rw [bind_apply_error hfirst]
    exact h state journal fault hfirst
  · rw [bind_apply_ok hfirst]
    exact hnext a _ _ fault hsecond

end FailsAsRefused

/-- As far as an action succeeds with one provider, it does the same with another one that repeats
the answers. -/
def Repeats (provider other : Provider) (action action' : Action σ ε α) : Prop :=
  ∀ state journal a, (action state journal).result = .ok a →
    journal.requests <:+ (action state journal).journal.requests ∧
      (provider.RepeatsBetween other journal.requests (action state journal).journal.requests →
        action' state journal = action state journal)

namespace Repeats

theorem pure (a : α) : Repeats provider other (pure a : Action σ ε α) (pure a) :=
  fun _ _ _ _ ↦ ⟨List.suffix_refl _, fun _ ↦ rfl⟩

theorem get : Repeats provider other (get : Action σ ε σ) get :=
  fun _ _ _ _ ↦ ⟨List.suffix_refl _, fun _ ↦ rfl⟩

theorem modify (change : σ → σ) :
    Repeats provider other (modify change : Action σ ε PUnit) (modify change) :=
  fun _ _ _ _ ↦ ⟨List.suffix_refl _, fun _ ↦ rfl⟩

theorem request (r : Request) (rename : Failure → ε) :
    Repeats provider other (mapError rename (request provider r) : Action σ ε r.Answer)
      (mapError rename (request other r)) := by
  intro state journal answer hok
  have hanswer : provider.answer journal.requests r = .ok answer :=
    result_mapError_eq_ok_iff.mp hok
  refine ⟨List.suffix_cons r journal.requests, fun hrepeats ↦ ?_⟩
  have hagain : other.answer journal.requests r = .ok answer :=
    hrepeats _ _ _ (List.suffix_refl _) (List.suffix_refl _) hanswer
  rw [mapError, mapError, request_apply, request_apply, hanswer, hagain]

theorem bind {action action' : Action σ ε α} {next next' : α → Action σ ε β}
    (h : Repeats provider other action action')
    (hnext : ∀ a, Repeats provider other (next a) (next' a)) :
    Repeats provider other (action >>= next) (action' >>= next') := by
  intro state journal b hok
  obtain ⟨a, hfirst, hsecond⟩ := result_bind_eq_ok_iff.mp hok
  obtain ⟨hgrows, hsame⟩ := h state journal a hfirst
  obtain ⟨hgrows', hsame'⟩ := hnext a _ _ b hsecond
  rw [bind_apply_ok hfirst]
  refine ⟨hgrows.trans hgrows', fun hrepeats ↦ ?_⟩
  have haction : action' state journal = action state journal :=
    hsame (hrepeats.mono (List.suffix_refl _) hgrows')
  rw [bind_apply, haction, hfirst]
  exact hsame' (hrepeats.mono hgrows (List.suffix_refl _))

end Repeats

end Action

open GroupSession.Action

namespace Ratchet

variable {provider other : Provider} {index : UInt32} {ratchet : Ratchet} {journal : Journal}

private theorem inherited_failsAsRefused : Inherited provider fun _ ↦ FailsAsRefused provider where
  pure _ := .of_succeeds (.pure _)
  get := .of_succeeds .get
  modify _ := .of_succeeds (.modify _)
  hash _ _ := .request _
  bind := .bind

/-- A jump ahead that fails, fails for the reason of its latest hash. -/
private theorem failsAsRefused_advanceTo (hlt : ratchet.counter < index) {fault : RatchetError}
    (herror : (advanceTo provider index ratchet journal).result = .error fault) :
    ∃ request history failure,
      (advanceTo provider index ratchet journal).journal.requests = request :: history ∧
      provider.answer history request = .error failure ∧ fault = .crypto failure := by
  rw [advanceTo_of_lt hlt] at herror ⊢
  have hjump : FailsAsRefused provider (advanceParts provider index (List.finRange 4) >>= fun _ ↦
      log (.advanced ratchet.counter index)) :=
    (inherited_failsAsRefused.advanceParts index _).bind fun _ ↦ .of_succeeds (.log _)
  exact hjump ratchet journal fault herror

private theorem advanceTo_of_refused (hlt : ratchet.counter < index) {request : Request}
    {history : List Request} {failure : Failure}
    (hrefused : provider.RefusedBetween journal.requests
      (advanceTo provider index ratchet journal).journal.requests history request failure) :
    (advanceTo provider index ratchet journal).result = .error (.crypto failure) ∧
      (advanceTo provider index ratchet journal).journal.requests = request :: history := by
  cases hresult : (advanceTo provider index ratchet journal).result with
  | ok => exact absurd (answeredAll_of_advanceTo_ok hresult) hrefused.not_answeredAll
  | error fault =>
    have hlast :=
      hrefused.eq_cons (refusedLast_of_advanceTo_error (UInt32.le_of_lt hlt) hresult)
    obtain ⟨request', history', failure', hlast', hrefused', rfl⟩ :=
      failsAsRefused_advanceTo hlt hresult
    obtain ⟨rfl, rfl⟩ := List.cons.inj (hlast.symm.trans hlast')
    obtain rfl := Except.error.inj (hrefused.refused.symm.trans hrefused')
    exact ⟨rfl, hlast⟩

/-! ## What a turn leaves alone -/

private theorem keeps_rehash_part {source target part : Fin 4} (hne : part ≠ target) :
    Keeps (·.parts.get part) (rehash provider ⟨source, target⟩) := by
  refine .bind .get fun _ ↦ .bind (.mapError (.request provider _) _) fun value ↦ .modify ?_
  intro ratchet
  exact (getElem_set_part _ _ _ _).trans (if_neg (Ne.symm hne))

private theorem keeps_rehash_counter (step : Rehash) : Keeps counter (rehash provider step) :=
  .bind .get fun _ ↦ .bind (.mapError (.request provider _) _) fun _ ↦ .modify fun _ ↦ rfl

private theorem keeps_rehashAll {τ : Type} {view : Ratchet → τ} {steps : List Rehash}
    (h : ∀ step ∈ steps, Keeps view (rehash provider step)) :
    Keeps view (rehashAll provider steps) := by
  induction steps with
  | nil => exact .pure ()
  | cons step steps ih =>
    obtain ⟨hstep, hsteps⟩ := List.forall_mem_cons.mp h
    exact .bind hstep fun _ ↦ ih hsteps

private theorem le_target_of_mem_plan {part : Fin 4} {steps : Nat} {step : Rehash}
    (hmem : step ∈ plan part steps) : part ≤ step.target := by
  rcases List.mem_append.mp hmem with halone | hreseed
  · obtain rfl := List.eq_of_mem_replicate halone
    exact Fin.le_refl part
  · obtain ⟨target, htarget, rfl⟩ := List.mem_map.mp hreseed
    simpa using htarget

private theorem keeps_advancePart_part {part higher : Fin 4} (hhigher : higher < part) :
    Keeps (·.parts.get higher) (advancePart provider index part) := by
  refine .bind .get fun ratchet ↦ ?_
  dsimp only
  split
  case isTrue => exact .pure ()
  case isFalse =>
    refine .bind (keeps_rehashAll fun step hstep ↦ ?_) fun _ ↦ .modify fun _ ↦ rfl
    have hle : part ≤ step.target := le_target_of_mem_plan hstep
    exact keeps_rehash_part (Fin.ne_of_lt (Fin.lt_of_lt_of_le hhigher hle))

private theorem keeps_advanceParts_part {parts : List (Fin 4)} {higher : Fin 4}
    (hhigher : ∀ part ∈ parts, higher < part) :
    Keeps (·.parts.get higher) (advanceParts provider index parts) := by
  induction parts with
  | nil => exact .pure ()
  | cons part parts ih =>
    obtain ⟨hpart, hparts⟩ := List.forall_mem_cons.mp hhigher
    exact .bind (keeps_advancePart_part hpart) fun _ ↦ ih hparts

/-- A turn that fails has steps to take, and does not move the counter. -/
private theorem counter_advancePart_of_error {part : Fin 4} {fault : RatchetError}
    (herror : (advancePart provider index part ratchet journal).result = .error fault) :
    stepsBetween part ratchet.counter index ≠ 0 ∧
      (advancePart provider index part ratchet journal).state.counter = ratchet.counter := by
  rw [advancePart_apply] at herror ⊢
  by_cases hzero : stepsBetween part ratchet.counter index = 0
  · rw [if_pos hzero] at herror
    cases herror
  · rw [if_neg hzero] at herror ⊢
    refine ⟨hzero, ?_⟩
    rcases result_bind_eq_error_iff.mp herror with hsteps | ⟨_, _, hcounter⟩
    · rw [bind_apply_error hsteps]
      exact keeps_rehashAll (fun step _ ↦ keeps_rehash_counter step) ratchet journal
    · cases hcounter

/-! ## The interrupted turn -/

/-- How many steps a part has to take, as it is found at its turn. -/
def stepsAtTurn (provider : Provider) (index : UInt32) (ratchet : Ratchet) (journal : Journal)
    (part : Fin 4) : UInt32 :=
  stepsBetween part
    (advanceParts provider index ((List.finRange 4).take part) ratchet journal).state.counter index

/-- The turns of all higher parts succeed, and that of the part itself does not. -/
structure StoppedIn (provider : Provider) (index : UInt32) (ratchet : Ratchet) (journal : Journal)
    (part : Fin 4) : Prop where
  before : (advanceParts provider index ((List.finRange 4).take part) ratchet journal).result =
    .ok ()
  turn : ∃ fault, (advanceParts provider index ((List.finRange 4).take (part + 1)) ratchet
    journal).result = .error fault

private theorem advanceParts_finRange (index : UInt32) (count : Nat) :
    advanceParts provider index (List.finRange 4) =
      advanceParts provider index ((List.finRange 4).take count) >>= fun _ ↦
        advanceParts provider index ((List.finRange 4).drop count) := by
  rw [← advanceParts_append, List.take_append_drop]

private theorem result_advanceParts_take_of_ok {count more : Nat} (hle : count ≤ more)
    (hok : (advanceParts provider index ((List.finRange 4).take more) ratchet journal).result =
      .ok ()) :
    (advanceParts provider index ((List.finRange 4).take count) ratchet journal).result =
      .ok () := by
  have hsplit : (List.finRange 4).take count ++ ((List.finRange 4).take more).drop count =
      (List.finRange 4).take more := by
    rw [← Nat.min_eq_left hle, ← List.take_take, Nat.min_eq_left hle, List.take_append_drop]
  rw [← hsplit, advanceParts_append] at hok
  obtain ⟨_, hfirst, -⟩ := result_bind_eq_ok_iff.mp hok
  exact hfirst

theorem exists_stoppedIn {count : Nat} (hcount : count ≤ 4) {fault : RatchetError}
    (herror : (advanceParts provider index ((List.finRange 4).take count) ratchet journal).result =
      .error fault) :
    ∃ part : Fin 4, StoppedIn provider index ratchet journal part := by
  induction count generalizing fault with
  | zero => cases herror
  | succ count ih =>
    cases hbefore : (advanceParts provider index ((List.finRange 4).take count) ratchet
        journal).result with
    | ok => exact ⟨⟨count, hcount⟩, hbefore, fault, herror⟩
    | error earlier => exact ih (Nat.le_of_succ_le hcount) hbefore

namespace StoppedIn

variable {part later : Fin 4}

private theorem not_lt (h : StoppedIn provider index ratchet journal part)
    (hlater : StoppedIn provider index ratchet journal later) : ¬part < later := by
  intro hlt
  obtain ⟨fault, herror⟩ := h.turn
  cases herror.symm.trans (result_advanceParts_take_of_ok hlt hlater.before)

theorem unique (h : StoppedIn provider index ratchet journal part)
    (hlater : StoppedIn provider index ratchet journal later) : later = part :=
  Fin.le_antisymm (Fin.not_lt.mp (h.not_lt hlater)) (Fin.not_lt.mp (hlater.not_lt h))

private theorem advanceTo_eq (h : StoppedIn provider index ratchet journal part)
    (hlt : ratchet.counter < index) :
    let before := advanceParts provider index ((List.finRange 4).take part) ratchet journal
    advanceTo provider index ratchet journal =
        advancePart provider index part before.state before.journal ∧
      ∃ fault, (advancePart provider index part before.state before.journal).result =
        .error fault := by
  intro before
  obtain ⟨fault, herror⟩ := h.turn
  have hturn : advanceParts provider index ((List.finRange 4).take (part + 1)) ratchet journal =
      advancePart provider index part before.state before.journal := by
    rw [advanceParts_take_succ, bind_apply_ok h.before]
  have hparts : advanceParts provider index (List.finRange 4) ratchet journal =
      advanceParts provider index ((List.finRange 4).take (part + 1)) ratchet journal := by
    rw [advanceParts_finRange index (part + 1), bind_apply_error herror, ← herror]
  rw [← hturn]
  refine ⟨?_, fault, herror⟩
  rw [advanceTo_of_lt hlt, bind_apply_error (hparts ▸ herror), hparts, ← herror]

private theorem stepsAtTurn_eq (h : StoppedIn provider index ratchet journal part)
    (hle : ratchet.counter ≤ index) {higher : Fin 4} (hhigher : higher ≤ part) :
    stepsAtTurn provider index ratchet journal higher =
      stepsBetween higher (waypoint ratchet.counter index higher) index := by
  have hok := result_advanceParts_take_of_ok hhigher h.before
  rw [stepsAtTurn, counter_advanceParts_take_of_ok (Nat.le_of_lt higher.isLt) hle hok]

/-- The counter has stayed at the waypoint that the turns before have reached. -/
theorem counter_advanceTo (h : StoppedIn provider index ratchet journal part)
    (hlt : ratchet.counter < index) :
    (advanceTo provider index ratchet journal).state.counter =
        waypoint ratchet.counter index part ∧
      stepsBetween part (waypoint ratchet.counter index part) index ≠ 0 := by
  obtain ⟨hjump, fault, herror⟩ := h.advanceTo_eq hlt
  obtain ⟨hsteps, hcounter⟩ := counter_advancePart_of_error herror
  have hwaypoint := counter_advanceParts_take_of_ok (Nat.le_of_lt part.isLt)
    (UInt32.le_of_lt hlt) h.before
  rw [hwaypoint] at hsteps hcounter
  rw [hjump]
  exact ⟨hcounter, hsteps⟩

/-- What the turns before have made of the higher parts has stayed as well. -/
theorem parts_advanceTo (h : StoppedIn provider index ratchet journal part)
    (hlt : ratchet.counter < index) {higher : Fin 4} (hhigher : higher < part) :
    (advanceTo provider index ratchet journal).state.parts.get higher =
      (advanceParts provider index ((List.finRange 4).take part) ratchet
        journal).state.parts.get higher := by
  rw [(h.advanceTo_eq hlt).1]
  exact keeps_advancePart_part hhigher _ _

/-- The interrupted turn has begun behind all others, so that what they asked for came before the
request that was refused. -/
private theorem suffix_history (h : StoppedIn provider index ratchet journal part)
    (hlt : ratchet.counter < index) {request : Request} {history : List Request}
    (hlast : (advanceTo provider index ratchet journal).journal.requests = request :: history) :
    (advanceParts provider index ((List.finRange 4).take part) ratchet journal).journal.requests <:+
      history := by
  obtain ⟨hjump, fault, herror⟩ := h.advanceTo_eq hlt
  have hrefused := (inherited_stopsAtRefusal.advancePart index part).of_error herror
  rw [← hjump, hlast] at hrefused
  obtain ⟨hanswered, -, -⟩ := hrefused
  obtain ⟨made, hmade, -⟩ := hanswered.exists_append
  exact ⟨made, hmade.symm⟩

end StoppedIn

/-! ## The same jump without a failure -/

private theorem repeats_rehash (step : Rehash) :
    Repeats provider other (rehash provider step) (rehash other step) :=
  .bind .get fun _ ↦ .bind (.request _ _) fun _ ↦ .modify _

private theorem repeats_rehashAll (steps : List Rehash) :
    Repeats provider other (rehashAll provider steps) (rehashAll other steps) := by
  induction steps with
  | nil => exact .pure ()
  | cons step steps ih => exact .bind (repeats_rehash step) fun _ ↦ ih

private theorem repeats_advancePart (index : UInt32) (part : Fin 4) :
    Repeats provider other (advancePart provider index part) (advancePart other index part) := by
  refine .bind .get fun ratchet ↦ ?_
  dsimp only
  split
  case isTrue => exact .pure ()
  case isFalse => exact .bind (repeats_rehashAll _) fun _ ↦ .modify _

private theorem repeats_advanceParts (index : UInt32) (parts : List (Fin 4)) :
    Repeats provider other (advanceParts provider index parts)
      (advanceParts other index parts) := by
  induction parts with
  | nil => exact .pure ()
  | cons part parts ih => exact .bind (repeats_advancePart index part) fun _ ↦ ih

private theorem keeps_advanceParts_drop {part higher : Fin 4} (hhigher : higher < part) :
    Keeps (·.parts.get higher)
      (advanceParts provider index ((List.finRange 4).drop part)) := by
  have hbelow : ∀ lower ∈ (List.finRange 4).drop part, part ≤ lower := by
    decide +revert
  apply keeps_advanceParts_part
  intro lower hlower
  exact Fin.lt_of_lt_of_le hhigher (hbelow lower hlower)

private theorem parts_advanceTo_of_ok (hlt : ratchet.counter < index)
    (hok : (advanceTo provider index ratchet journal).result = .ok ()) {part higher : Fin 4}
    (hhigher : higher < part) :
    (advanceTo provider index ratchet journal).state.parts.get higher =
      (advanceParts provider index ((List.finRange 4).take part) ratchet
        journal).state.parts.get higher := by
  rw [advanceTo_of_lt hlt] at hok ⊢
  obtain ⟨_, hparts, -⟩ := result_bind_eq_ok_iff.mp hok
  rw [bind_apply_ok hparts]
  rw [advanceParts_finRange index part] at hparts ⊢
  obtain ⟨_, hbefore, -⟩ := result_bind_eq_ok_iff.mp hparts
  rw [bind_apply_ok hbefore]
  exact keeps_advanceParts_drop hhigher _ _

/-- **An interrupted jump is as far as its counter says.** If any of its requests is refused, with
any provider, a jump to an index ahead ends with this request and its failure, and logs nothing.
There is exactly one part whose turn was interrupted, and it had steps to take. The counter has not
moved back and not arrived, and it has the bytes of the index for all higher parts: it is where it
was if none of these had steps to take, and otherwise it is the index with zeros from the byte of
the interrupted part on. The higher parts are those with which the jump succeeds for another
provider, which gives the same answers and does not fail. -/
theorem advanceTo_interrupted (provider : Provider) (ratchet : Ratchet) (index : UInt32)
    (journal : Journal) (hlt : ratchet.counter < index) (history : List Request)
    (request : Request) (failure : Failure)
    (hrefused : provider.RefusedBetween journal.requests
      (advanceTo provider index ratchet journal).journal.requests history request failure) :
    let outcome := advanceTo provider index ratchet journal
    outcome.result = .error (.crypto failure) ∧
    outcome.journal.requests = request :: history ∧
    outcome.journal.events = journal.events ∧
    (∃! part, StoppedIn provider index ratchet journal part) ∧
    ∀ part, StoppedIn provider index ratchet journal part →
      stepsAtTurn provider index ratchet journal part ≠ 0 ∧
      ratchet.counter ≤ outcome.state.counter ∧ outcome.state.counter < index ∧
      SameHigh part outcome.state.counter index ∧
      ((∀ higher, higher < part → stepsAtTurn provider index ratchet journal higher = 0) →
        outcome.state.counter = ratchet.counter) ∧
      ((∃ higher, higher < part ∧ stepsAtTurn provider index ratchet journal higher ≠ 0) →
        outcome.state.counter = highBytes part index) ∧
      ∀ other, provider.RepeatsBetween other journal.requests history →
        (other.Reliable .hmacSha256 → (advanceTo other index ratchet journal).result = .ok ()) ∧
        ((advanceTo other index ratchet journal).result = .ok () → ∀ higher, higher < part →
          (advanceTo other index ratchet journal).state.parts.get higher =
            outcome.state.parts.get higher) := by
  intro outcome
  have hle : ratchet.counter ≤ index := UInt32.le_of_lt hlt
  obtain ⟨hresult, hlast⟩ := advanceTo_of_refused hlt hrefused
  have hstopped : ∃ part, StoppedIn provider index ratchet journal part := by
    have hfailed := hresult
    rw [advanceTo_of_lt hlt] at hfailed
    rcases result_bind_eq_error_iff.mp hfailed with hparts | ⟨_, _, hlog⟩
    · exact exists_stoppedIn (Nat.le_refl 4) hparts
    · cases hlog
  obtain ⟨first, hfirst⟩ := hstopped
  refine ⟨hresult, hlast, failsSilently_advanceTo index _ _ _ hresult,
    ⟨first, hfirst, fun part ↦ hfirst.unique⟩, fun part hpart ↦ ?_⟩
  obtain ⟨hcounter, hsteps⟩ := hpart.counter_advanceTo hlt
  have hidle : (∀ higher, higher < part →
      stepsAtTurn provider index ratchet journal higher = 0) ↔
        SameHigh part ratchet.counter index := by
    rw [sameHigh_iff_idle hle (Nat.le_of_lt part.isLt)]
    constructor
    · intro hzero higher hhigher
      rw [← hpart.stepsAtTurn_eq hle (Fin.le_of_lt hhigher)]
      exact hzero higher hhigher
    · intro hzero higher hhigher
      rw [hpart.stepsAtTurn_eq hle (Fin.le_of_lt hhigher)]
      exact hzero higher hhigher
  obtain ⟨hahead, hbelow, hhigh⟩ := waypoint_between hle part
  have hcounter : outcome.state.counter = waypoint ratchet.counter index part := hcounter
  rw [hcounter]
  refine ⟨?_, hahead, ?_, hhigh, ?_, ?_, fun other hrepeats ↦ ⟨?_, fun hok higher hhigher ↦ ?_⟩⟩
  · rw [hpart.stepsAtTurn_eq hle (Fin.le_refl part)]
    exact hsteps
  · refine UInt32.lt_of_le_of_ne hbelow fun hend ↦ hsteps ?_
    rw [hend, stepsBetween_eq_zero_iff (UInt32.le_refl index) rfl]
    rfl
  · intro hzero
    exact if_pos (hidle.mp hzero)
  · rintro ⟨higher, hhigher, hsome⟩
    exact if_neg fun hsame ↦ hsome (hidle.mpr hsame higher hhigher)
  · intro hreliable
    exact result_advanceTo_of_reliable hreliable hle
  · obtain ⟨-, hsame⟩ := repeats_advanceParts index ((List.finRange 4).take part) ratchet journal ()
      hpart.before
    have hagain := hsame (hrepeats.mono (List.suffix_refl _) (hpart.suffix_history hlt hlast))
    rw [parts_advanceTo_of_ok hlt hok hhigher, hagain]
    exact (hpart.parts_advanceTo hlt hhigher).symm

/-- A ratchet whose last byte is about to begin anew. -/
def beforeCarry : Ratchet :=
  ofBytes ⟨List.replicate 128 7, List.length_replicate⟩ 0x000000fe

/-- A provider that answers five hashes. -/
def fiveHashes : Provider := Provider.plain.failingAfter .hmacSha256 5 ⟨"out of order"⟩

/-- The sixth hash of a jump is the last one in the turn of part 2. If it is refused, the jump has
come as far as part 1. -/
theorem advanceTo_interrupted_at_sixth_hash :
    let outcome := advanceTo fiveHashes 0x00010203 beforeCarry {}
    let completed := advanceTo .plain 0x00010203 beforeCarry {}
    outcome.result = .error (.crypto ⟨"out of order"⟩) ∧ outcome.journal.requests.length = 6 ∧
      outcome.state.counter = 0x00010000 ∧ completed.result = .ok () ∧
      outcome.state.parts.get 0 = completed.state.parts.get 0 ∧
      outcome.state.parts.get 1 = completed.state.parts.get 1 := by
  dsimp only
  have hrefused : fiveHashes.RefusedBetween []
      (advanceTo fiveHashes 0x00010203 beforeCarry {}).journal.requests
      (advanceTo fiveHashes 0x00010203 beforeCarry {}).journal.requests.tail
      (.hmacSha256 ([2, 2] ++ List.replicate 30 7) [2]) ⟨"out of order"⟩ :=
    ⟨List.nil_suffix, List.suffix_refl _, rfl⟩
  have hstopped : StoppedIn fiveHashes 0x00010203 beforeCarry {} 2 := ⟨rfl, _, rfl⟩
  have hsome : stepsAtTurn fiveHashes 0x00010203 beforeCarry {} 1 ≠ 0 := by decide
  have hrepeats : fiveHashes.RepeatsBetween .plain []
      (advanceTo fiveHashes 0x00010203 beforeCarry {}).journal.requests.tail := by
    intro history request answer _ _ hanswer
    change (if _ then _ else _) = _ at hanswer
    split at hanswer
    case isTrue => cases hanswer
    case isFalse => exact hanswer
  obtain ⟨hresult, hlast, -, -, hpart⟩ :=
    advanceTo_interrupted fiveHashes beforeCarry 0x00010203 {} (by decide) _ _ _ hrefused
  obtain ⟨-, -, -, -, -, hcounter, hother⟩ := hpart 2 hstopped
  obtain ⟨hcompletes, hparts⟩ := hother .plain hrepeats
  have hcompleted := hcompletes (Provider.reliable_plain (by decide))
  have hwaypoint : highBytes 2 0x00010203 = 0x00010000 := by decide
  refine ⟨hresult, ?_, ?_, hcompleted, ?_, ?_⟩
  · rw [hlast]
    rfl
  · exact (hcounter ⟨1, by decide, hsome⟩).trans hwaypoint
  · exact (hparts hcompleted 0 (by decide)).symm
  · exact (hparts hcompleted 1 (by decide)).symm

end Ratchet

end GroupSession
