import GroupSession.Action

/-!
# What actions depend on and what they leave alone

An action sees a state and the journal of everything that happened before it, and may change both.
Most statements about ratchets and sessions say that some of that does not matter: a rejected
message leaves the state alone, a provider that does not look back makes a session that does not
look back either. This file says what such a statement means for a single action, and that it
passes from the parts of an action to the whole.

## Logging

An action that fails should have logged nothing. It has not if nothing can fail behind the first
event, and that is what the rules ask for.

## Answering alike and ignoring the journal

Actions that only ask the provider and work on copies have no use for the state. Two of them answer
alike if they give the same answer from any states and journals. Other actions change the state, and
for them the question is whether they do the same from any journal. Both properties pass through
`>>=`, so that an operation has them if its requests do.
-/

namespace GroupSession

@[simp] theorem mapError_ok {ε ε' α : Type} (rename : ε → ε') (a : α) :
    (Except.ok a : Except ε α).mapError rename = .ok a := rfl

@[simp] theorem mapError_error {ε ε' α : Type} (rename : ε → ε') (fault : ε) :
    (Except.error fault : Except ε α).mapError rename = .error (rename fault) := rfl

/-! ## Providers that do not look back, providers that do not fail -/

namespace Request

/-- Nothing more is asked for than can be had: only the amount of key material is limited. -/
def Feasible : Request → Prop
  | hkdf size .. => size ≤ Hkdf.maxSize
  | _ => True

end Request

namespace Provider

variable {provider : Provider} {primitive : Primitive}

/-- How requests of one kind are answered does not depend on what was asked before. -/
def Steady (provider : Provider) (primitive : Primitive) : Prop :=
  ∀ request : Request, request.primitive = primitive →
    ∀ history, provider.answer history request = provider.answer [] request

/-- How any request is answered does not depend on what was asked before. -/
def Deterministic (provider : Provider) : Prop := ∀ primitive, provider.Steady primitive

/-- Feasible requests of one kind are always answered. -/
def Reliable (provider : Provider) (primitive : Primitive) : Prop :=
  ∀ request : Request, request.primitive = primitive → request.Feasible →
    ∀ history, ∃ answer, provider.answer history request = .ok answer

/-- What was encrypted is decrypted, whatever was asked for in between. -/
def Opens (provider : Provider) : Prop :=
  ∀ history history' key nonce associated plaintext content,
    provider.answer history (.aeadEncrypt key nonce associated plaintext) = .ok content →
      provider.answer history' (.aeadDecrypt key nonce associated content) = .ok plaintext

/-- Every signature of a key is accepted. -/
def Accepts (provider : Provider) (key : Ed25519.SigningKey) : Prop :=
  ∀ history message,
    provider.answer history (.verify key.verifyingKey message (key.sign message)) = .ok ()

theorem deterministic_ofFunction (f : (request : Request) → Except Failure request.Answer) :
    (ofFunction f).Deterministic := fun _ _ _ _ ↦ rfl

theorem Steady.answer_eq (h : provider.Steady primitive) {request : Request}
    (hrequest : request.primitive = primitive) (history history' : List Request) :
    provider.answer history request = provider.answer history' request :=
  (h request hrequest history).trans (h request hrequest history').symm

theorem deterministic_standard : standard.Deterministic := deterministic_ofFunction _

private theorem answer_standard_of_compute {request : Request} {answer : request.Answer}
    (h : request.compute = .ok answer) (history : List Request) :
    standard.answer history request = .ok answer := by
  change request.compute.mapError _ = .ok answer
  rw [h, mapError_ok]

/-- Only a wrong tag and a wrong signature make the cryptography of this library fail. -/
theorem reliable_standard (hdecrypt : primitive ≠ .aeadDecrypt) (hverify : primitive ≠ .verify) :
    standard.Reliable primitive := by
  rintro request rfl hfeasible history
  cases request with
  | hmacSha256 key data => exact ⟨_, answer_standard_of_compute (by rw [Request.compute]) history⟩
  | hkdf size salt input info =>
    have hsome : (hkdfSha256 size salt input info).isSome := isSome_hkdfSha256.mpr hfeasible
    obtain ⟨material, hmaterial⟩ := Option.isSome_iff_exists.mp hsome
    refine ⟨material, answer_standard_of_compute ?_ history⟩
    rw [Request.compute, hmaterial, Option.elim]
  | aeadEncrypt key nonce associated plaintext =>
    exact ⟨_, answer_standard_of_compute (by rw [Request.compute]) history⟩
  | aeadDecrypt => exact absurd rfl hdecrypt
  | verify => exact absurd rfl hverify

theorem opens_standard : standard.Opens := by
  intro _ history' key nonce associated plaintext content hcontent
  have hsealed : XChaCha20Poly1305.encrypt key nonce associated plaintext = content :=
    Except.ok.inj hcontent
  refine answer_standard_of_compute ?_ history'
  rw [Request.compute, ← hsealed, XChaCha20Poly1305.decrypt_encrypt, Option.elim]

end Provider

namespace Action

variable {σ σ' τ ε ε' α β : Type}

/-! ## One action after another -/

theorem bind_apply (action : Action σ ε α) (next : α → Action σ ε β) (state : σ)
    (journal : Journal) :
    (action >>= next) state journal =
      match (action state journal).result with
      | .ok a => next a (action state journal).state (action state journal).journal
      | .error fault =>
        ⟨.error fault, (action state journal).state, (action state journal).journal⟩ := by
  cases h : (action state journal).result with
  | ok a => exact bind_apply_ok h
  | error fault => exact bind_apply_error h

private theorem map_id_action (action : Action σ ε α) : id <$> action = action := by
  funext state journal
  change (action >>= fun a ↦ pure a) state journal = action state journal
  rw [bind_apply]
  cases h : (action state journal).result <;> simp only [pure_apply, ← h]

private theorem bind_assoc_action {γ : Type} (action : Action σ ε α) (next : α → Action σ ε β)
    (last : β → Action σ ε γ) : action >>= next >>= last = action >>= fun a ↦ next a >>= last := by
  funext state journal
  rw [bind_apply, bind_apply, bind_apply]
  cases (action state journal).result with
  | ok a => exact (bind_apply _ _ _ _).symm
  | error fault => rfl

instance : LawfulMonad (Action σ ε) :=
  LawfulMonad.mk' _ map_id_action (fun _ _ ↦ rfl) bind_assoc_action

theorem result_bind_eq_ok_iff {action : Action σ ε α} {next : α → Action σ ε β} {state : σ}
    {journal : Journal} {b : β} :
    ((action >>= next) state journal).result = .ok b ↔
      ∃ a, (action state journal).result = .ok a ∧
        (next a (action state journal).state (action state journal).journal).result = .ok b := by
  rw [bind_apply]
  cases (action state journal).result with
  | ok a =>
    constructor
    · intro h
      exact ⟨a, rfl, h⟩
    · rintro ⟨a, ha, h⟩
      cases ha
      exact h
  | error fault => exact ⟨nofun, fun ⟨_, h, _⟩ ↦ nomatch h⟩

theorem result_bind_eq_error_iff {action : Action σ ε α} {next : α → Action σ ε β} {state : σ}
    {journal : Journal} {fault : ε} :
    ((action >>= next) state journal).result = .error fault ↔
      (action state journal).result = .error fault ∨
        ∃ a, (action state journal).result = .ok a ∧
          (next a (action state journal).state (action state journal).journal).result =
            .error fault := by
  rw [bind_apply]
  cases (action state journal).result <;> simp

@[simp] theorem result_mapError_eq_ok_iff {rename : ε → ε'} {action : Action σ ε α} {state : σ}
    {journal : Journal} {a : α} :
    (mapError rename action state journal).result = .ok a ↔
      (action state journal).result = .ok a := by
  rw [mapError]
  cases (action state journal).result <;> simp

theorem result_mapError_eq_error_iff {rename : ε → ε'} {action : Action σ ε α} {state : σ}
    {journal : Journal} {fault : ε'} :
    (mapError rename action state journal).result = .error fault ↔
      ∃ cause, (action state journal).result = .error cause ∧ rename cause = fault := by
  rw [mapError]
  cases (action state journal).result <;> simp

@[simp] theorem result_ofExcept (result : Except ε α) (state : σ) (journal : Journal) :
    (ofExcept result state journal).result = result := rfl

theorem ofExcept_ok_bind (a : α) (next : α → Action σ ε β) :
    (ofExcept (.ok a) >>= next) = next a := rfl

theorem ofExcept_error_bind (fault : ε) (next : α → Action σ ε β) :
    (ofExcept (.error fault) >>= next) = ofExcept (.error fault) := rfl

theorem result_ofExcept_mapError_eq_ok_iff {rename : ε → ε'} {result : Except ε α} {state : σ}
    {journal : Journal} {a : α} :
    (ofExcept (result.mapError rename) state journal).result = .ok a ↔ result = .ok a := by
  cases result <;> simp

theorem result_onCopy_eq_ok_iff {action : Action τ ε α} {value after : τ} {state : σ}
    {journal : Journal} :
    (onCopy action value state journal).result = .ok after ↔
      (∃ a, (action value journal).result = .ok a) ∧ (action value journal).state = after := by
  rw [onCopy]
  cases (action value journal).result <;> simp [Except.map]

theorem result_onCopy_eq_error_iff {action : Action τ ε α} {value : τ} {state : σ}
    {journal : Journal} {fault : ε} :
    (onCopy action value state journal).result = .error fault ↔
      (action value journal).result = .error fault := by
  rw [onCopy]
  cases (action value journal).result <;> simp [Except.map]

/-! ## Leaving the state alone -/

/-- Whether it succeeds or fails, the action leaves the state as it was. -/
def KeepsState (action : Action σ ε α) : Prop :=
  ∀ state journal, (action state journal).state = state

namespace KeepsState

theorem pure (a : α) : KeepsState (pure a : Action σ ε α) := fun _ _ ↦ rfl

theorem request (provider : Provider) (r : Request) :
    KeepsState (request provider r : Action σ Failure r.Answer) := fun _ _ ↦ rfl

theorem onCopy (action : Action τ ε α) (value : τ) :
    KeepsState (onCopy action value : Action σ ε τ) := fun _ _ ↦ rfl

theorem mapError {action : Action σ ε α} (h : KeepsState action) (rename : ε → ε') :
    KeepsState (mapError rename action) := fun state journal ↦ h state journal

theorem bind {action : Action σ ε α} {next : α → Action σ ε β} (h : KeepsState action)
    (hnext : ∀ a, KeepsState (next a)) : KeepsState (action >>= next) := by
  intro state journal
  rw [bind_apply]
  cases (action state journal).result with
  | ok a =>
    change (next a _ _).state = state
    rw [hnext a, h]
  | error fault => exact h state journal

end KeepsState

/-- Whether it succeeds or fails, the action leaves alone what is seen of the state. -/
def Keeps (view : σ → τ) (action : Action σ ε α) : Prop :=
  ∀ state journal, view (action state journal).state = view state

namespace Keeps

variable {view : σ → τ}

theorem pure (a : α) : Keeps view (pure a : Action σ ε α) := fun _ _ ↦ rfl

theorem get : Keeps view (get : Action σ ε σ) := fun _ _ ↦ rfl

theorem modify {change : σ → σ} (h : ∀ state, view (change state) = view state) :
    Keeps view (modify change : Action σ ε PUnit) := fun state _ ↦ h state

theorem request (provider : Provider) (r : Request) :
    Keeps view (request provider r : Action σ Failure r.Answer) := fun _ _ ↦ rfl

theorem mapError {action : Action σ ε α} (h : Keeps view action) (rename : ε → ε') :
    Keeps view (mapError rename action) := fun state journal ↦ h state journal

theorem bind {action : Action σ ε α} {next : α → Action σ ε β} (h : Keeps view action)
    (hnext : ∀ a, Keeps view (next a)) : Keeps view (action >>= next) := by
  intro state journal
  rw [bind_apply]
  cases (action state journal).result with
  | ok a => exact (hnext a _ _).trans (h state journal)
  | error fault => exact h state journal

end Keeps

/-! ## Failing in known ways -/

/-- The action fails with faults of some kind only, if it fails at all. -/
def FailsOnly (action : Action σ ε α) (allowed : ε → Prop) : Prop :=
  ∀ state journal fault, (action state journal).result = .error fault → allowed fault

namespace FailsOnly

variable {allowed : ε → Prop}

theorem pure (a : α) : FailsOnly (pure a : Action σ ε α) allowed := fun _ _ _ h ↦ nomatch h

theorem get : FailsOnly (get : Action σ ε σ) allowed := fun _ _ _ h ↦ nomatch h

theorem modify (change : σ → σ) : FailsOnly (modify change : Action σ ε PUnit) allowed :=
  fun _ _ _ h ↦ nomatch h

theorem log (event : Event) : FailsOnly (log event : Action σ ε Unit) allowed :=
  fun _ _ _ h ↦ nomatch h

theorem mapError {action : Action σ ε' α} {rename : ε' → ε}
    (h : FailsOnly action fun fault ↦ allowed (rename fault)) :
    FailsOnly (mapError rename action) allowed := by
  intro state journal fault hfault
  obtain ⟨cause, hcause, rfl⟩ := result_mapError_eq_error_iff.mp hfault
  exact h state journal cause hcause

theorem onCopy {action : Action τ ε α} {value : τ}
    (h : ∀ journal fault, (action value journal).result = .error fault → allowed fault) :
    FailsOnly (onCopy action value : Action σ ε τ) allowed :=
  fun _ journal fault hfault ↦ h journal fault (result_onCopy_eq_error_iff.mp hfault)

theorem bind {action : Action σ ε α} {next : α → Action σ ε β} (h : FailsOnly action allowed)
    (hnext : ∀ a, FailsOnly (next a) allowed) : FailsOnly (action >>= next) allowed := by
  intro state journal fault hfault
  rcases result_bind_eq_error_iff.mp hfault with hfirst | ⟨a, -, hsecond⟩
  · exact h state journal fault hfirst
  · exact hnext a _ _ fault hsecond

end FailsOnly

/-! ## Logging nothing -/

/-- Whether it succeeds or fails, the action logs nothing. -/
def Silent (action : Action σ ε α) : Prop :=
  ∀ state journal, (action state journal).journal.events = journal.events

namespace Silent

theorem pure (a : α) : Silent (pure a : Action σ ε α) := fun _ _ ↦ rfl

theorem throw (fault : ε) : Silent (throw fault : Action σ ε α) := fun _ _ ↦ rfl

theorem get : Silent (get : Action σ ε σ) := fun _ _ ↦ rfl

theorem modify (change : σ → σ) : Silent (modify change : Action σ ε PUnit) := fun _ _ ↦ rfl

theorem modifyGet (change : σ → α × σ) : Silent (modifyGet change : Action σ ε α) :=
  fun _ _ ↦ rfl

theorem ofExcept (result : Except ε α) : Silent (ofExcept result : Action σ ε α) :=
  fun _ _ ↦ rfl

theorem request (provider : Provider) (r : Request) :
    Silent (request provider r : Action σ Failure r.Answer) := fun _ _ ↦ rfl

theorem mapError {action : Action σ ε α} (h : Silent action) (rename : ε → ε') :
    Silent (mapError rename action) := fun state journal ↦ h state journal

theorem bind {action : Action σ ε α} {next : α → Action σ ε β} (h : Silent action)
    (hnext : ∀ a, Silent (next a)) : Silent (action >>= next) := by
  intro state journal
  rw [bind_apply]
  cases (action state journal).result with
  | ok a => exact (hnext a _ _).trans (h state journal)
  | error fault => exact h state journal

end Silent

/-- If it fails, the action has logged nothing. -/
def FailsSilently (action : Action σ ε α) : Prop :=
  ∀ state journal fault, (action state journal).result = .error fault →
    (action state journal).journal.events = journal.events

namespace FailsSilently

theorem of_silent {action : Action σ ε α} (h : Silent action) : FailsSilently action :=
  fun state journal _ _ ↦ h state journal

/-- An action that never fails may log whatever it likes. -/
theorem of_succeeds {action : Action σ ε α} (h : FailsOnly action fun _ ↦ False) :
    FailsSilently action := fun state journal fault hfault ↦ (h state journal fault hfault).elim

theorem mapError {action : Action σ ε α} (h : FailsSilently action) (rename : ε → ε') :
    FailsSilently (mapError rename action) := by
  intro state journal fault hfault
  obtain ⟨cause, hcause, -⟩ := result_mapError_eq_error_iff.mp hfault
  exact h state journal cause hcause

theorem onCopy {action : Action τ ε α} (h : FailsSilently action) (value : τ) :
    FailsSilently (onCopy action value : Action σ ε τ) :=
  fun _ journal fault hfault ↦ h value journal fault (result_onCopy_eq_error_iff.mp hfault)

/-- Before the first event, anything may fail. -/
theorem silent_bind {action : Action σ ε α} {next : α → Action σ ε β} (h : Silent action)
    (hnext : ∀ a, FailsSilently (next a)) : FailsSilently (action >>= next) := by
  intro state journal fault hfault
  rcases result_bind_eq_error_iff.mp hfault with hfirst | ⟨a, hfirst, hsecond⟩
  · rw [bind_apply_error hfirst]
    exact h state journal
  · rw [bind_apply_ok hfirst, hnext a _ _ fault hsecond]
    exact h state journal

/-- Behind it, nothing may. -/
theorem bind_succeeds {action : Action σ ε α} {next : α → Action σ ε β}
    (h : FailsSilently action) (hnext : ∀ a, FailsOnly (next a) fun _ ↦ False) :
    FailsSilently (action >>= next) := by
  intro state journal fault hfault
  rcases result_bind_eq_error_iff.mp hfault with hfirst | ⟨a, -, hsecond⟩
  · rw [bind_apply_error hfirst]
    exact h state journal fault hfirst
  · exact (hnext a _ _ fault hsecond).elim

end FailsSilently

/-! ## Answering alike -/

/-- Both actions give the same answer, whatever the states and the journals they start from. -/
def AnswersAlike (action : Action σ ε α) (other : Action τ ε α) : Prop :=
  ∀ state state' journal journal',
    (action state journal).result = (other state' journal').result

namespace AnswersAlike

theorem pure (a : α) : AnswersAlike (pure a : Action σ ε α) (pure a : Action τ ε α) :=
  fun _ _ _ _ ↦ rfl

theorem request {provider : Provider} {r : Request} (h : provider.Steady r.primitive) :
    AnswersAlike (request provider r : Action σ Failure r.Answer)
      (Action.request provider r : Action τ Failure r.Answer) :=
  fun _ _ journal journal' ↦ h.answer_eq rfl journal.requests journal'.requests

theorem mapError {action : Action σ ε α} {other : Action τ ε α} (h : AnswersAlike action other)
    (rename : ε → ε') : AnswersAlike (mapError rename action) (Action.mapError rename other) :=
  fun state state' journal journal' ↦
    congrArg (Except.mapError rename) (h state state' journal journal')

theorem bind {action : Action σ ε α} {other : Action τ ε α} {next : α → Action σ ε β}
    {next' : α → Action τ ε β} (h : AnswersAlike action other)
    (hnext : ∀ a, AnswersAlike (next a) (next' a)) :
    AnswersAlike (action >>= next) (other >>= next') := by
  intro state state' journal journal'
  rw [bind_apply, bind_apply, ← h state state' journal journal']
  cases (action state journal).result with
  | ok a => exact hnext a _ _ _ _
  | error fault => rfl

end AnswersAlike

/-! ## Doing the same whatever happened before -/

/-- What the action answers and leaves does not depend on what happened before. -/
def IgnoresJournal (action : Action σ ε α) : Prop :=
  ∀ state journal journal',
    (action state journal).result = (action state journal').result ∧
      (action state journal).state = (action state journal').state

namespace IgnoresJournal

theorem pure (a : α) : IgnoresJournal (pure a : Action σ ε α) := fun _ _ _ ↦ ⟨rfl, rfl⟩

theorem throw (fault : ε) : IgnoresJournal (throw fault : Action σ ε α) :=
  fun _ _ _ ↦ ⟨rfl, rfl⟩

theorem get : IgnoresJournal (get : Action σ ε σ) := fun _ _ _ ↦ ⟨rfl, rfl⟩

theorem set (next : σ) : IgnoresJournal (set next : Action σ ε PUnit) := fun _ _ _ ↦ ⟨rfl, rfl⟩

theorem modify (change : σ → σ) : IgnoresJournal (modify change : Action σ ε PUnit) :=
  fun _ _ _ ↦ ⟨rfl, rfl⟩

theorem modifyGet (change : σ → α × σ) :
    IgnoresJournal (modifyGet change : Action σ ε α) := fun _ _ _ ↦ ⟨rfl, rfl⟩

theorem log (event : Event) : IgnoresJournal (log event : Action σ ε Unit) :=
  fun _ _ _ ↦ ⟨rfl, rfl⟩

theorem request {provider : Provider} {r : Request} (h : provider.Steady r.primitive) :
    IgnoresJournal (request provider r : Action σ Failure r.Answer) :=
  fun _ journal journal' ↦ ⟨h.answer_eq rfl journal.requests journal'.requests, rfl⟩

theorem mapError {action : Action σ ε α} (h : IgnoresJournal action) (rename : ε → ε') :
    IgnoresJournal (mapError rename action) := fun state journal journal' ↦
  ⟨congrArg (Except.mapError rename) (h state journal journal').1, (h state journal journal').2⟩

theorem bind {action : Action σ ε α} {next : α → Action σ ε β} (h : IgnoresJournal action)
    (hnext : ∀ a, IgnoresJournal (next a)) : IgnoresJournal (action >>= next) := by
  intro state journal journal'
  obtain ⟨hresult, hstate⟩ := h state journal journal'
  rw [bind_apply, bind_apply, ← hresult, ← hstate]
  cases (action state journal).result with
  | ok a => exact hnext a _ _ _
  | error fault => exact ⟨rfl, rfl⟩

/-- An action that has no use for the state, and answers alike, ignores the journal. -/
theorem of_answersAlike {action : Action σ ε α} (hkeeps : KeepsState action)
    (halike : AnswersAlike action action) : IgnoresJournal action :=
  fun state journal journal' ↦ ⟨halike state state journal journal',
    (hkeeps state journal).trans (hkeeps state journal').symm⟩

end IgnoresJournal

theorem AnswersAlike.onCopy {action : Action τ ε α} {other : Action τ ε α} {value value' : τ}
    (hresult : ∀ journal journal',
      (action value journal).result = (other value' journal').result)
    (hstate : ∀ journal journal', (action value journal).state = (other value' journal').state) :
    AnswersAlike (onCopy action value : Action σ ε τ)
      (Action.onCopy other value' : Action σ' ε τ) := by
  intro _ _ journal journal'
  rw [Action.onCopy, Action.onCopy, hresult journal journal', hstate journal journal']

/-! ## Success whatever happened before -/

/-- From a state, the action always succeeds with an answer and leaves another state. -/
def Yields (action : Action σ ε α) (state : σ) (a : α) (after : σ) : Prop :=
  ∀ journal, (action state journal).result = .ok a ∧ (action state journal).state = after

theorem IgnoresJournal.yields {action : Action σ ε α} (h : IgnoresJournal action) {state : σ}
    {journal : Journal} {a : α} (hresult : (action state journal).result = .ok a) :
    Yields action state a (action state journal).state := by
  intro journal'
  obtain ⟨hresult', hstate'⟩ := h state journal' journal
  exact ⟨hresult'.trans hresult, hstate'⟩

/-- An action that answers like one which has succeeded, and keeps the state, always succeeds. -/
theorem AnswersAlike.yields {action : Action σ ε α} {other : Action τ ε α}
    (h : AnswersAlike action other) (hkeeps : KeepsState other) {state : σ} {journal : Journal}
    {a : α} (hresult : (action state journal).result = .ok a) (after : τ) :
    Yields other after a after := by
  intro journal'
  exact ⟨(h state after journal journal').symm.trans hresult, hkeeps after journal'⟩

theorem Yields.unique {action : Action σ ε α} {state after after' : σ} {a a' : α}
    (h : Yields action state a after) (h' : Yields action state a' after') : after = after' :=
  (h {}).2.symm.trans (h' {}).2

theorem yields_pure (a : α) (state : σ) : Yields (pure a : Action σ ε α) state a state :=
  fun _ ↦ ⟨rfl, rfl⟩

theorem yields_ofExcept (a : α) (state : σ) :
    Yields (ofExcept (.ok a) : Action σ ε α) state a state :=
  fun _ ↦ ⟨rfl, rfl⟩

theorem yields_log (event : Event) (state : σ) :
    Yields (log event : Action σ ε Unit) state () state :=
  fun _ ↦ ⟨rfl, rfl⟩

theorem yields_request {provider : Provider} {r : Request} {answer : r.Answer}
    (h : ∀ history, provider.answer history r = .ok answer) (state : σ) :
    Yields (request provider r) state answer state :=
  fun journal ↦ ⟨h journal.requests, rfl⟩

theorem Yields.mapError {action : Action σ ε α} {state after : σ} {a : α}
    (h : Yields action state a after) (rename : ε → ε') :
    Yields (mapError rename action) state a after :=
  fun journal ↦ ⟨result_mapError_eq_ok_iff.mpr (h journal).1, (h journal).2⟩

theorem Yields.onCopy {action : Action τ ε α} {value after : τ} {a : α}
    (h : Yields action value a after) (state : σ) :
    Yields (onCopy action value) state after state :=
  fun journal ↦ ⟨result_onCopy_eq_ok_iff.mpr ⟨⟨a, (h journal).1⟩, (h journal).2⟩, rfl⟩

theorem Yields.bind {action : Action σ ε α} {next : α → Action σ ε β} {state middle after : σ}
    {a : α} {b : β} (h : Yields action state a middle) (hnext : Yields (next a) middle b after) :
    Yields (action >>= next) state b after := by
  intro journal
  obtain ⟨hresult, hstate⟩ := h journal
  rw [bind_apply_ok hresult, hstate]
  exact hnext _

theorem IgnoresJournal.yields_bind_iff {action : Action σ ε α} {next : α → Action σ ε β}
    (h : IgnoresJournal action) (hnext : ∀ a, IgnoresJournal (next a)) {state after : σ} {b : β} :
    Yields (action >>= next) state b after ↔
      ∃ a middle, Yields action state a middle ∧ Yields (next a) middle b after := by
  constructor
  · intro hyields
    obtain ⟨hresult, hstate⟩ := hyields {}
    obtain ⟨a, ha, hb⟩ := result_bind_eq_ok_iff.mp hresult
    rw [bind_apply_ok ha] at hstate
    exact ⟨a, _, h.yields ha, hstate ▸ (hnext a).yields hb⟩
  · rintro ⟨a, middle, ha, hb⟩
    exact ha.bind hb

end Action

end GroupSession
