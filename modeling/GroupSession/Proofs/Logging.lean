import GroupSession.Proofs.Storing

/-!
# What is logged when an operation fails

A failure is reported to the caller and should leave no trace in the log. Making a session,
restoring it, passing it on and storing it keep to that, since the event of each is logged behind
the last thing that can fail.

## The jump of a rejected message

Decrypting does not. A jump logs that it was made, and it is made with a copy, before keys are
derived and the tag is checked. If one of these fails, the copy is thrown away and the event stays.
Which failures are meant, and that the jump is all that is logged, can be said exactly: signature
and jump, the `approach`, have succeeded, and the message is not at the session's own index.
-/

namespace GroupSession

open GroupSession.Action

namespace Ratchet

variable {provider : Provider}

/-! ## Jumps -/

private theorem inherited_silent : Inherited provider fun _ ↦ Silent where
  pure := .pure
  get := .get
  modify := .modify
  hash _ _ := .mapError (.request provider _) _
  bind := .bind

private theorem silent_advanceParts (index : UInt32) (parts : List (Fin 4)) :
    Silent (advanceParts provider index parts) := inherited_silent.advanceParts index parts

/-- A jump that fails, wherever it does, has logged nothing. -/
theorem failsSilently_advanceTo (index : UInt32) : FailsSilently (advanceTo provider index) := by
  refine .silent_bind .get fun ratchet ↦ ?_
  dsimp only
  split
  case isTrue => exact .of_silent (.throw _)
  case isFalse =>
    split
    case isTrue => exact .of_silent (.pure ())
    case isFalse =>
      exact .bind_succeeds (.of_silent (silent_advanceParts index _)) fun _ ↦ .log _

theorem events_advanceTo_of_ok {index : UInt32} {ratchet : Ratchet} {journal : Journal}
    (h : (advanceTo provider index ratchet journal).result = .ok ()) :
    (advanceTo provider index ratchet journal).journal.events =
      if index = ratchet.counter then journal.events
      else .advanced ratchet.counter index :: journal.events := by
  rw [advanceTo_apply] at h ⊢
  by_cases hlt : index < ratchet.counter
  · rw [if_pos hlt] at h
    cases h
  · rw [if_neg hlt] at h ⊢
    by_cases heq : index = ratchet.counter
    · rw [if_pos heq, if_pos heq]
    · rw [if_neg heq] at h ⊢
      obtain ⟨_, hparts, -⟩ := result_bind_eq_ok_iff.mp h
      rw [if_neg heq, bind_apply_ok hparts]
      exact congrArg (Event.advanced ratchet.counter index :: ·)
        (silent_advanceParts index _ ratchet journal)

theorem silent_messageKeys {σ : Type} (ratchet : Ratchet) :
    Silent (ratchet.messageKeys provider : Action σ RatchetError _) :=
  .bind (.mapError (.request provider _) _) fun _ ↦ .pure _

end Ratchet

/-! ## Keys and pickles -/

/-- The fault is found with the keys of a message, or with its tag. -/
def SessionError.IsLate (fault : SessionError) : Prop :=
  fault = .macMismatch ∨ ∃ failure, fault = .crypto failure

namespace Pickle

variable {σ : Type} {provider : Provider}

private theorem silent_deriveKey (key : Bytes) (salt : FixedBytes 16) :
    Silent (deriveKey provider key salt : Action σ PickleError _) :=
  .mapError (.request provider _) _

private theorem silent_make (key : Bytes) (saved : SavedState) : Silent (make provider key saved) :=
  .bind (.modifyGet _) fun _ ↦ .bind (.modifyGet _) fun _ ↦ .bind (silent_deriveKey _ _) fun _ ↦
    .bind (.mapError (.request provider _) _) fun _ ↦ .pure _

private theorem silent_unlock (key bytes : Bytes) :
    Silent (unlock provider key bytes : Action σ PickleError _) := by
  refine .bind (.ofExcept _) fun pickle ↦ .bind (silent_deriveKey _ _) fun _ ↦ ?_
  refine .bind (.mapError (.request provider _) _) fun _ ↦ .bind (.ofExcept _) fun state ↦ ?_
  dsimp only
  split
  case isTrue => exact .throw _
  case isFalse => exact .pure _

end Pickle

namespace Session

variable {σ : Type} {provider : Provider} {session : Session}

theorem failsSilently_init (bytes : Bytes) :
    FailsSilently (init provider bytes : Action σ SessionError Session) := by
  refine .silent_bind (.ofExcept _) fun key ↦ .silent_bind (.mapError ?_ _) fun signer ↦ ?_
  · exact .bind (.ofExcept _) fun _ ↦ .bind (.mapError (.request provider _) _) fun _ ↦ .pure _
  · exact .of_succeeds (.bind (.log _) fun _ ↦ .pure _)

theorem failsSilently_importKey (bytes : Bytes) :
    FailsSilently (importKey bytes : Action σ SessionError Session) :=
  .silent_bind (.ofExcept _) fun _ ↦ .silent_bind (.ofExcept _) fun _ ↦
    .of_succeeds (.bind (.log _) fun _ ↦ .pure _)

theorem failsSilently_unpickle (key bytes : Bytes) :
    FailsSilently (unpickle provider key bytes : Action σ SessionError Session) :=
  .silent_bind (.mapError (Pickle.silent_unlock key bytes) _) fun _ ↦
    .silent_bind (.ofExcept _) fun _ ↦ .of_succeeds (.bind (.log _) fun _ ↦ .pure _)

theorem failsSilently_exportKey (session : Session) (index : UInt32) :
    FailsSilently (session.exportKey provider index : Action σ SessionError _) :=
  .bind_succeeds (.mapError (.onCopy (Ratchet.failsSilently_advanceTo index) _) _) fun _ ↦ .pure _

theorem silent_pickle (session : Session) (key : Bytes) : Silent (session.pickle provider key) :=
  .bind (.mapError (Pickle.silent_make key _) _) fun _ ↦ .pure _

/-! ## Messages -/

/-- The first half of what is checked of a message: the signature, and whether a copy of the ratchet
can jump to its index. -/
def approach (provider : Provider) (session : Session) (message : Message) :
    Action σ SessionError Ratchet := do
  (Action.request provider
    (.verify session.signingKey message.signedBytes message.signature)).mapError fun _ ↦ .signature
  (Action.onCopy (Ratchet.advanceTo provider message.index) session.ratchet).mapError .ofRatchet

/-- The second half: the text is decrypted with the keys of a ratchet. -/
def decipher (provider : Provider) (message : Message) (ratchet : Ratchet) :
    Action σ SessionError (Ratchet × Bytes) := do
  let keys ← (ratchet.messageKeys provider).mapError .ofRatchet
  let plaintext : Bytes ←
    (Action.request provider
      (.aeadDecrypt keys.1 keys.2 (Message.header message.index)
        ⟨message.ciphertext, message.mac⟩)).mapError fun _ ↦ .macMismatch
  return (ratchet, plaintext)

theorem authenticate_eq (message : Message) :
    (authenticate provider session message : Action σ SessionError _) =
      approach provider session message >>= decipher provider message := by
  simp only [authenticate, approach, bind_assoc]
  rfl

theorem failsSilently_approach (message : Message) :
    FailsSilently (approach provider session message : Action σ SessionError _) :=
  .silent_bind (.mapError (.request provider _) _) fun _ ↦
    .mapError (.onCopy (Ratchet.failsSilently_advanceTo _) _) _

theorem silent_decipher (message : Message) (ratchet : Ratchet) :
    Silent (decipher provider message ratchet : Action σ SessionError _) :=
  .bind (.mapError (Ratchet.silent_messageKeys ratchet) _) fun _ ↦
    .bind (.mapError (.request provider _) _) fun _ ↦ .pure _

private theorem failsOnly_decipher (message : Message) (ratchet : Ratchet) :
    FailsOnly (decipher provider message ratchet : Action σ SessionError _)
      SessionError.IsLate := by
  refine .bind (.mapError fun state journal fault h ↦ ?_) fun _ ↦ ?_
  · obtain ⟨failure, rfl⟩ := Ratchet.failsOnly_messageKeys ratchet state journal fault h
    exact .inr ⟨failure, rfl⟩
  · exact .bind (.mapError fun _ _ _ _ ↦ .inl rfl) fun _ ↦ .pure _

/-- A copy of the ratchet jumps for a message: it is within reach, but not at the session's own
index, and it is signed. -/
structure JumpsFor (provider : Provider) (session : Session) (bytes : Bytes) (journal : Journal)
    (message : Message) : Prop where
  reads : Message.ofBytes bytes = .ok message
  reaches : session.Reaches message.index
  ahead : message.index ≠ session.messageIndex
  jumps : ∃ ratchet, (approach provider session message session journal).result = .ok ratchet

theorem events_approach_of_ok {message : Message} {state : σ} {journal : Journal}
    {ratchet : Ratchet}
    (h : (approach provider session message state journal).result = .ok ratchet) :
    (approach provider session message state journal).journal.events =
      if message.index = session.messageIndex then journal.events
      else .advanced session.messageIndex message.index :: journal.events := by
  obtain ⟨_, hverify, hjump⟩ := result_bind_eq_ok_iff.mp h
  obtain ⟨⟨_, hjump⟩, -⟩ := result_onCopy_eq_ok_iff.mp (result_mapError_eq_ok_iff.mp hjump)
  rw [approach, bind_apply_ok hverify]
  exact Ratchet.events_advanceTo_of_ok hjump

/-- A message that is not authentic may have made a copy of the ratchet jump, and then this is what
it has logged. -/
private theorem events_authenticate_of_error {message : Message} {state : σ} {journal : Journal}
    {fault : SessionError}
    (h : (authenticate provider session message state journal).result = .error fault) :
    ((∃ ratchet, (approach provider session message state journal).result = .ok ratchet) ∧
        fault.IsLate ∧
        (authenticate provider session message state journal).journal.events =
          if message.index = session.messageIndex then journal.events
          else .advanced session.messageIndex message.index :: journal.events) ∨
      (∀ ratchet, (approach provider session message state journal).result ≠ .ok ratchet) ∧
        (authenticate provider session message state journal).journal.events = journal.events := by
  rw [authenticate_eq] at h ⊢
  rcases result_bind_eq_error_iff.mp h with hfirst | ⟨ratchet, hfirst, hsecond⟩
  · refine .inr ⟨fun ratchet hok ↦ ?_, ?_⟩
    · cases hfirst.symm.trans hok
    · rw [bind_apply_error hfirst]
      exact failsSilently_approach message state journal fault hfirst
  · refine .inl ⟨⟨ratchet, hfirst⟩, failsOnly_decipher message ratchet _ _ fault hsecond, ?_⟩
    rw [bind_apply_ok hfirst, silent_decipher message ratchet]
    exact events_approach_of_ok hfirst

/-- What is known of a message by its bytes is known of the one that a copy jumps for. -/
private theorem JumpsFor.eq_of_reads {bytes : Bytes} {journal : Journal} {message other : Message}
    (h : JumpsFor provider session bytes journal other)
    (hbytes : Message.ofBytes bytes = .ok message) : other = message :=
  Except.ok.inj (h.reads.symm.trans hbytes)

theorem events_decrypt_of_error {bytes : Bytes} {journal : Journal} {fault : SessionError}
    (h : (decrypt provider bytes session journal).result = .error fault) :
    (∃ message, JumpsFor provider session bytes journal message ∧ fault.IsLate ∧
        (decrypt provider bytes session journal).journal.events =
          .advanced session.messageIndex message.index :: journal.events) ∨
      (∀ message, ¬JumpsFor provider session bytes journal message) ∧
        (decrypt provider bytes session journal).journal.events = journal.events := by
  cases hbytes : Message.ofBytes bytes with
  | error cause =>
    rw [decrypt_of_malformed hbytes]
    refine .inr ⟨fun message hjumps ↦ ?_, rfl⟩
    cases hbytes.symm.trans hjumps.reads
  | ok message =>
    by_cases hreach : session.Reaches message.index
    · cases hauthentic : (authenticate provider session message session journal).result with
      | ok found =>
        rw [(decrypt_of_authenticate_ok hbytes hreach hauthentic).1] at h
        cases h
      | error cause =>
        rw [decrypt_of_reaches hbytes hreach, bind_apply_error hauthentic] at h ⊢
        cases h
        rcases events_authenticate_of_error hauthentic with
          ⟨hratchet, hlate, hevents⟩ | ⟨hnone, hevents⟩
        · by_cases hown : message.index = session.messageIndex
          · rw [if_pos hown] at hevents
            refine .inr ⟨fun other hjumps ↦ ?_, hevents⟩
            obtain rfl := hjumps.eq_of_reads hbytes
            exact hjumps.ahead hown
          · rw [if_neg hown] at hevents
            exact .inl ⟨message, ⟨hbytes, hreach, hown, hratchet⟩, hlate, hevents⟩
        · refine .inr ⟨fun other hjumps ↦ ?_, hevents⟩
          obtain rfl := hjumps.eq_of_reads hbytes
          obtain ⟨ratchet, hok⟩ := hjumps.jumps
          exact hnone ratchet hok
    · rw [decrypt_of_not_reaches hbytes hreach]
      refine .inr ⟨fun other hjumps ↦ ?_, rfl⟩
      obtain rfl := hjumps.eq_of_reads hbytes
      exact hreach hjumps.reaches

/-- **Of failures, only a jump is logged.** Making, restoring, passing on and storing a session log
nothing if they fail, whatever the provider answers. A message that is rejected leaves nothing in
the log either, unless a copy of the ratchet has jumped for it. Then the jump is logged, though the
session has not moved, and what failed are keys or tag. -/
theorem failures_log_only_jumps (provider : Provider) :
    (∀ bytes, FailsSilently (init provider bytes : Action σ SessionError _)) ∧
    (∀ bytes, FailsSilently (importKey bytes : Action σ SessionError _)) ∧
    (∀ key bytes, FailsSilently (unpickle provider key bytes : Action σ SessionError _)) ∧
    (∀ session index, FailsSilently (exportKey provider session index : Action σ SessionError _)) ∧
    (∀ session key, FailsSilently (pickle provider session key)) ∧
    ∀ bytes session journal fault,
      (decrypt provider bytes session journal).result = .error fault →
        (decrypt provider bytes session journal).state = session ∧
        ((∃ message, JumpsFor provider session bytes journal message ∧ fault.IsLate ∧
            (decrypt provider bytes session journal).journal.events =
              .advanced session.messageIndex message.index :: journal.events) ∨
          (∀ message, ¬JumpsFor provider session bytes journal message) ∧
            (decrypt provider bytes session journal).journal.events = journal.events) := by
  refine ⟨failsSilently_init, failsSilently_importKey, failsSilently_unpickle,
    failsSilently_exportKey, ?_, ?_⟩
  · intro session key
    exact .of_silent (silent_pickle session key)
  · intro bytes session journal fault hfault
    exact ⟨state_decrypt_of_error hfault, events_decrypt_of_error hfault⟩

/-- A session at index 0. -/
def atOrigin : Session :=
  ofRatchet (.ofBytes (FixedBytes.zero 128) 0) ⟨FixedBytes.zero 32⟩ true

/-- A message of index 3, with a tag that was not made with the keys of the session. -/
def forgedAhead : Message :=
  ⟨3, [], ⟨List.replicate 16 1, List.length_replicate⟩, FixedBytes.zero 64⟩

/-- The session stays where it was, and the log says that a ratchet has jumped. -/
theorem failures_log_only_jumps_forged :
    let outcome := decrypt .plain forgedAhead.toBytes atOrigin {}
    outcome.result = .error .macMismatch ∧ outcome.state = atOrigin ∧
      outcome.journal.events = [.advanced 0 3] := by
  intro outcome
  have hresult : outcome.result = .error .macMismatch := rfl
  have hjumps : JumpsFor .plain atOrigin forgedAhead.toBytes {} forgedAhead :=
    ⟨Message.ofBytes_toBytes forgedAhead, by decide, by decide, _, rfl⟩
  have hdecrypt := (@failures_log_only_jumps Unit .plain).2.2.2.2.2
  obtain ⟨hstate, ⟨message, hmessage, -, hevents⟩ | ⟨hnone, -⟩⟩ := hdecrypt _ _ _ _ hresult
  · obtain rfl := hmessage.eq_of_reads hjumps.reads
    exact ⟨hresult, hstate, hevents⟩
  · exact absurd hjumps (hnone forgedAhead)

/-- So decrypting, unlike everything else, may fail and have logged something. -/
theorem not_failsSilently_decrypt : ¬FailsSilently (decrypt .plain forgedAhead.toBytes) := by
  intro h
  have hevents := h atOrigin {} .macMismatch rfl
  cases hevents

end Session

end GroupSession
