import GroupSession.Proofs.Jump
import GroupSession.Session

/-!
# What decrypting does

A session treats the bytes it is given in three ways. If they are no message, or one of an index
that it can not reach, it says so and asks the provider nothing. Any other message is
*authenticated*: signature, ratchet, keys and tag are gone through with a copy of the ratchet. Only
when that has succeeded is the copy taken over, in one step that can not fail.

So all that a failing provider can spoil happens in `authenticate`, which has no access to the
session's state. What the session answers, and what it becomes, follows from that alone.
-/

namespace GroupSession

open GroupSession.Action

namespace Session

variable {σ τ : Type} {provider : Provider} {session : Session}

/-! ## The three cases -/

/-- All that is checked of a message within reach, with a copy of the ratchet. Answers with the
ratchet at the message's index and the text. -/
def authenticate (provider : Provider) (session : Session) (message : Message) :
    Action σ SessionError (Ratchet × Bytes) := do
  (Action.request provider
    (.verify session.signingKey message.signedBytes message.signature)).mapError fun _ ↦ .signature
  let ratchet ← (Action.onCopy (Ratchet.advanceTo provider message.index)
    session.ratchet).mapError .ofRatchet
  let keys ← (ratchet.messageKeys provider).mapError .ofRatchet
  let plaintext : Bytes ←
    (Action.request provider
      (.aeadDecrypt keys.1 keys.2 (Message.header message.index)
        ⟨message.ciphertext, message.mac⟩)).mapError fun _ ↦ .macMismatch
  return (ratchet, plaintext)

/-- The session after a message: it takes over the ratchet and knows its sender. -/
def takeOver (session : Session) (ratchet : Ratchet) : Session :=
  { session with ratchet, verified := true }

/-- A message is within reach if its index lies before none that the session knows. -/
def Reaches (session : Session) (index : UInt32) : Prop :=
  session.firstKnownIndex ≤ index ∧ session.messageIndex ≤ index

instance (session : Session) (index : UInt32) : Decidable (session.Reaches index) :=
  inferInstanceAs (Decidable (_ ∧ _))

private theorem not_reaches_iff {index : UInt32} :
    ¬session.Reaches index ↔ index < session.firstKnownIndex ∨ index < session.messageIndex := by
  rw [Reaches, Decidable.not_and_iff_or_not, UInt32.not_le, UInt32.not_le]

theorem decrypt_of_malformed {bytes : Bytes} {fault : MessageError}
    (hbytes : Message.ofBytes bytes = .error fault) (journal : Journal) :
    decrypt provider bytes session journal =
      ⟨.error (.malformedMessage fault), session, journal⟩ := by
  rw [decrypt, hbytes]
  rfl

theorem decrypt_of_not_reaches {bytes : Bytes} {message : Message}
    (hbytes : Message.ofBytes bytes = .ok message) (hreach : ¬session.Reaches message.index)
    (journal : Journal) :
    decrypt provider bytes session journal =
      ⟨.error (.indexTooLow message.index session.messageIndex), session, journal⟩ := by
  rw [not_reaches_iff] at hreach
  rw [decrypt, hbytes]
  -- The early exit is a branch around all that follows it.
  change (if message.index < session.firstKnownIndex ∨ message.index < session.messageIndex then _
    else _ : Action Session SessionError _) session journal = _
  rw [if_pos hreach]
  rfl

/-- Any other message is authenticated, and the session takes over what comes of it. -/
theorem decrypt_of_reaches {bytes : Bytes} {message : Message}
    (hbytes : Message.ofBytes bytes = .ok message) (hreach : session.Reaches message.index)
    (journal : Journal) :
    decrypt provider bytes session journal =
      (authenticate provider session message >>= fun found ↦ do
        set (session.takeOver found.1)
        Action.log (.decrypted session.id message.index)
        return (found.2, message.index)) session journal := by
  have hreach : ¬(message.index < session.firstKnownIndex ∨ message.index < session.messageIndex) :=
    fun h ↦ not_reaches_iff.mpr h hreach
  rw [decrypt, hbytes]
  change (if message.index < session.firstKnownIndex ∨ message.index < session.messageIndex then _
    else _ : Action Session SessionError _) session journal = _
  rw [if_neg hreach]
  simp only [authenticate, bind_assoc, pure_bind]
  rfl

/-! ## What the cases come to -/

theorem keepsState_messageKeys (ratchet : Ratchet) :
    KeepsState (ratchet.messageKeys provider : Action σ RatchetError _) :=
  .bind (.mapError (.request provider _) _) fun _ ↦ .pure _

theorem keepsState_authenticate (session : Session) (message : Message) :
    KeepsState (authenticate provider session message : Action σ SessionError _) :=
  .bind (.mapError (.request provider _) _) fun _ ↦
    .bind (.mapError (.onCopy _ _) _) fun ratchet ↦
      .bind (.mapError (keepsState_messageKeys ratchet) _) fun _ ↦
        .bind (.mapError (.request provider _) _) fun _ ↦ .pure _

theorem decrypt_of_authenticate_error {bytes : Bytes} {message : Message} {journal : Journal}
    {fault : SessionError} (hbytes : Message.ofBytes bytes = .ok message)
    (hreach : session.Reaches message.index)
    (hauthentic : (authenticate provider session message session journal).result = .error fault) :
    (decrypt provider bytes session journal).result = .error fault ∧
      (decrypt provider bytes session journal).state = session := by
  rw [decrypt_of_reaches hbytes hreach, bind_apply_error hauthentic]
  exact ⟨rfl, keepsState_authenticate session message session journal⟩

theorem decrypt_of_authenticate_ok {bytes : Bytes} {message : Message} {journal : Journal}
    {ratchet : Ratchet} {plaintext : Bytes} (hbytes : Message.ofBytes bytes = .ok message)
    (hreach : session.Reaches message.index)
    (hauthentic : (authenticate provider session message session journal).result =
      .ok (ratchet, plaintext)) :
    (decrypt provider bytes session journal).result = .ok (plaintext, message.index) ∧
      (decrypt provider bytes session journal).state = session.takeOver ratchet := by
  rw [decrypt_of_reaches hbytes hreach, bind_apply_ok hauthentic]
  exact ⟨rfl, rfl⟩

/-- **Rejection is atomic.** Whatever the reason, a message that is rejected leaves the session as
it was. -/
theorem state_decrypt_of_error {bytes : Bytes} {journal : Journal} {fault : SessionError}
    (herror : (decrypt provider bytes session journal).result = .error fault) :
    (decrypt provider bytes session journal).state = session := by
  cases hbytes : Message.ofBytes bytes with
  | error fault => rw [decrypt_of_malformed hbytes]
  | ok message =>
    by_cases hreach : session.Reaches message.index
    · cases hauthentic : (authenticate provider session message session journal).result with
      | error fault => exact (decrypt_of_authenticate_error hbytes hreach hauthentic).2
      | ok found =>
        rw [(decrypt_of_authenticate_ok hbytes hreach hauthentic).1] at herror
        cases herror
    · rw [decrypt_of_not_reaches hbytes hreach]

/-- A message is accepted exactly if it can be read, is within reach, and is authentic. -/
theorem result_decrypt_eq_ok_iff {bytes plaintext : Bytes} {index : UInt32} {journal : Journal} :
    (decrypt provider bytes session journal).result = .ok (plaintext, index) ↔
      ∃ message ratchet, Message.ofBytes bytes = .ok message ∧ message.index = index ∧
        session.Reaches index ∧
        (authenticate provider session message session journal).result =
          .ok (ratchet, plaintext) := by
  constructor
  · intro hresult
    cases hbytes : Message.ofBytes bytes with
    | error fault =>
      rw [decrypt_of_malformed hbytes] at hresult
      cases hresult
    | ok message =>
      by_cases hreach : session.Reaches message.index
      · cases hauthentic : (authenticate provider session message session journal).result with
        | error fault =>
          rw [(decrypt_of_authenticate_error hbytes hreach hauthentic).1] at hresult
          cases hresult
        | ok found =>
          rw [(decrypt_of_authenticate_ok hbytes hreach hauthentic).1] at hresult
          cases hresult
          exact ⟨message, found.1, rfl, rfl, hreach, hauthentic⟩
      · rw [decrypt_of_not_reaches hbytes hreach] at hresult
        cases hresult
  · rintro ⟨message, ratchet, hbytes, rfl, hreach, hauthentic⟩
    exact (decrypt_of_authenticate_ok hbytes hreach hauthentic).1

theorem advanceTo_of_authenticate_ok {message : Message} {state : σ} {journal : Journal}
    {ratchet : Ratchet} {plaintext : Bytes}
    (h : (authenticate provider session message state journal).result = .ok (ratchet, plaintext)) :
    ∃ journal', (Ratchet.advanceTo provider message.index session.ratchet journal').result =
        .ok () ∧
      (Ratchet.advanceTo provider message.index session.ratchet journal').state = ratchet := by
  obtain ⟨_, -, h⟩ := result_bind_eq_ok_iff.mp h
  obtain ⟨jumped, hjump, h⟩ := result_bind_eq_ok_iff.mp h
  obtain ⟨_, -, h⟩ := result_bind_eq_ok_iff.mp h
  obtain ⟨_, -, h⟩ := result_bind_eq_ok_iff.mp h
  obtain ⟨⟨_, hok⟩, hstate⟩ := result_onCopy_eq_ok_iff.mp (result_mapError_eq_ok_iff.mp hjump)
  cases h
  exact ⟨_, hok, hstate⟩

/-! ## Independence of the journal -/

theorem answersAlike_messageKeys (h : provider.Steady .hkdf) (ratchet : Ratchet) :
    AnswersAlike (ratchet.messageKeys provider : Action σ RatchetError _)
      (ratchet.messageKeys provider : Action τ RatchetError _) :=
  .bind (.mapError (.request h) _) fun _ ↦ .pure _

section Deterministic

variable (h : provider.Deterministic)

include h

/-- Sessions of the same sender whose ratchets come to the same at a message's index treat the
message alike. -/
private theorem answersAlike_authenticate {session other : Session} {message : Message}
    (hkey : session.signingKey = other.signingKey)
    (hjump : ∀ journal journal',
      (Ratchet.advanceTo provider message.index session.ratchet journal).result =
          (Ratchet.advanceTo provider message.index other.ratchet journal').result ∧
        (Ratchet.advanceTo provider message.index session.ratchet journal).state =
          (Ratchet.advanceTo provider message.index other.ratchet journal').state) :
    AnswersAlike (authenticate provider session message : Action σ SessionError _)
      (authenticate provider other message : Action τ SessionError _) := by
  rw [authenticate, authenticate, hkey]
  refine .bind (.mapError (.request (h _)) _) fun _ ↦ ?_
  refine .bind (.mapError (.onCopy ?_ ?_) _) fun ratchet ↦ ?_
  · exact fun journal journal' ↦ (hjump journal journal').1
  · exact fun journal journal' ↦ (hjump journal journal').2
  refine .bind (.mapError (answersAlike_messageKeys (h _) ratchet) _) fun keys ↦ ?_
  exact .bind (.mapError (.request (h _)) _) fun _ ↦ .pure _

theorem result_decrypt_eq_of_reaches {session other : Session} {bytes : Bytes} {message : Message}
    (hbytes : Message.ofBytes bytes = .ok message) (hkey : session.signingKey = other.signingKey)
    (hreach : session.Reaches message.index) (hreach' : other.Reaches message.index)
    (hjump : ∀ journal journal',
      (Ratchet.advanceTo provider message.index session.ratchet journal).result =
          (Ratchet.advanceTo provider message.index other.ratchet journal').result ∧
        (Ratchet.advanceTo provider message.index session.ratchet journal).state =
          (Ratchet.advanceTo provider message.index other.ratchet journal').state)
    (journal journal' : Journal) :
    (decrypt provider bytes session journal).result =
      (decrypt provider bytes other journal').result := by
  have halike : AnswersAlike (authenticate provider session message : Action Session SessionError _)
      (authenticate provider other message : Action Session SessionError _) :=
    answersAlike_authenticate h hkey hjump
  cases hauthentic : (authenticate provider session message session journal).result with
  | error fault =>
    have hauthentic' := (halike session other journal journal').symm.trans hauthentic
    rw [(decrypt_of_authenticate_error hbytes hreach hauthentic).1,
      (decrypt_of_authenticate_error hbytes hreach' hauthentic').1]
  | ok found =>
    have hauthentic' := (halike session other journal journal').symm.trans hauthentic
    rw [(decrypt_of_authenticate_ok hbytes hreach hauthentic).1,
      (decrypt_of_authenticate_ok hbytes hreach' hauthentic').1]

theorem ignoresJournal_authenticate (session : Session) (message : Message) :
    IgnoresJournal (authenticate provider session message : Action σ SessionError _) :=
  .of_answersAlike (keepsState_authenticate session message)
    (answersAlike_authenticate h rfl
      (Ratchet.ignoresJournal_advanceTo (h _) message.index session.ratchet))

theorem ignoresJournal_decrypt (bytes : Bytes) : IgnoresJournal (decrypt provider bytes) := by
  intro session journal journal'
  cases hbytes : Message.ofBytes bytes with
  | error fault =>
    rw [decrypt_of_malformed hbytes, decrypt_of_malformed hbytes]
    exact ⟨rfl, rfl⟩
  | ok message =>
    by_cases hreach : session.Reaches message.index
    · rw [decrypt_of_reaches hbytes hreach, decrypt_of_reaches hbytes hreach]
      exact (ignoresJournal_authenticate h session message).bind
        (fun _ ↦ .bind (.set _) fun _ ↦ .bind (.log _) fun _ ↦ .pure _) session journal journal'
    · rw [decrypt_of_not_reaches hbytes hreach, decrypt_of_not_reaches hbytes hreach]
      exact ⟨rfl, rfl⟩

end Deterministic

end Session

end GroupSession
