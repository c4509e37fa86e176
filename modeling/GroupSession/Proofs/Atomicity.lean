import GroupSession.Proofs.Decryption

/-!
# Runs of calls, and the atomicity of rejection

A session is used over and over: it decrypts what arrives, passes its key on, is stored. A run makes
such calls one after the other, each in the journal that the ones before have left, and none of them
is stopped by a failure before it. It keeps account of the messages that were accepted.

## Atomicity

Jumping is not atomic: a ratchet whose keyed hash fails half way is left with some parts changed.
Decrypting is atomic all the same, because the jump is made with a copy. So a session changes with
the messages that it accepts and with nothing else, and a run in which none is accepted might as
well not have been.
-/

namespace GroupSession

open GroupSession.Action

/-- A call on a session. -/
inductive Call
  /-- Decrypts a message. -/
  | decrypt (bytes : Bytes)
  /-- Makes the key to join the session from an index on. -/
  | exportKey (index : UInt32)
  /-- Stores the session under a key, with random bytes from a source. -/
  | pickle (key : Bytes) (source : RandomSource)

/-- A message that was accepted, and the answer. -/
structure Acceptance where
  /-- The message. -/
  bytes : Bytes
  /-- Its text. -/
  plaintext : Bytes
  /-- Its index. -/
  index : UInt32
deriving DecidableEq

/-- What a call is answered with. -/
inductive Reply
  /-- A text and its index. -/
  | decrypted (result : Except SessionError (Bytes × UInt32))
  /-- A key to join with. -/
  | exported (result : Except SessionError ExportedSessionKey)
  /-- What to store. -/
  | pickled (result : Except SessionError Bytes)

/-- How far a run of calls has come. -/
structure Progress where
  /-- The session. -/
  session : Session
  /-- Everything that has happened. -/
  journal : Journal
  /-- The messages that were accepted, the latest first. -/
  accepted : List Acceptance := []

namespace Progress

variable {provider : Provider} {progress : Progress}

/-- Makes one more call. -/
def call (provider : Provider) (progress : Progress) : Call → Progress
  | .decrypt bytes =>
    let outcome := Session.decrypt provider bytes progress.session progress.journal
    { session := outcome.state
      journal := outcome.journal
      accepted := match outcome.result with
        | .ok (plaintext, index) => ⟨bytes, plaintext, index⟩ :: progress.accepted
        | .error _ => progress.accepted }
  | .exportKey index =>
    let outcome := progress.session.exportKey provider index () progress.journal
    { progress with journal := outcome.journal }
  | .pickle key source =>
    let outcome := progress.session.pickle provider key source progress.journal
    { progress with journal := outcome.journal }

/-- Makes calls one after the other. -/
def run (provider : Provider) (progress : Progress) (calls : List Call) : Progress :=
  calls.foldl (call provider) progress

/-- What one more call is answered with. -/
def reply (provider : Provider) (progress : Progress) : Call → Reply
  | .decrypt bytes =>
    .decrypted (Session.decrypt provider bytes progress.session progress.journal).result
  | .exportKey index =>
    .exported (progress.session.exportKey provider index () progress.journal).result
  | .pickle key source =>
    .pickled (progress.session.pickle provider key source progress.journal).result

/-- What the calls of a run are answered with, in the order of the calls. -/
def replies (provider : Provider) : Progress → List Call → List Reply
  | _, [] => []
  | progress, call :: calls =>
    progress.reply provider call :: replies provider (progress.call provider call) calls

/-! ## What one call does -/

theorem call_of_error {bytes : Bytes} {fault : SessionError}
    (h : (Session.decrypt provider bytes progress.session progress.journal).result =
      .error fault) :
    (progress.call provider (.decrypt bytes)).session = progress.session ∧
      (progress.call provider (.decrypt bytes)).accepted = progress.accepted := by
  refine ⟨Session.state_decrypt_of_error h, ?_⟩
  simp only [call, h]

theorem call_of_ok {bytes plaintext : Bytes} {index : UInt32}
    (h : (Session.decrypt provider bytes progress.session progress.journal).result =
      .ok (plaintext, index)) :
    (progress.call provider (.decrypt bytes)).session =
        (Session.decrypt provider bytes progress.session progress.journal).state ∧
      (progress.call provider (.decrypt bytes)).accepted =
        ⟨bytes, plaintext, index⟩ :: progress.accepted := by
  refine ⟨rfl, ?_⟩
  simp only [call, h]

/-- A call that accepts nothing leaves the session as it was. -/
theorem call_cases (provider : Provider) (progress : Progress) (call : Call) :
    (progress.call provider call).session = progress.session ∧
        (progress.call provider call).accepted = progress.accepted ∨
      ∃ bytes plaintext index, call = .decrypt bytes ∧
        (Session.decrypt provider bytes progress.session progress.journal).result =
          .ok (plaintext, index) := by
  cases call with
  | decrypt bytes =>
    cases hresult : (Session.decrypt provider bytes progress.session progress.journal).result with
    | error fault => exact .inl (call_of_error hresult)
    | ok answer => exact .inr ⟨bytes, answer.1, answer.2, rfl, hresult⟩
  | exportKey index => exact .inl ⟨rfl, rfl⟩
  | pickle key source => exact .inl ⟨rfl, rfl⟩

private theorem accepted_suffix_call (provider : Provider) (progress : Progress) (call : Call) :
    progress.accepted <:+ (progress.call provider call).accepted := by
  rcases call_cases provider progress call with ⟨-, haccepted⟩ | ⟨bytes, _, _, rfl, hresult⟩
  · exact haccepted.symm ▸ List.suffix_rfl
  · rw [(call_of_ok hresult).2]
    exact List.suffix_cons _ _

private theorem accepted_suffix_run (provider : Provider) (progress : Progress)
    (calls : List Call) :
    progress.accepted <:+ (progress.run provider calls).accepted :=
  List.foldlRecOn (motive := fun middle ↦ progress.accepted <:+ middle.accepted) calls _
    List.suffix_rfl fun middle h call _ ↦ h.trans (accepted_suffix_call provider middle call)

/-! ## Runs that accept nothing -/

private theorem session_run_of_accepted_eq {calls : List Call}
    (h : (progress.run provider calls).accepted = progress.accepted) :
    (progress.run provider calls).session = progress.session := by
  induction calls generalizing progress with
  | nil => rfl
  | cons call calls ih =>
    -- Accepted messages are never taken off the list, so the first call accepted none either.
    have hsuffix := accepted_suffix_run provider (progress.call provider call) calls
    rcases call_cases provider progress call with ⟨hsession, haccepted⟩ | ⟨bytes, _, _, rfl, hok⟩
    · rw [← hsession]
      exact ih (h.trans haccepted.symm)
    · have hlength := hsuffix.length_le
      have hfinal : ((progress.call provider (.decrypt bytes)).run provider calls).accepted =
          progress.accepted := h
      rw [hfinal, (call_of_ok hok).2, List.length_cons] at hlength
      omega

end Progress

/-! ## Calls that do not look back -/

section Deterministic

variable {provider : Provider} (h : provider.Deterministic)

include h

theorem Session.ignoresJournal_exportKey (session : Session) (index : UInt32) :
    IgnoresJournal (session.exportKey provider index : Action Unit SessionError _) := by
  have hjump := Ratchet.ignoresJournal_advanceTo (h _) index session.ratchet
  refine .bind (.mapError (.of_answersAlike (.onCopy _ _) ?_) _) fun _ ↦ .pure _
  exact .onCopy (fun journal journal' ↦ (hjump journal journal').1)
    fun journal journal' ↦ (hjump journal journal').2

theorem Session.ignoresJournal_pickle (session : Session) (key : Bytes) :
    IgnoresJournal (session.pickle provider key) := by
  refine .bind (.mapError ?_ _) fun _ ↦ .pure _
  refine .bind (.modifyGet _) fun _ ↦ .bind (.modifyGet _) fun _ ↦ ?_
  refine .bind (.mapError (.request (h _)) _) fun _ ↦ ?_
  exact .bind (.mapError (.request (h _)) _) fun _ ↦ .pure _

namespace Progress

variable {progress other : Progress}

private theorem session_call_eq (hsession : progress.session = other.session) (call : Call) :
    (progress.call provider call).session = (other.call provider call).session := by
  cases call with
  | decrypt bytes =>
    simp only [Progress.call, hsession]
    exact (Session.ignoresJournal_decrypt h bytes _ _ _).2
  | exportKey index => exact hsession
  | pickle key source => exact hsession

private theorem reply_eq (hsession : progress.session = other.session) (call : Call) :
    progress.reply provider call = other.reply provider call := by
  cases call with
  | decrypt bytes =>
    simp only [reply, hsession]
    exact congrArg Reply.decrypted (Session.ignoresJournal_decrypt h bytes _ _ _).1
  | exportKey index =>
    simp only [reply, hsession]
    exact congrArg Reply.exported (Session.ignoresJournal_exportKey h _ index _ _ _).1
  | pickle key source =>
    simp only [reply, hsession]
    exact congrArg Reply.pickled (Session.ignoresJournal_pickle h _ key _ _ _).1

/-- What a session answers does not depend on what else has happened. -/
theorem replies_eq (hsession : progress.session = other.session) (calls : List Call) :
    progress.replies provider calls = other.replies provider calls := by
  induction calls generalizing progress other with
  | nil => rfl
  | cons call calls ih =>
    rw [replies, replies, reply_eq h hsession, ih (session_call_eq h hsession call)]

end Progress

end Deterministic

namespace Session

/-- **Rejected calls leave no trace.** With any provider, which may fail at any request, a message
that is rejected leaves the session as it was. So after a run of calls in which none was accepted,
whatever was passed on or stored in between, the session is the same; and with a provider that does
not look back it does with any bytes what it would have done without the run. -/
theorem decrypt_after_rejections (provider : Provider) (session : Session) :
    (∀ bytes journal fault, (decrypt provider bytes session journal).result = .error fault →
      (decrypt provider bytes session journal).state = session) ∧
    ∀ (calls : List Call) (journal : Journal),
      (Progress.run provider ⟨session, journal, []⟩ calls).accepted = [] →
        (Progress.run provider ⟨session, journal, []⟩ calls).session = session ∧
        ∀ later : Provider, later.Deterministic → ∀ bytes,
          let after := Progress.run provider ⟨session, journal, []⟩ calls
          (decrypt later bytes after.session after.journal).result =
              (decrypt later bytes session journal).result ∧
            (decrypt later bytes after.session after.journal).state =
              (decrypt later bytes session journal).state := by
  refine ⟨fun _ _ _ ↦ state_decrypt_of_error, fun calls journal hrejected ↦ ?_⟩
  have hsession := Progress.session_run_of_accepted_eq hrejected
  refine ⟨hsession, fun later hlater bytes ↦ ?_⟩
  intro after
  rw [hsession]
  exact ignoresJournal_decrypt hlater bytes session _ _

/-- A message two steps ahead, whose second hash fails; then the session is stored, and its key
passed on. -/
theorem decrypt_after_hash_failure :
    let answers : Provider := .ofFunction fun
      | .verify .. => .ok ()
      | .hmacSha256 .. => .ok (FixedBytes.zero 32)
      | _ => .error ⟨"no answer"⟩
    let session : Session :=
      ofRatchet (Ratchet.ofBytes (FixedBytes.zero 128) 0) ⟨FixedBytes.zero 32⟩ true
    let message : Bytes := Message.toBytes ⟨2, [], FixedBytes.zero 16, FixedBytes.zero 64⟩
    let after := Progress.run (answers.failingAfter .hmacSha256 1 ⟨"too late"⟩) ⟨session, {}, []⟩
      [.decrypt message, .pickle [] (.ofSeed (FixedBytes.zero 32)), .exportKey 0]
    after.journal.requests.map Request.primitive = [.hkdf, .hmacSha256, .hmacSha256, .verify] ∧
      after.accepted = [] ∧ after.session = session ∧
      (decrypt answers message after.session after.journal).result =
        (decrypt answers message session {}).result := by
  intro answers session message after
  have hrejected : after.accepted = [] := by decide +kernel
  obtain ⟨hsession, hlater⟩ := (decrypt_after_rejections _ session).2 _ {} hrejected
  exact ⟨by decide +kernel, hrejected, hsession,
    (hlater answers (Provider.deterministic_ofFunction _) message).1⟩

end Session

end GroupSession
