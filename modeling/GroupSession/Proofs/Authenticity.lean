import GroupSession.Proofs.Checks
import GroupSession.Proofs.Soundness

/-!
# Exactly the authentic messages

A session is given bytes from anyone. This file says of all bytes, and with any provider, whether
they are decrypted, to which text, what the session becomes, and if they are not, for which reason.
What is said about the bytes is said about the places in them, not about what was read from them.

## One stage after the other

Bytes spell a message, its index lies not behind the session, the sender has signed it, a copy of
the ratchet comes to its index, has keys there, and the text can be decrypted with them. Each of
these stages presupposes the ones before it: what a provider is asked, and when, depends on what it
has answered. So for each stage there is one way to fail at it, and a session whose ratchet does not
stand before its first index fails in no other way.

## Requests

The signature is asked for first. Hashes, keys and text come in this order behind it, and nothing is
asked for behind a refusal. So bytes that the sender has not signed cost one request.
-/

namespace GroupSession

open GroupSession.Action

namespace Ratchet

variable {provider : Provider}

/-! ## The requests of a jump -/

theorem inherited_stopsAtRefusal :
    Inherited provider fun _ ↦ StopsAtRefusal provider (· = .hmacSha256) where
  pure := .pure
  get := .get
  modify := .modify
  hash _ _ := by
    refine .mapError (.request ?_) _
    rfl
  bind := .bind

section AdvanceTo

variable {index : UInt32} {ratchet : Ratchet} {journal : Journal}

theorem answeredAll_of_advanceTo_ok
    (hok : (advanceTo provider index ratchet journal).result = .ok ()) :
    provider.AnsweredAll (· = .hmacSha256) journal.requests
      (advanceTo provider index ratchet journal).journal.requests := by
  rw [advanceTo_apply] at hok ⊢
  split at hok
  case isTrue => cases hok
  case isFalse hle =>
    rw [if_neg hle]
    split at hok
    case isTrue heq =>
      rw [if_pos heq]
      exact .none
    case isFalse hne =>
      rw [if_neg hne]
      exact ((inherited_stopsAtRefusal.advanceParts index _).bind fun _ ↦ .log _).of_ok hok

/-- A jump that fails, to an index that does not lie behind, has failed at a hash. -/
theorem refusedLast_of_advanceTo_error {fault : RatchetError} (hle : ratchet.counter ≤ index)
    (herror : (advanceTo provider index ratchet journal).result = .error fault) :
    provider.RefusedLast (· = .hmacSha256) journal.requests
      (advanceTo provider index ratchet journal).journal.requests := by
  rw [advanceTo_apply, if_neg (UInt32.not_lt.mpr hle)] at herror ⊢
  split at herror
  case isTrue => cases herror
  case isFalse hne =>
    rw [if_neg hne]
    exact ((inherited_stopsAtRefusal.advanceParts index _).bind fun _ ↦ .log _).of_error herror

/-- If no hash fails, a jump to an index that does not lie behind succeeds, whether or not the
hashes are the same each time. -/
theorem result_advanceTo_of_reliable (hreliable : provider.Reliable .hmacSha256)
    (hle : ratchet.counter ≤ index) :
    (advanceTo provider index ratchet journal).result = .ok () := by
  cases hjump : (advanceTo provider index ratchet journal).result with
  | ok => rfl
  | error fault => exact absurd hreliable (refusedLast_of_advanceTo_error hle hjump).not_reliable

end AdvanceTo

/-! ## The request for keys -/

/-- What is asked to get the keys at the index of the ratchet. -/
abbrev keysRequest (ratchet : Ratchet) : Request :=
  .hkdf 56 [] ratchet.toBytes.toList messageKeysInfo

section MessageKeys

variable {σ ε α : Type} {ratchet : Ratchet} {rename : RatchetError → ε}
  {next : FixedBytes 32 × FixedBytes 24 → Action σ ε α} {state : σ} {journal : Journal}

private theorem messageKeys_bind_of_ok {material : FixedBytes 56}
    (h : provider.answer journal.requests ratchet.keysRequest = .ok material) :
    (mapError rename (ratchet.messageKeys provider) >>= next) state journal =
      next (material.cut 0 32 (by decide), material.cut 32 24 (by decide)) state
        (journal.ask ratchet.keysRequest) :=
  mapError_bind_of_ok (request_bind_of_ok h)

private theorem messageKeys_bind_of_error {failure : Failure}
    (h : provider.answer journal.requests ratchet.keysRequest = .error failure) :
    (mapError rename (ratchet.messageKeys provider) >>= next) state journal =
      ⟨.error (rename (.crypto failure)), state, journal.ask ratchet.keysRequest⟩ :=
  mapError_bind_of_error (request_bind_of_error h)

end MessageKeys

end Ratchet

/-- Bytes that a session is given to decrypt. -/
structure Attempt where
  /-- What is asked. -/
  provider : Provider
  /-- The session as it was before. -/
  session : Session
  /-- Everything that happened before. -/
  journal : Journal
  /-- The bytes. -/
  bytes : Bytes

namespace Attempt

/-! ## The requests for a message -/

section Requests

variable (attempt : Attempt) (message : Message) (material : FixedBytes 56)

/-- What is asked about the signature: whether the sender has made it for all bytes before it. -/
abbrev signatureRequest : Request :=
  .verify attempt.session.signingKey (attempt.bytes.take (attempt.bytes.length - 64))
    message.signature

/-- The jump of a copy of the ratchet, once the signature was asked for. -/
abbrev jump : Outcome Ratchet RatchetError Unit :=
  Ratchet.advanceTo attempt.provider message.index attempt.session.ratchet
    (attempt.journal.ask (attempt.signatureRequest message))

/-- What is asked to get the keys, once the copy has jumped. -/
abbrev keysRequest : Request := (attempt.jump message).state.keysRequest

/-- All requests up to the one for the keys. -/
abbrev askedForKeys : List Request :=
  attempt.keysRequest message :: (attempt.jump message).journal.requests

/-- What is asked to get the text, with the keys that some material consists of. -/
abbrev textRequest : Request :=
  .aeadDecrypt (material.cut 0 32 (Nat.le_add_right 32 24)) (material.cut 32 24 (Nat.le_refl 56))
    (attempt.bytes.take 5) ⟨message.ciphertext, message.mac⟩

end Requests

/-! ## The stages -/

/-- The bytes spell a message whose index does not lie behind the session. -/
structure InReach (attempt : Attempt) (message : Message) : Prop where
  spells : Message.Spells attempt.bytes message
  reached : attempt.session.messageIndex ≤ message.index

/-- Moreover, the sender has signed them. -/
structure FromSender (attempt : Attempt) (message : Message) : Prop
    extends attempt.InReach message where
  signed : attempt.provider.answer attempt.journal.requests (attempt.signatureRequest message) =
    .ok ()

/-- Moreover, a copy of the ratchet comes to the index. -/
structure Jumped (attempt : Attempt) (message : Message) : Prop
    extends attempt.FromSender message where
  jumped : (attempt.jump message).result = .ok ()

/-- Moreover, there are keys at the index. -/
structure Keyed (attempt : Attempt) (message : Message) (material : FixedBytes 56) : Prop
    extends attempt.Jumped message where
  derived : attempt.provider.answer (attempt.jump message).journal.requests
    (attempt.keysRequest message) = .ok material

/-- Moreover, they decrypt the text. -/
structure Authentic (attempt : Attempt) (message : Message) (material : FixedBytes 56)
    (plaintext : Bytes) : Prop extends attempt.Keyed message material where
  decrypted : attempt.provider.answer (attempt.askedForKeys message)
    (attempt.textRequest message material) = .ok plaintext

/-- What a session answers to authentic bytes, what it becomes, and which requests have been made
in the end. -/
inductive Accepted (attempt : Attempt) : Bytes × UInt32 → Session → List Request → Prop
  | authentic {message : Message} {material : FixedBytes 56} {plaintext : Bytes}
    (h : attempt.Authentic message material plaintext) :
    Accepted attempt (plaintext, message.index)
      { attempt.session with ratchet := (attempt.jump message).state, verified := true }
      (attempt.textRequest message material :: attempt.askedForKeys message)

/-- Why a session rejects all other bytes, and which requests have been made in the end. The reasons
stand in the order of the stages. -/
inductive Rejected (attempt : Attempt) : SessionError → List Request → Prop
  | malformed {cause : MessageError} (h : Message.Malformed attempt.bytes cause) :
    Rejected attempt (.malformedMessage cause) attempt.journal.requests
  | outOfReach {message : Message} (h : Message.Spells attempt.bytes message)
    (hlt : message.index < attempt.session.messageIndex) :
    Rejected attempt (.indexTooLow message.index attempt.session.messageIndex)
      attempt.journal.requests
  | unsigned {message : Message} {failure : Failure} (h : attempt.InReach message)
    (hanswer : attempt.provider.answer attempt.journal.requests
      (attempt.signatureRequest message) = .error failure) :
    Rejected attempt .signature (attempt.signatureRequest message :: attempt.journal.requests)
  | stuck {message : Message} {failure : Failure} (h : attempt.FromSender message)
    (hjump : (attempt.jump message).result = .error (.crypto failure)) :
    Rejected attempt (.crypto failure) (attempt.jump message).journal.requests
  | keyless {message : Message} {failure : Failure} (h : attempt.Jumped message)
    (hanswer : attempt.provider.answer (attempt.jump message).journal.requests
      (attempt.keysRequest message) = .error failure) :
    Rejected attempt (.crypto failure) (attempt.askedForKeys message)
  | unauthentic {message : Message} {material : FixedBytes 56} {failure : Failure}
    (h : attempt.Keyed message material)
    (hanswer : attempt.provider.answer (attempt.askedForKeys message)
      (attempt.textRequest message material) = .error failure) :
    Rejected attempt .macMismatch
      (attempt.textRequest message material :: attempt.askedForKeys message)

/-! ## What authenticating comes to -/

/-- All that a session does with the bytes. -/
def outcome (attempt : Attempt) : Outcome Session SessionError (Bytes × UInt32) :=
  Session.decrypt attempt.provider attempt.bytes attempt.session attempt.journal

/-- What is checked of a message behind its index. -/
def authenticated (attempt : Attempt) (message : Message) :
    Outcome Session SessionError (Ratchet × Bytes) :=
  Session.authenticate attempt.provider attempt.session message attempt.session attempt.journal

variable {attempt : Attempt} {message : Message} {material : FixedBytes 56} {plaintext : Bytes}
  {failure : Failure}

/-- What is done once a copy of the ratchet has come to the index of a message. -/
def readText {σ : Type} (attempt : Attempt) (message : Message) (ratchet : Ratchet) :
    Action σ SessionError (Ratchet × Bytes) := do
  let keys ← (ratchet.messageKeys attempt.provider).mapError .ofRatchet
  let plaintext : Bytes ←
    (Action.request attempt.provider
      (.aeadDecrypt keys.1 keys.2 (attempt.bytes.take 5)
        ⟨message.ciphertext, message.mac⟩)).mapError fun _ ↦ .macMismatch
  return (ratchet, plaintext)

private theorem authenticated_of_spells (h : Message.Spells attempt.bytes message) :
    attempt.authenticated message =
      ((Action.request attempt.provider (attempt.signatureRequest message)).mapError
          (fun _ ↦ .signature) >>=
        fun _ ↦ (Action.onCopy (Ratchet.advanceTo attempt.provider message.index)
          attempt.session.ratchet).mapError .ofRatchet >>=
        attempt.readText message : Action Session SessionError (Ratchet × Bytes))
          attempt.session attempt.journal := by
  obtain ⟨-, hsigned, hheader⟩ := Message.eq_take_of_ofBytes_ok (Message.ofBytes_eq_ok_iff.mpr h)
  rw [authenticated, Session.authenticate, hsigned, hheader]
  rfl

private theorem authenticated_of_unsigned (h : attempt.InReach message)
    (hanswer : attempt.provider.answer attempt.journal.requests
      (attempt.signatureRequest message) = .error failure) :
    attempt.authenticated message =
      ⟨.error .signature, attempt.session,
        attempt.journal.ask (attempt.signatureRequest message)⟩ := by
  rw [authenticated_of_spells h.spells]
  exact request_bind_of_error hanswer

private theorem authenticated_of_stuck (h : attempt.FromSender message) {fault : RatchetError}
    (hjump : (attempt.jump message).result = .error fault) :
    attempt.authenticated message =
      ⟨.error (.ofRatchet fault), attempt.session, (attempt.jump message).journal⟩ := by
  rw [authenticated_of_spells h.spells, request_bind_of_ok h.signed]
  exact onCopy_bind_of_error hjump

private theorem authenticated_of_jumped (h : attempt.Jumped message) :
    attempt.authenticated message =
      attempt.readText message (attempt.jump message).state attempt.session
        (attempt.jump message).journal := by
  rw [authenticated_of_spells h.spells, request_bind_of_ok h.signed]
  exact onCopy_bind_of_ok h.jumped

private theorem authenticated_of_keyless (h : attempt.Jumped message)
    (hanswer : attempt.provider.answer (attempt.jump message).journal.requests
      (attempt.keysRequest message) = .error failure) :
    attempt.authenticated message =
      ⟨.error (.crypto failure), attempt.session,
        (attempt.jump message).journal.ask (attempt.keysRequest message)⟩ := by
  rw [authenticated_of_jumped h]
  exact Ratchet.messageKeys_bind_of_error hanswer

private theorem authenticated_of_unauthentic (h : attempt.Keyed message material)
    (hanswer : attempt.provider.answer (attempt.askedForKeys message)
      (attempt.textRequest message material) = .error failure) :
    attempt.authenticated message =
      ⟨.error .macMismatch, attempt.session,
        ((attempt.jump message).journal.ask (attempt.keysRequest message)).ask
          (attempt.textRequest message material)⟩ := by
  rw [authenticated_of_jumped h.toJumped, readText, Ratchet.messageKeys_bind_of_ok h.derived]
  exact request_bind_of_error hanswer

private theorem authenticated_of_authentic (h : attempt.Authentic message material plaintext) :
    attempt.authenticated message =
      ⟨.ok ((attempt.jump message).state, plaintext), attempt.session,
        ((attempt.jump message).journal.ask (attempt.keysRequest message)).ask
          (attempt.textRequest message material)⟩ := by
  rw [authenticated_of_jumped h.toJumped, readText, Ratchet.messageKeys_bind_of_ok h.derived]
  exact request_bind_of_ok h.decrypted

/-! ## Every attempt -/

private theorem accepted_or_rejected (attempt : Attempt) :
    (∃ answer after requests, attempt.Accepted answer after requests) ∨
      ∃ fault requests, attempt.Rejected fault requests := by
  rcases Message.spells_or_malformed attempt.bytes with ⟨message, hspells⟩ | ⟨cause, hmalformed⟩
  case inr => exact .inr ⟨_, _, .malformed hmalformed⟩
  by_cases hle : attempt.session.messageIndex ≤ message.index
  case neg => exact .inr ⟨_, _, .outOfReach hspells (UInt32.not_le.mp hle)⟩
  have hreach : attempt.InReach message := ⟨hspells, hle⟩
  cases hsigned : attempt.provider.answer attempt.journal.requests
    (attempt.signatureRequest message) with
  | error failure => exact .inr ⟨_, _, .unsigned hreach hsigned⟩
  | ok _ =>
    have hsender : attempt.FromSender message := ⟨hreach, hsigned⟩
    cases hjump : (attempt.jump message).result with
    | error fault =>
      obtain ⟨failure, rfl⟩ := Ratchet.isCrypto_of_advanceTo_error hle hjump
      exact .inr ⟨_, _, .stuck hsender hjump⟩
    | ok _ =>
      have hjumped : attempt.Jumped message := ⟨hsender, hjump⟩
      cases hkeys : attempt.provider.answer (attempt.jump message).journal.requests
        (attempt.keysRequest message) with
      | error failure => exact .inr ⟨_, _, .keyless hjumped hkeys⟩
      | ok material =>
        have hkeyed : attempt.Keyed message material := ⟨hjumped, hkeys⟩
        cases htext : attempt.provider.answer (attempt.askedForKeys message)
          (attempt.textRequest message material) with
        | error failure => exact .inr ⟨_, _, .unauthentic hkeyed htext⟩
        | ok plaintext => exact .inl ⟨_, _, _, .authentic ⟨hkeyed, htext⟩⟩

section Joined

variable (hjoined : attempt.session.firstKnownIndex ≤ attempt.session.messageIndex)

include hjoined

private theorem InReach.reaches (h : attempt.InReach message) :
    attempt.session.Reaches message.index :=
  ⟨UInt32.le_trans hjoined h.reached, h.reached⟩

private theorem outcome_of_authenticated_error (h : attempt.InReach message) {fault : SessionError}
    {journal : Journal}
    (hauthenticated : attempt.authenticated message = ⟨.error fault, attempt.session, journal⟩) :
    attempt.outcome = ⟨.error fault, attempt.session, journal⟩ := by
  have hbytes := Message.ofBytes_eq_ok_iff.mpr h.spells
  rw [authenticated] at hauthenticated
  rw [outcome, Session.decrypt_of_reaches hbytes (h.reaches hjoined), bind_apply, hauthenticated]

private theorem outcome_of_accepted {answer : Bytes × UInt32} {after : Session}
    {requests : List Request} (h : attempt.Accepted answer after requests) :
    attempt.outcome.result = .ok answer ∧ attempt.outcome.state = after ∧
      attempt.outcome.journal.requests = requests := by
  obtain ⟨h⟩ := h
  have hbytes := Message.ofBytes_eq_ok_iff.mpr h.spells
  have hauthenticated := authenticated_of_authentic h
  rw [authenticated] at hauthenticated
  rw [outcome, Session.decrypt_of_reaches hbytes (h.reaches hjoined), bind_apply, hauthenticated]
  exact ⟨rfl, rfl, rfl⟩

private theorem outcome_of_rejected {fault : SessionError} {requests : List Request}
    (h : attempt.Rejected fault requests) :
    attempt.outcome.result = .error fault ∧ attempt.outcome.state = attempt.session ∧
      attempt.outcome.journal.requests = requests := by
  cases h with
  | malformed h =>
    rw [outcome, Session.decrypt_of_malformed h.ofBytes_eq]
    exact ⟨rfl, rfl, rfl⟩
  | outOfReach h hlt =>
    have hreach := fun hreach : attempt.session.Reaches _ ↦ UInt32.not_lt.mpr hreach.2 hlt
    rw [outcome, Session.decrypt_of_not_reaches (Message.ofBytes_eq_ok_iff.mpr h) hreach]
    exact ⟨rfl, rfl, rfl⟩
  | unsigned h hanswer =>
    rw [outcome_of_authenticated_error hjoined h (authenticated_of_unsigned h hanswer)]
    exact ⟨rfl, rfl, rfl⟩
  | stuck h hjump =>
    rw [outcome_of_authenticated_error hjoined h.toInReach (authenticated_of_stuck h hjump)]
    exact ⟨rfl, rfl, rfl⟩
  | keyless h hanswer =>
    rw [outcome_of_authenticated_error hjoined h.toInReach (authenticated_of_keyless h hanswer)]
    exact ⟨rfl, rfl, rfl⟩
  | unauthentic h hanswer =>
    rw [outcome_of_authenticated_error hjoined h.toInReach
      (authenticated_of_unauthentic h hanswer)]
    exact ⟨rfl, rfl, rfl⟩

private theorem decidesExactly_outcome :
    DecidesExactly attempt.outcome attempt.session attempt.Accepted attempt.Rejected :=
  .of_cases (fun _ _ _ ↦ outcome_of_accepted hjoined) (fun _ _ ↦ outcome_of_rejected hjoined)
    attempt.accepted_or_rejected

end Joined

/-! ## Which requests are made -/

private theorem FromSender.answeredAll (h : attempt.FromSender message) :
    attempt.provider.AnsweredAll (· ≠ .aeadEncrypt) attempt.journal.requests
      (attempt.journal.ask (attempt.signatureRequest message)).requests :=
  .ask .none nofun h.signed

private theorem Jumped.answeredAll (h : attempt.Jumped message) :
    attempt.provider.AnsweredAll (· ≠ .aeadEncrypt) attempt.journal.requests
      (attempt.jump message).journal.requests := by
  have hhashes := Ratchet.answeredAll_of_advanceTo_ok h.jumped
  exact h.toFromSender.answeredAll.trans (hhashes.mono fun _ hkind ↦ hkind ▸ by decide)

private theorem Keyed.answeredAll (h : attempt.Keyed message material) :
    attempt.provider.AnsweredAll (· ≠ .aeadEncrypt) attempt.journal.requests
      (attempt.askedForKeys message) :=
  .ask h.toJumped.answeredAll nofun h.derived

private theorem Accepted.answeredAll {answer : Bytes × UInt32} {after : Session}
    {requests : List Request} (h : attempt.Accepted answer after requests) :
    attempt.provider.AnsweredAll (· ≠ .aeadEncrypt) attempt.journal.requests requests := by
  obtain ⟨h⟩ := h
  exact .ask h.toKeyed.answeredAll nofun h.decrypted

/-- Bytes are rejected before anything is asked, or else because of the request made last. -/
private theorem Rejected.refusedLast {fault : SessionError} {requests : List Request}
    (h : attempt.Rejected fault requests) :
    requests = attempt.journal.requests ∨
      attempt.provider.RefusedLast (· ≠ .aeadEncrypt) attempt.journal.requests requests := by
  cases h with
  | malformed h => exact .inl rfl
  | outOfReach h hlt => exact .inl rfl
  | unsigned h hanswer => exact .inr (.intro .none nofun hanswer)
  | stuck h hjump =>
    have hhashes := Ratchet.refusedLast_of_advanceTo_error h.reached hjump
    exact .inr (.trans h.answeredAll (hhashes.mono fun _ hkind ↦ hkind ▸ by decide))
  | keyless h hanswer => exact .inr (.intro h.answeredAll nofun hanswer)
  | unauthentic h hanswer => exact .inr (.intro h.answeredAll nofun hanswer)

/-- The kinds of all requests that are made for authentic bytes, in this order. -/
def kindsInOrder (hashes : Nat) : List Primitive :=
  .verify :: List.replicate hashes .hmacSha256 ++ [.hkdf, .aeadDecrypt]

/-- Since the attempt began, requests were made in the right order, perhaps not all of them. -/
def AsksInOrder (attempt : Attempt) (requests : List Request) : Prop :=
  ∃ kinds hashes, MadeSince attempt.journal.requests kinds requests ∧ kinds <+: kindsInOrder hashes

/-- If a jump has only made hashes, then up to its end the signature and hashes were asked for. -/
private theorem madeSince_jump
    (h : ∃ made : List Request, (attempt.jump message).journal.requests =
        made ++ (attempt.journal.ask (attempt.signatureRequest message)).requests ∧
      ∀ request ∈ made, request.primitive = .hmacSha256) :
    ∃ hashes, MadeSince attempt.journal.requests (.verify :: List.replicate hashes .hmacSha256)
      (attempt.jump message).journal.requests :=
  ((MadeSince.none _).ask (attempt.signatureRequest message)).exists_replicate h

private theorem Jumped.madeSince (h : attempt.Jumped message) :
    ∃ hashes, MadeSince attempt.journal.requests (.verify :: List.replicate hashes .hmacSha256)
      (attempt.jump message).journal.requests :=
  madeSince_jump (Ratchet.answeredAll_of_advanceTo_ok h.jumped).exists_append

private theorem Accepted.asksInOrder {answer : Bytes × UInt32} {after : Session}
    {requests : List Request}
    (h : attempt.Accepted answer after requests) : attempt.AsksInOrder requests := by
  obtain ⟨h⟩ := h
  obtain ⟨hashes, hjump⟩ := h.toJumped.madeSince
  refine ⟨_, hashes, (hjump.ask _).ask _, ?_⟩
  rw [List.append_assoc]
  exact List.prefix_rfl

private theorem Rejected.asksInOrder {fault : SessionError} {requests : List Request}
    (h : attempt.Rejected fault requests) : attempt.AsksInOrder requests := by
  cases h with
  | malformed h => exact ⟨[], 0, .none _, List.nil_prefix⟩
  | outOfReach h hlt => exact ⟨[], 0, .none _, List.nil_prefix⟩
  | unsigned h hanswer => exact ⟨_, 0, (MadeSince.none _).ask _, List.prefix_append _ _⟩
  | stuck h hjump =>
    have hhashes := Ratchet.refusedLast_of_advanceTo_error h.reached hjump
    obtain ⟨hashes, hjump⟩ := madeSince_jump hhashes.exists_append
    exact ⟨_, hashes, hjump, List.prefix_append _ _⟩
  | keyless h hanswer =>
    obtain ⟨hashes, hjump⟩ := h.madeSince
    refine ⟨_, hashes, hjump.ask _, ?_⟩
    exact (List.prefix_append_right_inj _).mpr (List.prefix_append [Primitive.hkdf] _)
  | unauthentic h hanswer =>
    obtain ⟨hashes, hjump⟩ := h.toJumped.madeSince
    refine ⟨_, hashes, (hjump.ask _).ask _, ?_⟩
    rw [List.append_assoc]
    exact List.prefix_rfl

end Attempt

namespace Session

/-- **Exactly the authentic messages are decrypted.** With any provider, a session that does not
stand before its first index accepts exactly the bytes that pass all stages, and then answers with
their text and index and takes over the ratchet at this index, knowing its sender. Any other bytes
are rejected for the first stage they do not pass, and change nothing. Signature, hashes, keys and
text are asked for in this order, and nothing behind a refusal. -/
theorem decrypt_decides_exactly (provider : Provider) (session : Session)
    (hjoined : session.firstKnownIndex ≤ session.messageIndex) (bytes : Bytes)
    (journal : Journal) :
    let attempt : Attempt := ⟨provider, session, journal, bytes⟩
    let outcome := decrypt provider bytes session journal
    DecidesExactly outcome session attempt.Accepted attempt.Rejected ∧
    (∀ plaintext index, outcome.result = .ok (plaintext, index) →
      outcome.state.messageIndex = index ∧
        provider.AnsweredAll (· ≠ .aeadEncrypt) journal.requests outcome.journal.requests) ∧
    (∀ fault, outcome.result = .error fault →
      outcome.journal.requests = journal.requests ∨
        provider.RefusedLast (· ≠ .aeadEncrypt) journal.requests outcome.journal.requests) ∧
    attempt.AsksInOrder outcome.journal.requests := by
  intro attempt outcome
  have hdecides : DecidesExactly outcome session attempt.Accepted attempt.Rejected :=
    @Attempt.decidesExactly_outcome attempt hjoined
  refine ⟨hdecides, fun plaintext index hok ↦ ⟨(messageIndex_decrypt_of_ok hok).2, ?_⟩,
    fun fault herror ↦ ?_, ?_⟩
  · exact (hdecides.accepts_of_ok _ hok).answeredAll
  · exact (hdecides.rejects_of_error fault herror).1.refusedLast
  · cases hresult : outcome.result with
    | ok answer => exact (hdecides.accepts_of_ok answer hresult).asksInOrder
    | error fault => exact (hdecides.rejects_of_error fault hresult).1.asksInOrder

/-- The provider that answers with zeros, and to which every text is its own encryption. -/
def zeros : Provider := .ofFunction fun
  | .verify .. => .ok ()
  | .hmacSha256 .. => .ok (.zero 32)
  | .hkdf size .. => .ok (.zero size)
  | .aeadEncrypt _ _ _ plaintext => .ok ⟨plaintext, .zero 16⟩
  | .aeadDecrypt _ _ _ given => .ok given.ciphertext

/-- The same, until it fails at a request of some kind. -/
def zerosUntil (primitive : Primitive) (count : Nat) : Provider :=
  zeros.failingAfter primitive count ⟨"out of order"⟩

/-- A session with nothing but zeros in its ratchet. -/
def zeroed (counter : UInt32) : Session :=
  .ofRatchet (Ratchet.ofBytes (FixedBytes.zero 128) counter) ⟨FixedBytes.zero 32⟩ false

/-- A message in whose index the last byte starts anew. -/
def overCarry : Message := ⟨0x100, [7], FixedBytes.zero 16, FixedBytes.zero 64⟩

/-- The message is decrypted by a session before it. It is not when the text, the second hash or the
signature is refused, when the session stands one index behind it, or when a byte is missing. -/
theorem decrypt_decides_over_carry :
    (decrypt zeros overCarry.toBytes (zeroed 254) {}).result = .ok ([7], overCarry.index) ∧
      (decrypt (zerosUntil .aeadDecrypt 0) overCarry.toBytes (zeroed 254) {}).result =
        .error .macMismatch ∧
      (decrypt (zerosUntil .hmacSha256 1) overCarry.toBytes (zeroed 254) {}).result =
        .error (.crypto ⟨"out of order"⟩) ∧
      (decrypt (zerosUntil .verify 0) overCarry.toBytes (zeroed 254) {}).result =
        .error .signature ∧
      (decrypt zeros overCarry.toBytes (zeroed 0x101) {}).result =
        .error (.indexTooLow overCarry.index 0x101) ∧
      (decrypt zeros (overCarry.toBytes.take 84) (zeroed 254) {}).result =
        .error (.malformedMessage (.tooShort 84)) := by
  have hdecides (provider : Provider) (counter : UInt32) (bytes : Bytes) :=
    (decrypt_decides_exactly provider (zeroed counter) (UInt32.le_refl _) bytes {}).1
  have hspells : Message.Spells overCarry.toBytes overCarry :=
    Message.ofBytes_eq_ok_iff.mp (Message.ofBytes_toBytes overCarry)
  have hle : (zeroed 254).messageIndex ≤ overCarry.index := by decide
  have hlt : overCarry.index < (zeroed 0x101).messageIndex := by decide
  have hauthentic : Attempt.Authentic ⟨zeros, zeroed 254, {}, overCarry.toBytes⟩ overCarry
      (FixedBytes.zero 56) [7] := ⟨⟨⟨⟨⟨hspells, hle⟩, rfl⟩, rfl⟩, rfl⟩, rfl⟩
  have hkeyed : Attempt.Keyed ⟨zerosUntil .aeadDecrypt 0, zeroed 254, {}, overCarry.toBytes⟩
      overCarry (FixedBytes.zero 56) := ⟨⟨⟨⟨hspells, hle⟩, rfl⟩, rfl⟩, rfl⟩
  have hsender : Attempt.FromSender ⟨zerosUntil .hmacSha256 1, zeroed 254, {}, overCarry.toBytes⟩
      overCarry := ⟨⟨hspells, hle⟩, rfl⟩
  refine ⟨?_, ?_, ?_, ?_, ?_, ?_⟩
  · exact ((hdecides _ _ _).ok_iff _).mpr ⟨_, _, .authentic hauthentic⟩
  · exact ((hdecides _ _ _).error_iff _).mpr ⟨_, .unauthentic hkeyed rfl⟩
  · exact ((hdecides _ _ _).error_iff _).mpr ⟨_, .stuck hsender rfl⟩
  · exact ((hdecides _ _ _).error_iff _).mpr ⟨_, .unsigned ⟨hspells, hle⟩ rfl⟩
  · exact ((hdecides _ _ _).error_iff _).mpr ⟨_, .outOfReach hspells hlt⟩
  · exact ((hdecides _ _ _).error_iff _).mpr ⟨_, .malformed (.tooShort rfl (by decide))⟩

end Session

end GroupSession
