import GroupSession.Proofs.Checks
import GroupSession.Proofs.Storing

/-!
# Exactly the sound pickles

A stored session may have been kept anywhere, and what comes back from there may be anything. This
file says of all bytes, under any key and with any provider, whether a session is restored from
them, which one, and if none is, for which reason.

## The stages

Bytes spell a pickle, a key can be derived for it, it opens under that key, what it holds can be
read as a state, the ratchet in it does not stand before its first index, and the public key in it
is one. Each stage presupposes the ones before it, and for each there is one way to fail at it; for
the first there are three. Only two of the stages ask the provider, the second and the third.
-/

namespace GroupSession

open GroupSession.Action Ed25519 Cbor

namespace Pickle

/-! ## Bytes that spell a pickle -/

/-- The bytes are long enough for a pickle and have its version, and at their places, counted from
one of both ends, stand the fields of this one. -/
structure Spells (bytes : Bytes) (pickle : Pickle) : Prop where
  version : bytes.head? = some 1
  length : 57 ≤ bytes.length
  salt : pickle.salt.toList = (bytes.drop 1).take 16
  nonce : pickle.nonce.toList = (bytes.drop 17).take 24
  ciphertext : pickle.content.ciphertext = (bytes.drop 41).take (bytes.length - 57)
  tag : pickle.content.tag.toList = bytes.drop (bytes.length - 16)

section Bytes

variable {bytes : Bytes}

private theorem spells_fieldsOf (hversion : bytes.head? = some version) (hle : 57 ≤ bytes.length) :
    Spells bytes (fieldsOf bytes hle) where
  version := hversion
  length := hle
  salt := rfl
  nonce := rfl
  ciphertext := rfl
  tag := by
    have hlength : (bytes.drop (bytes.length - 16)).length ≤ 16 := by
      rw [List.length_drop]
      omega
    exact List.take_of_length_le hlength

theorem Spells.unique {pickle other : Pickle} (h : Spells bytes pickle)
    (hother : Spells bytes other) : pickle = other := by
  obtain ⟨salt, nonce, ciphertext, tag⟩ := pickle
  obtain ⟨salt', nonce', ciphertext', tag'⟩ := other
  obtain rfl : salt = salt' := FixedBytes.ext (h.salt.trans hother.salt.symm)
  obtain rfl : nonce = nonce' := FixedBytes.ext (h.nonce.trans hother.nonce.symm)
  obtain rfl : ciphertext = ciphertext' := h.ciphertext.trans hother.ciphertext.symm
  obtain rfl : tag = tag' := FixedBytes.ext (h.tag.trans hother.tag.symm)
  rfl

private theorem Spells.ofBytes_eq {pickle : Pickle} (h : Spells bytes pickle) :
    ofBytes bytes = .ok pickle := by
  obtain ⟨rest, hrest⟩ := List.head?_eq_some_iff.mp h.version
  have hfields := spells_fieldsOf h.version h.length
  exact (ofBytes_of_le hrest h.length).trans (congrArg Except.ok (hfields.unique h))

private theorem ofBytes_of_head?_ne {first : UInt8} (hfirst : bytes.head? = some first)
    (hne : first ≠ version) : ofBytes bytes = .error (.unsupportedVersion first) := by
  obtain ⟨rest, rfl⟩ := List.head?_eq_some_iff.mp hfirst
  rw [ofBytes, if_pos hne]

private theorem ofBytes_of_lt (hversion : bytes.head? = some version) (hlt : bytes.length < 57) :
    ofBytes bytes = .error (.malformed (.tooShort bytes.length)) := by
  obtain ⟨rest, rfl⟩ := List.head?_eq_some_iff.mp hversion
  have hsize : (version :: rest).length < minSize := hlt
  rw [ofBytes, if_neg (fun h ↦ h rfl), dif_pos hsize]

end Bytes

/-- What is asked to open a pickle. -/
abbrev contentRequest (pickle : Pickle) (encryptingKey : FixedBytes 32) : Request :=
  .aeadDecrypt encryptingKey pickle.nonce [1] pickle.content

end Pickle

/-- Bytes from which a session should be restored. -/
structure Restoration where
  /-- What is asked. -/
  provider : Provider
  /-- The key under which the session was stored. -/
  key : Bytes
  /-- Everything that happened before. -/
  journal : Journal
  /-- The bytes. -/
  bytes : Bytes

namespace Restoration

/-! ## The requests for a pickle -/

section Requests

variable (restoration : Restoration) (pickle : Pickle) (encryptingKey : FixedBytes 32)

/-- What is asked to get the key that the pickle is encrypted under. -/
abbrev keyRequest : Request := .hkdf 32 pickle.salt.toList restoration.key Pickle.keyInfo

/-- All requests up to that one. -/
abbrev askedForKey : List Request :=
  restoration.keyRequest pickle :: restoration.journal.requests

/-- All requests up to the one to open the pickle. -/
abbrev askedForContent : List Request :=
  pickle.contentRequest encryptingKey :: restoration.askedForKey pickle

end Requests

/-! ## The stages -/

/-- The bytes spell a pickle, and there is a key for it. -/
structure Keyed (restoration : Restoration) (pickle : Pickle) (encryptingKey : FixedBytes 32) :
    Prop where
  spells : Pickle.Spells restoration.bytes pickle
  derived : restoration.provider.answer restoration.journal.requests
    (restoration.keyRequest pickle) = .ok encryptingKey

/-- Moreover, the pickle opens under the key. -/
structure Opened (restoration : Restoration) (pickle : Pickle) (encryptingKey : FixedBytes 32)
    (plaintext : Bytes) : Prop extends restoration.Keyed pickle encryptingKey where
  opened : restoration.provider.answer (restoration.askedForKey pickle)
    (pickle.contentRequest encryptingKey) = .ok plaintext

/-- Moreover, it holds a state. -/
structure Decoded (restoration : Restoration) (pickle : Pickle) (encryptingKey : FixedBytes 32)
    (plaintext : Bytes) (saved : SavedState) : Prop
    extends restoration.Opened pickle encryptingKey plaintext where
  decoded : SavedState.decode plaintext = .ok saved

/-- Moreover, the ratchet in the state does not stand before its first index. -/
structure Consistent (restoration : Restoration) (pickle : Pickle) (encryptingKey : FixedBytes 32)
    (plaintext : Bytes) (saved : SavedState) : Prop
    extends restoration.Decoded pickle encryptingKey plaintext saved where
  joined : saved.firstKnownIndex ≤ saved.ratchet.counter

/-- Which session is restored, and which requests have been made in the end: the fields of the
session are those of the state, if the public key is one. -/
inductive Accepted (restoration : Restoration) {σ : Type} (state : σ) :
    Session → σ → List Request → Prop
  | sound {pickle : Pickle} {encryptingKey : FixedBytes 32} {plaintext : Bytes}
    {saved : SavedState} (h : restoration.Consistent pickle encryptingKey plaintext saved)
    (hvalid : VerifyingKey.Valid ⟨saved.signingKey⟩) :
    Accepted restoration state
      ⟨saved.ratchet, ⟨saved.signingKey⟩, saved.firstKnownIndex, saved.verified⟩ state
      (restoration.askedForContent pickle encryptingKey)

/-- Why no session is restored, and which requests have been made in the end. The reasons stand in
the order of the stages. -/
inductive Rejected (restoration : Restoration) : SessionError → List Request → Prop
  | empty (hbytes : restoration.bytes = []) :
    Rejected restoration (.malformedPickle (.tooShort 0)) restoration.journal.requests
  | otherVersion {first : UInt8} (hfirst : restoration.bytes.head? = some first)
    (hne : first ≠ 1) :
    Rejected restoration (.unsupportedVersion first) restoration.journal.requests
  | tooShort (hversion : restoration.bytes.head? = some 1)
    (hlt : restoration.bytes.length < 57) :
    Rejected restoration (.malformedPickle (.tooShort restoration.bytes.length))
      restoration.journal.requests
  | keyless {pickle : Pickle} {failure : Failure} (h : Pickle.Spells restoration.bytes pickle)
    (hanswer : restoration.provider.answer restoration.journal.requests
      (restoration.keyRequest pickle) = .error failure) :
    Rejected restoration (.crypto failure) (restoration.askedForKey pickle)
  | locked {pickle : Pickle} {encryptingKey : FixedBytes 32} {failure : Failure}
    (h : restoration.Keyed pickle encryptingKey)
    (hanswer : restoration.provider.answer (restoration.askedForKey pickle)
      (pickle.contentRequest encryptingKey) = .error failure) :
    Rejected restoration .badPickleKey (restoration.askedForContent pickle encryptingKey)
  | unreadable {pickle : Pickle} {encryptingKey : FixedBytes 32} {plaintext : Bytes}
    {cause : DecodeError} (h : restoration.Opened pickle encryptingKey plaintext)
    (hdecode : SavedState.decode plaintext = .error cause) :
    Rejected restoration (.malformedPickle (.decode cause))
      (restoration.askedForContent pickle encryptingKey)
  | inconsistent {pickle : Pickle} {encryptingKey : FixedBytes 32} {plaintext : Bytes}
    {saved : SavedState} (h : restoration.Decoded pickle encryptingKey plaintext saved)
    (hlt : saved.ratchet.counter < saved.firstKnownIndex) :
    Rejected restoration (.malformedPickle (.invalidState .indexBehindFirstKnown))
      (restoration.askedForContent pickle encryptingKey)
  | invalidKey {pickle : Pickle} {encryptingKey : FixedBytes 32} {plaintext : Bytes}
    {saved : SavedState} (h : restoration.Consistent pickle encryptingKey plaintext saved)
    (hvalid : ¬VerifyingKey.Valid ⟨saved.signingKey⟩) :
    Rejected restoration (.malformedPickle (.invalidState .invalidSigningKey))
      (restoration.askedForContent pickle encryptingKey)

/-! ## What unlocking comes to -/

/-- What is done with the content of a pickle that could be opened. -/
def readState {σ : Type} (plaintext : Bytes) : Action σ PickleError SavedState :=
  Action.ofExcept ((SavedState.decode plaintext).mapError (.malformed <| .decode ·)) >>=
    fun saved ↦
      if saved.ratchet.counter < saved.firstKnownIndex then
        throw (.malformed (.invalidState .indexBehindFirstKnown))
      else return saved

/-- What is done before the public key is looked at. -/
def unlocked (restoration : Restoration) {σ : Type} (state : σ) :
    Outcome σ PickleError SavedState :=
  Pickle.unlock restoration.provider restoration.key restoration.bytes state restoration.journal

/-- All that is done with the bytes. -/
def outcome (restoration : Restoration) {σ : Type} (state : σ) : Outcome σ SessionError Session :=
  Session.unpickle restoration.provider restoration.key restoration.bytes state
    restoration.journal

variable {σ : Type} {state : σ} {restoration : Restoration} {pickle : Pickle}
  {encryptingKey : FixedBytes 32} {plaintext : Bytes} {saved : SavedState} {failure : Failure}

private theorem unlocked_of_ofBytes_error {cause : PickleError}
    (h : Pickle.ofBytes restoration.bytes = .error cause) :
    restoration.unlocked state = ⟨.error cause, state, restoration.journal⟩ := by
  rw [unlocked, Pickle.unlock, h]
  rfl

/-- A pickle that bytes spell is unlocked with two requests, and then what it holds is read. -/
private theorem unlocked_of_spells (h : Pickle.Spells restoration.bytes pickle) :
    restoration.unlocked state =
      ((Action.request restoration.provider (restoration.keyRequest pickle)).mapError .crypto >>=
        fun encryptingKey ↦
          (Action.request restoration.provider
            (pickle.contentRequest encryptingKey)).mapError (fun _ ↦ .badKey) >>=
        readState : Action σ PickleError SavedState) state restoration.journal := by
  rw [unlocked, Pickle.unlock, h.ofBytes_eq]
  rfl

private theorem unlocked_of_keyless (h : Pickle.Spells restoration.bytes pickle)
    (hanswer : restoration.provider.answer restoration.journal.requests
      (restoration.keyRequest pickle) = .error failure) :
    restoration.unlocked state =
      ⟨.error (.crypto failure), state,
        restoration.journal.ask (restoration.keyRequest pickle)⟩ := by
  rw [unlocked_of_spells h]
  exact request_bind_of_error hanswer

private theorem unlocked_of_locked (h : restoration.Keyed pickle encryptingKey)
    (hanswer : restoration.provider.answer (restoration.askedForKey pickle)
      (pickle.contentRequest encryptingKey) = .error failure) :
    restoration.unlocked state =
      ⟨.error .badKey, state, (restoration.journal.ask (restoration.keyRequest pickle)).ask
        (pickle.contentRequest encryptingKey)⟩ := by
  rw [unlocked_of_spells h.spells, request_bind_of_ok h.derived]
  exact request_bind_of_error hanswer

private theorem unlocked_of_opened (h : restoration.Opened pickle encryptingKey plaintext) :
    restoration.unlocked state =
      readState plaintext state ((restoration.journal.ask (restoration.keyRequest pickle)).ask
        (pickle.contentRequest encryptingKey)) := by
  rw [unlocked_of_spells h.spells, request_bind_of_ok h.derived, request_bind_of_ok h.opened]

private theorem unlocked_of_unreadable (h : restoration.Opened pickle encryptingKey plaintext)
    {cause : DecodeError} (hdecode : SavedState.decode plaintext = .error cause) :
    restoration.unlocked state =
      ⟨.error (.malformed (.decode cause)), state,
        (restoration.journal.ask (restoration.keyRequest pickle)).ask
          (pickle.contentRequest encryptingKey)⟩ := by
  rw [unlocked_of_opened h, readState, hdecode]
  rfl

private theorem unlocked_of_inconsistent
    (h : restoration.Decoded pickle encryptingKey plaintext saved)
    (hlt : saved.ratchet.counter < saved.firstKnownIndex) :
    restoration.unlocked state =
      ⟨.error (.malformed (.invalidState .indexBehindFirstKnown)), state,
        (restoration.journal.ask (restoration.keyRequest pickle)).ask
          (pickle.contentRequest encryptingKey)⟩ := by
  rw [unlocked_of_opened h.toOpened, readState, h.decoded, mapError_ok, ofExcept_ok_bind,
    if_pos hlt]
  rfl

private theorem unlocked_of_consistent
    (h : restoration.Consistent pickle encryptingKey plaintext saved) :
    restoration.unlocked state =
      ⟨.ok saved, state,
        (restoration.journal.ask (restoration.keyRequest pickle)).ask
          (pickle.contentRequest encryptingKey)⟩ := by
  rw [unlocked_of_opened h.toOpened, readState, h.decoded, mapError_ok, ofExcept_ok_bind,
    if_neg (UInt32.not_lt.mpr h.joined)]
  rfl

/-! ## Every restoration -/

private theorem outcome_of_unlocked_error {cause : PickleError} {journal : Journal}
    (h : restoration.unlocked state = ⟨.error cause, state, journal⟩) :
    restoration.outcome state = ⟨.error (.ofPickle cause), state, journal⟩ := by
  rw [outcome, Session.unpickle]
  exact mapError_bind_of_error h

private theorem outcome_of_unlocked_ok {journal : Journal}
    (h : restoration.unlocked state = ⟨.ok saved, state, journal⟩) :
    restoration.outcome state =
      (Action.ofExcept ((Session.restore? saved).elim
          (.error (.malformedPickle (.invalidState .invalidSigningKey))) .ok) >>=
        fun session ↦ Action.log (.restored session.id session.messageIndex) >>=
        fun _ ↦ return session : Action σ SessionError Session) state journal := by
  rw [outcome, Session.unpickle]
  exact mapError_bind_of_ok h

private theorem restore?_of_valid (hvalid : VerifyingKey.Valid ⟨saved.signingKey⟩) :
    Session.restore? saved =
      some ⟨saved.ratchet, ⟨saved.signingKey⟩, saved.firstKnownIndex, saved.verified⟩ := by
  have hkey : VerifyingKey.ofBytes? saved.signingKey = some ⟨saved.signingKey⟩ := hvalid
  rw [Session.restore?, hkey]
  rfl

private theorem restore?_of_not_valid (hvalid : ¬VerifyingKey.Valid ⟨saved.signingKey⟩) :
    Session.restore? saved = none := by
  cases hkey : VerifyingKey.ofBytes? saved.signingKey with
  | none =>
    rw [Session.restore?, hkey]
    rfl
  | some signer =>
    have hsigner : signer.Valid := VerifyingKey.valid_of_ofBytes? hkey
    rw [← VerifyingKey.bytes_of_ofBytes? hkey] at hvalid
    exact absurd hsigner hvalid

private theorem outcome_of_accepted {session : Session} {after : σ} {requests : List Request}
    (h : restoration.Accepted state session after requests) :
    (restoration.outcome state).result = .ok session ∧
      (restoration.outcome state).state = after ∧
      (restoration.outcome state).journal.requests = requests := by
  obtain ⟨h, hvalid⟩ := h
  rw [outcome_of_unlocked_ok (unlocked_of_consistent h), restore?_of_valid hvalid]
  exact ⟨rfl, rfl, rfl⟩

private theorem outcome_of_rejected {fault : SessionError} {requests : List Request}
    (h : restoration.Rejected fault requests) :
    (restoration.outcome state).result = .error fault ∧
      (restoration.outcome state).state = state ∧
      (restoration.outcome state).journal.requests = requests := by
  cases h with
  | empty hbytes =>
    have hread : Pickle.ofBytes restoration.bytes = .error (.malformed (.tooShort 0)) :=
      hbytes ▸ rfl
    rw [outcome_of_unlocked_error (unlocked_of_ofBytes_error hread)]
    exact ⟨rfl, rfl, rfl⟩
  | otherVersion hfirst hne =>
    have hread := Pickle.ofBytes_of_head?_ne hfirst hne
    rw [outcome_of_unlocked_error (unlocked_of_ofBytes_error hread)]
    exact ⟨rfl, rfl, rfl⟩
  | tooShort hversion hlt =>
    have hread := Pickle.ofBytes_of_lt hversion hlt
    rw [outcome_of_unlocked_error (unlocked_of_ofBytes_error hread)]
    exact ⟨rfl, rfl, rfl⟩
  | keyless h hanswer =>
    rw [outcome_of_unlocked_error (unlocked_of_keyless h hanswer)]
    exact ⟨rfl, rfl, rfl⟩
  | locked h hanswer =>
    rw [outcome_of_unlocked_error (unlocked_of_locked h hanswer)]
    exact ⟨rfl, rfl, rfl⟩
  | unreadable h hdecode =>
    rw [outcome_of_unlocked_error (unlocked_of_unreadable h hdecode)]
    exact ⟨rfl, rfl, rfl⟩
  | inconsistent h hlt =>
    rw [outcome_of_unlocked_error (unlocked_of_inconsistent h hlt)]
    exact ⟨rfl, rfl, rfl⟩
  | invalidKey h hvalid =>
    rw [outcome_of_unlocked_ok (unlocked_of_consistent h), restore?_of_not_valid hvalid]
    exact ⟨rfl, rfl, rfl⟩

private theorem accepted_or_rejected (restoration : Restoration) (state : σ) :
    (∃ session after requests, restoration.Accepted state session after requests) ∨
      ∃ fault requests, restoration.Rejected fault requests := by
  rcases Bytes.layout_cases 1 57 restoration.bytes with
    hempty | ⟨first, hfirst, hne⟩ | ⟨hversion, hlt⟩ | ⟨hversion, hle⟩
  · exact .inr ⟨_, _, .empty hempty⟩
  · exact .inr ⟨_, _, .otherVersion hfirst hne⟩
  · exact .inr ⟨_, _, .tooShort hversion hlt⟩
  have hspells := Pickle.spells_fieldsOf hversion hle
  cases hkey : restoration.provider.answer restoration.journal.requests
    (restoration.keyRequest _) with
  | error failure => exact .inr ⟨_, _, .keyless hspells hkey⟩
  | ok encryptingKey =>
    have hkeyed : restoration.Keyed _ encryptingKey := ⟨hspells, hkey⟩
    cases hcontent : restoration.provider.answer (restoration.askedForKey _)
      (Pickle.contentRequest _ encryptingKey) with
    | error failure => exact .inr ⟨_, _, .locked hkeyed hcontent⟩
    | ok plaintext =>
      have hopened : restoration.Opened _ encryptingKey plaintext := ⟨hkeyed, hcontent⟩
      cases hdecode : SavedState.decode plaintext with
      | error cause => exact .inr ⟨_, _, .unreadable hopened hdecode⟩
      | ok saved =>
        have hdecoded : restoration.Decoded _ encryptingKey plaintext saved := ⟨hopened, hdecode⟩
        by_cases hjoined : saved.firstKnownIndex ≤ saved.ratchet.counter
        case neg => exact .inr ⟨_, _, .inconsistent hdecoded (UInt32.not_le.mp hjoined)⟩
        by_cases hvalid : VerifyingKey.Valid ⟨saved.signingKey⟩
        case neg => exact .inr ⟨_, _, .invalidKey ⟨hdecoded, hjoined⟩ hvalid⟩
        exact .inl ⟨_, _, _, .sound ⟨hdecoded, hjoined⟩ hvalid⟩

end Restoration

namespace Session

/-- **Exactly the sound pickles are restored.** Under any key and with any provider, a session is
restored exactly from the bytes that pass all stages, and it has the fields of the state that they
hold. From any other bytes none is, for the first stage they do not pass, and no later stage is
entered: whether the provider is asked, and for what, depends on how far the bytes have come. So
whatever the bytes, a session that is restored is sound. -/
theorem unpickle_decides_exactly {σ : Type} (provider : Provider) (key bytes : Bytes) (state : σ)
    (journal : Journal) :
    let restoration : Restoration := ⟨provider, key, journal, bytes⟩
    let outcome := unpickle provider key bytes state journal
    DecidesExactly outcome state (restoration.Accepted state) restoration.Rejected ∧
      ∀ session, outcome.result = .ok session → session.Sound :=
  ⟨.of_cases (fun _ _ _ ↦ Restoration.outcome_of_accepted) (fun _ _ ↦
    Restoration.outcome_of_rejected) (Restoration.accepted_or_rejected _ state),
    fun _ ↦ sound_of_unpickle_ok⟩

/-- Bytes of the smallest size, which open with a state that is sound, with one whose ratchet stands
one index too early, with nothing, or not at all; and bytes of one less. -/
theorem unpickle_decides_at_boundaries :
    let saved (counter : UInt32) : SavedState :=
      ⟨Ratchet.ofBytes (FixedBytes.zero 128) counter, FixedBytes.zero 32, 300, true⟩
    let opens (plaintext : Except Failure Bytes) : Provider := .ofFunction fun
      | .hkdf size .. => .ok (.zero size)
      | .aeadDecrypt .. => plaintext
      | _ => .error ⟨"no answer"⟩
    let restored (plaintext : Except Failure Bytes) (count : Nat) : Except SessionError Session :=
      (unpickle (opens plaintext) [] (1 :: List.replicate count 0) () {}).result
    (∃ session, restored (.ok (saved 300).encode) 56 = .ok session ∧ session.save = saved 300) ∧
      restored (.ok (saved 299).encode) 56 =
        .error (.malformedPickle (.invalidState .indexBehindFirstKnown)) ∧
      restored (.ok []) 56 = .error (.malformedPickle (.decode .endOfInput)) ∧
      restored (.error ⟨"another key"⟩) 56 = .error .badPickleKey ∧
      restored (.ok (saved 300).encode) 55 = .error (.malformedPickle (.tooShort 56)) := by
  intro saved opens restored
  have hdecides (plaintext : Except Failure Bytes) (count : Nat) :=
    (unpickle_decides_exactly (opens plaintext) [] (1 :: List.replicate count 0) () {}).1
  have hle : 57 ≤ (1 :: List.replicate 56 0 : Bytes).length := by decide
  have hkeyed (plaintext : Except Failure Bytes) :
      Restoration.Keyed ⟨opens plaintext, [], {}, 1 :: List.replicate 56 0⟩ _
        (FixedBytes.zero 32) := ⟨Pickle.spells_fieldsOf rfl hle, rfl⟩
  have hdecoded (counter : UInt32) :
      Restoration.Decoded ⟨opens (.ok (saved counter).encode), [], {}, 1 :: List.replicate 56 0⟩ _
        (FixedBytes.zero 32) _ (saved counter) :=
    ⟨⟨hkeyed _, rfl⟩, (saved counter).decode_encode⟩
  have hnothing : SavedState.decode [] = .error .endOfInput :=
    SavedState.decode_of_append_eq_encode (List.nil_append (saved 300).encode)
      (List.cons_ne_nil _ _)
  refine ⟨?_, ?_, ?_, ?_, ?_⟩
  · refine ⟨_, ((hdecides _ 56).ok_iff _).mpr ⟨_, _, .sound ⟨hdecoded 300, ?_⟩ ?_⟩, rfl⟩
    · exact UInt32.le_refl _
    · decide +kernel
  · exact ((hdecides _ 56).error_iff _).mpr ⟨_, .inconsistent (hdecoded 299) (by decide)⟩
  · exact ((hdecides _ 56).error_iff _).mpr ⟨_, .unreadable ⟨hkeyed _, rfl⟩ hnothing⟩
  · exact ((hdecides _ 56).error_iff _).mpr ⟨_, .locked (hkeyed _) rfl⟩
  · exact ((hdecides _ 55).error_iff _).mpr ⟨_, .tooShort rfl (by decide)⟩

end Session

end GroupSession
