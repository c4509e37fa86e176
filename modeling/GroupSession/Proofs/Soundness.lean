import GroupSession.Proofs.Forward

/-!
# What holds of every session

A session can be made from a key that its sender has signed, from one that another receiver shared,
and from a pickle. However it was made, its ratchet does not stand before the first index the
session knows, and its public key is one. Such a session is *sound*, and messages leave it sound.

## The lowest index

Of an index that lies too low, a session says which is the lowest. A jump knows that as well, but no
message ever gets so far: what is out of reach is sorted out before. So it can be said exactly, and
with any provider, when a session gives this answer, and what it names.
-/

namespace GroupSession

open GroupSession.Action Ed25519

/-- The fault is that of a provider. -/
def RatchetError.IsCrypto (fault : RatchetError) : Prop := ∃ failure, fault = .crypto failure

namespace Ratchet

variable {provider : Provider}

/-! ## How a jump fails -/

private theorem inherited_failsOnly :
    Inherited provider fun _ action ↦ FailsOnly action RatchetError.IsCrypto where
  pure := .pure
  get := .get
  modify := .modify
  hash _ _ := .mapError fun _ _ failure _ ↦ ⟨failure, rfl⟩
  bind := .bind

/-- A jump to an index that does not lie behind the ratchet fails only with the provider. -/
theorem isCrypto_of_advanceTo_error {index : UInt32} {ratchet : Ratchet} {journal : Journal}
    {fault : RatchetError} (hle : ratchet.counter ≤ index)
    (h : (advanceTo provider index ratchet journal).result = .error fault) : fault.IsCrypto := by
  rw [advanceTo_apply, if_neg (UInt32.not_lt.mpr hle)] at h
  split at h
  case isTrue => cases h
  case isFalse =>
    have hparts : FailsOnly (advanceParts provider index (List.finRange 4)) RatchetError.IsCrypto :=
      inherited_failsOnly.advanceParts index _
    exact hparts.bind (fun _ ↦ .log _) ratchet journal fault h

theorem failsOnly_messageKeys {σ : Type} (ratchet : Ratchet) :
    FailsOnly (ratchet.messageKeys provider : Action σ RatchetError _) RatchetError.IsCrypto :=
  .bind (.mapError fun _ _ failure _ ↦ ⟨failure, rfl⟩) fun _ ↦ .pure _

end Ratchet

/-- The fault is none of the index. -/
def SessionError.NotTooLow (fault : SessionError) : Prop :=
  ∀ index lowest, fault ≠ .indexTooLow index lowest

private theorem RatchetError.IsCrypto.notTooLow {fault : RatchetError} (h : fault.IsCrypto) :
    (SessionError.ofRatchet fault).NotTooLow := by
  obtain ⟨failure, rfl⟩ := h
  exact nofun

namespace Session

variable {σ : Type} {provider : Provider} {session : Session}

/-! ## The lowest index -/

/-- Nothing that is checked of a message within reach concerns its index. -/
private theorem failsOnly_authenticate {message : Message}
    (hreach : session.Reaches message.index) :
    FailsOnly (authenticate provider session message : Action σ SessionError _)
      SessionError.NotTooLow := by
  refine .bind (.mapError fun _ _ _ _ ↦ nofun) fun _ ↦ ?_
  refine .bind (.mapError (.onCopy fun _ _ h ↦ ?_)) fun ratchet ↦ ?_
  · exact (Ratchet.isCrypto_of_advanceTo_error hreach.2 h).notTooLow
  refine .bind (.mapError fun state journal fault h ↦ ?_) fun _ ↦ ?_
  · exact (Ratchet.failsOnly_messageKeys ratchet state journal fault h).notTooLow
  · exact .bind (.mapError fun _ _ _ _ ↦ nofun) fun _ ↦ .pure _

theorem result_decrypt_eq_indexTooLow_iff {bytes : Bytes} {index lowest : UInt32}
    {journal : Journal} :
    (decrypt provider bytes session journal).result = .error (.indexTooLow index lowest) ↔
      ∃ message, Message.ofBytes bytes = .ok message ∧ message.index = index ∧
        ¬session.Reaches index ∧ lowest = session.messageIndex := by
  constructor
  · intro h
    cases hbytes : Message.ofBytes bytes with
    | error fault =>
      rw [decrypt_of_malformed hbytes] at h
      cases h
    | ok message =>
      by_cases hreach : session.Reaches message.index
      · cases hauthentic : (authenticate provider session message session journal).result with
        | error fault =>
          rw [(decrypt_of_authenticate_error hbytes hreach hauthentic).1] at h
          cases h
          exact absurd rfl (failsOnly_authenticate hreach _ _ _ hauthentic index lowest)
        | ok found =>
          rw [(decrypt_of_authenticate_ok hbytes hreach hauthentic).1] at h
          cases h
      · rw [decrypt_of_not_reaches hbytes hreach] at h
        cases h
        exact ⟨message, rfl, rfl, hreach, rfl⟩
  · rintro ⟨message, hbytes, rfl, hreach, rfl⟩
    rw [decrypt_of_not_reaches hbytes hreach]

theorem exportKey_apply (index : UInt32) (state : σ) (journal : Journal) :
    (exportKey provider session index state journal).result =
      match (Ratchet.advanceTo provider index session.ratchet journal).result with
      | .ok () =>
        .ok ⟨(Ratchet.advanceTo provider index session.ratchet journal).state,
          session.signingKey.bytes⟩
      | .error fault => .error (.ofRatchet fault) := by
  rw [exportKey, bind_apply]
  simp only [mapError, onCopy]
  cases (Ratchet.advanceTo provider index session.ratchet journal).result <;> rfl

/-- Exactly for the indices behind it, a session says that they lie too low. -/
theorem result_exportKey_eq_indexTooLow_iff {target index lowest : UInt32} {state : σ}
    {journal : Journal} :
    (exportKey provider session target state journal).result =
        .error (.indexTooLow index lowest) ↔
      target = index ∧ index < session.messageIndex ∧ lowest = session.messageIndex := by
  rw [exportKey_apply]
  by_cases hlt : target < session.ratchet.counter
  · rw [Ratchet.advanceTo_apply, if_pos hlt]
    simp only [SessionError.ofRatchet, Except.error.injEq, SessionError.indexTooLow.injEq]
    constructor
    · rintro ⟨rfl, rfl⟩
      exact ⟨rfl, hlt, rfl⟩
    · rintro ⟨rfl, -, rfl⟩
      exact ⟨rfl, rfl⟩
  · constructor
    · intro h
      cases hjump : (Ratchet.advanceTo provider target session.ratchet journal).result with
      | ok _ =>
        rw [hjump] at h
        cases h
      | error fault =>
        rw [hjump] at h
        have hcrypto := Ratchet.isCrypto_of_advanceTo_error (UInt32.not_lt.mp hlt) hjump
        exact absurd (Except.error.inj h) (hcrypto.notTooLow index lowest)
    · rintro ⟨rfl, hindex, -⟩
      exact absurd hindex hlt

/-! ## Soundness -/

/-- What holds of a session however it was made. -/
structure Sound (session : Session) : Prop where
  joined : session.firstKnownIndex ≤ session.messageIndex
  valid : session.signingKey.Valid

theorem Sound.reaches_iff (hsound : session.Sound) {index : UInt32} :
    session.Reaches index ↔ session.messageIndex ≤ index :=
  ⟨fun hreach ↦ hreach.2, fun hle ↦ ⟨UInt32.le_trans hsound.joined hle, hle⟩⟩

/-- Of an index, a sound session says that it lies too low only if that is so. -/
theorem Sound.lowest_of_decrypt (hsound : session.Sound) {bytes : Bytes} {index lowest : UInt32}
    {journal : Journal}
    (h : (decrypt provider bytes session journal).result = .error (.indexTooLow index lowest)) :
    lowest = session.messageIndex ∧ index < lowest := by
  obtain ⟨_, -, -, hreach, rfl⟩ := result_decrypt_eq_indexTooLow_iff.mp h
  rw [hsound.reaches_iff, UInt32.not_le] at hreach
  exact ⟨rfl, hreach⟩

theorem sound_ofRatchet (ratchet : Ratchet) {signer : VerifyingKey} (hvalid : signer.Valid)
    (verified : Bool) : (ofRatchet ratchet signer verified).Sound :=
  ⟨UInt32.le_refl _, hvalid⟩

theorem Sound.takeOver (hsound : session.Sound) {ratchet : Ratchet}
    (hle : session.messageIndex ≤ ratchet.counter) : (session.takeOver ratchet).Sound :=
  ⟨UInt32.le_trans hsound.joined hle, hsound.valid⟩

theorem Sound.decrypt (hsound : session.Sound) (provider : Provider) (bytes : Bytes)
    (journal : Journal) : (decrypt provider bytes session journal).state.Sound := by
  cases hresult : (Session.decrypt provider bytes session journal).result with
  | error fault => rwa [state_decrypt_of_error hresult]
  | ok answer =>
    obtain ⟨hreach, ratchet, hcounter, hstate⟩ := takeOver_of_decrypt_ok hresult
    exact hstate ▸ hsound.takeOver (hcounter.symm ▸ hreach.2)

/-! ## Sessions from keys -/

theorem elim_error_eq_ok_iff {ε α : Type} {value : Option α} {fault : ε} {a : α} :
    value.elim (.error fault) .ok = (.ok a : Except ε α) ↔ value = some a := by
  cases value <;> simp

private theorem valid_of_verifyingKey_ok {material : KeyMaterial} {signer : VerifyingKey}
    (h : material.verifyingKey = .ok signer) : signer.Valid := by
  rw [KeyMaterial.verifyingKey, elim_error_eq_ok_iff] at h
  exact VerifyingKey.valid_of_ofBytes? h

theorem eq_ofRatchet_of_init_ok {key : Bytes} {state : σ} {journal : Journal}
    (h : (init provider key state journal).result = .ok session) :
    ∃ ratchet signer, signer.Valid ∧ session = ofRatchet ratchet signer true := by
  obtain ⟨sessionKey, -, h⟩ := result_bind_eq_ok_iff.mp h
  obtain ⟨signer, hverify, h⟩ := result_bind_eq_ok_iff.mp h
  obtain ⟨_, -, h⟩ := result_bind_eq_ok_iff.mp h
  cases h
  obtain ⟨signer', hsigner, hverify⟩ :=
    result_bind_eq_ok_iff.mp (result_mapError_eq_ok_iff.mp hverify)
  obtain ⟨_, -, hverify⟩ := result_bind_eq_ok_iff.mp hverify
  cases hverify
  rw [result_ofExcept] at hsigner
  exact ⟨_, signer, valid_of_verifyingKey_ok hsigner, rfl⟩

theorem eq_ofRatchet_of_importKey_ok {key : Bytes} {state : σ} {journal : Journal}
    (h : (importKey key state journal).result = .ok session) :
    ∃ ratchet signer, signer.Valid ∧ session = ofRatchet ratchet signer false := by
  obtain ⟨sharedKey, -, h⟩ := result_bind_eq_ok_iff.mp h
  obtain ⟨signer, hsigner, h⟩ := result_bind_eq_ok_iff.mp h
  obtain ⟨_, -, h⟩ := result_bind_eq_ok_iff.mp h
  cases h
  rw [result_ofExcept_mapError_eq_ok_iff] at hsigner
  exact ⟨_, signer, valid_of_verifyingKey_ok hsigner, rfl⟩

end Session

theorem Progress.sound_call {progress : Progress} (hsound : progress.session.Sound)
    (provider : Provider) (call : Call) : (progress.call provider call).session.Sound := by
  rcases session_call_cases provider progress call with hsession | ⟨ratchet, hle, hsession⟩
  · rwa [hsession]
  · rw [hsession]
    exact hsound.takeOver hle

end GroupSession
