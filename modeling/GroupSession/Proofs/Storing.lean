import GroupSession.Proofs.Sending
import GroupSession.Proofs.Soundness
import GroupSession.Proofs.StateFormat

/-!
# Storing and restoring

A session that was stored is restored under the same key, and is the same in every field. So one can
put a session away between any two calls, and go on with the restored one as if nothing had been.

## Two readings

Whether a pickle can be opened depends on the provider, and so does what comes out. A provider that
`Stores` derives the same key each time and opens what it has sealed: then restoring succeeds. A
provider that only `Unseals` may fail at any time, but if it opens what it has sealed, it is with
the right content: then restoring gives the session back, if it gives one at all. Both rest on the
same two facts, that envelope and state are read back as they were written.
-/

namespace GroupSession

open GroupSession.Action Ed25519

/-! ## What is asked of the provider -/

namespace Provider

/-- What was stored can always be restored: the key of a pickle can be derived, and is the same each
time, encryption succeeds, and what was encrypted is decrypted. -/
structure Stores (provider : Provider) : Prop where
  derives : ∀ key (salt : FixedBytes 16), ∃ encryptingKey, ∀ history,
    provider.answer history (.hkdf 32 salt.toList key Pickle.keyInfo) = .ok encryptingKey
  encrypts : provider.Reliable .aeadEncrypt
  opens : provider.Opens

/-- Nothing but what was stored is restored: if the key of a pickle is derived twice, it is the
same, and if what was encrypted is decrypted, it is the plaintext. -/
structure Unseals (provider : Provider) : Prop where
  derives : ∀ history history' key (salt : FixedBytes 16) encryptingKey encryptingKey',
    provider.answer history (.hkdf 32 salt.toList key Pickle.keyInfo) = .ok encryptingKey →
      provider.answer history' (.hkdf 32 salt.toList key Pickle.keyInfo) = .ok encryptingKey' →
        encryptingKey' = encryptingKey
  opens : ∀ history history' key nonce associated plaintext plaintext' content,
    provider.answer history (.aeadEncrypt key nonce associated plaintext) = .ok content →
      provider.answer history' (.aeadDecrypt key nonce associated content) = .ok plaintext' →
        plaintext' = plaintext

theorem Stores.unseals {provider : Provider} (h : provider.Stores) : provider.Unseals where
  derives history history' key salt encryptingKey encryptingKey' hderived hderived' := by
    obtain ⟨_, hderive⟩ := h.derives key salt
    rw [hderive] at hderived hderived'
    exact Except.ok.inj (hderived'.symm.trans hderived)
  opens _ history' _ _ _ _ _ _ hencrypted hdecrypted :=
    Except.ok.inj (hdecrypted.symm.trans (h.opens _ history' _ _ _ _ _ hencrypted))

theorem stores_standard : standard.Stores where
  derives key salt := by
    have hreliable : standard.Reliable .hkdf := reliable_standard (by decide) (by decide)
    have hfeasible : 32 ≤ Hkdf.maxSize := by decide
    obtain ⟨encryptingKey, hderive⟩ :=
      hreliable (.hkdf 32 salt.toList key Pickle.keyInfo) rfl hfeasible []
    exact ⟨encryptingKey, fun history ↦ (deterministic_standard _ _ rfl history).trans hderive⟩
  encrypts := reliable_standard (by decide) (by decide)
  opens := opens_standard

theorem stores_plain : plain.Stores where
  derives key salt := ⟨_, fun _ ↦ rfl⟩
  encrypts := reliable_plain (by decide)
  opens := opens_plain

end Provider

namespace Pickle

variable {σ : Type} {provider : Provider} {key : Bytes} {pickle : Pickle} {saved : SavedState}

/-! ## The envelope -/

theorem length_toBytes (pickle : Pickle) :
    pickle.toBytes.length = pickle.content.ciphertext.length + 57 := by
  simp only [toBytes, List.length_append, List.length_cons, FixedBytes.length_toList]
  omega

theorem ofBytes_of_le {bytes rest : Bytes} (hbytes : bytes = version :: rest)
    (hle : 57 ≤ bytes.length) :
    ofBytes bytes = .ok (fieldsOf bytes hle) := by
  subst hbytes
  have hsize : ¬(version :: rest).length < minSize := Nat.not_lt.mpr hle
  rw [ofBytes, if_neg (fun h ↦ h rfl), dif_neg hsize]

@[simp] theorem ofBytes_toBytes (pickle : Pickle) : ofBytes pickle.toBytes = .ok pickle := by
  have hlength := length_toBytes pickle
  have hversion : pickle.toBytes = version :: _ := rfl
  rw [ofBytes_of_le hversion (by omega), fieldsOf]
  obtain ⟨salt, nonce, ciphertext, tag⟩ := pickle
  -- The four fields in turn: what stands before each of them, and what behind.
  congr
  · exact FixedBytes.slice_eq_of_append [version] (nonce.toList ++ ciphertext ++ tag.toList)
      (by simp [toBytes]) rfl _
  · exact FixedBytes.slice_eq_of_append (version :: salt.toList) (ciphertext ++ tag.toList)
      (by simp [toBytes]) (by simp) _
  · have hbytes : toBytes ⟨salt, nonce, ciphertext, tag⟩ =
        version :: salt.toList ++ nonce.toList ++ (ciphertext ++ tag.toList) := by
      simp [toBytes]
    rw [hlength, Nat.add_sub_cancel, hbytes, List.drop_left' (by simp), List.take_left' rfl]
  · refine FixedBytes.slice_eq_of_append (version :: salt.toList ++ nonce.toList ++ ciphertext) []
      ?_ ?_ _
    · simp [toBytes]
    · simp [hlength]
      omega

/-! ## What a pickle holds -/

/-- In the pickle a state is encrypted under a key, as the provider has answered at some time. -/
def Holds (provider : Provider) (key : Bytes) (pickle : Pickle) (saved : SavedState) : Prop :=
  ∃ history history' encryptingKey,
    provider.answer history (.hkdf 32 pickle.salt.toList key keyInfo) = .ok encryptingKey ∧
      provider.answer history'
        (.aeadEncrypt encryptingKey pickle.nonce associated saved.encode) = .ok pickle.content

/-- A pickle that was made has the salt and the nonce that were drawn, and holds the state. -/
theorem holds_of_make_ok {source : RandomSource} {journal : Journal}
    (h : (make provider key saved source journal).result = .ok pickle) :
    pickle.salt = (source.draw 16).1 ∧ pickle.nonce = ((source.draw 16).2.draw 24).1 ∧
      pickle.Holds provider key saved := by
  obtain ⟨_, hsalt, h⟩ := result_bind_eq_ok_iff.mp h
  cases hsalt
  obtain ⟨_, hnonce, h⟩ := result_bind_eq_ok_iff.mp h
  cases hnonce
  obtain ⟨encryptingKey, hderive, h⟩ := result_bind_eq_ok_iff.mp h
  obtain ⟨content, hencrypt, h⟩ := result_bind_eq_ok_iff.mp h
  cases h
  exact ⟨rfl, rfl, _, _, encryptingKey, result_mapError_eq_ok_iff.mp hderive,
    result_mapError_eq_ok_iff.mp hencrypt⟩

private theorem make_succeeds (h : provider.Stores) (key : Bytes) (saved : SavedState)
    (source : RandomSource) (journal : Journal) :
    ∃ pickle, (make provider key saved source journal).result = .ok pickle := by
  obtain ⟨encryptingKey, hderive⟩ := h.derives key (source.draw 16).1
  obtain ⟨content, hencrypt⟩ := h.encrypts
    (.aeadEncrypt encryptingKey ((source.draw 16).2.draw 24).1 associated saved.encode) rfl trivial
    (.hkdf 32 (source.draw 16).1.toList key keyInfo :: journal.requests)
  refine ⟨⟨(source.draw 16).1, ((source.draw 16).2.draw 24).1, content⟩, ?_⟩
  refine result_bind_eq_ok_iff.mpr ⟨_, rfl, result_bind_eq_ok_iff.mpr ⟨_, rfl, ?_⟩⟩
  refine result_bind_eq_ok_iff.mpr ⟨encryptingKey, ?_, result_bind_eq_ok_iff.mpr ⟨content, ?_, rfl⟩⟩
  · exact result_mapError_eq_ok_iff.mpr (hderive _)
  · exact result_mapError_eq_ok_iff.mpr hencrypt

/-- A pickle is unlocked exactly if it can be read and decrypted, and the state in it is one that
can be read and that a session can have. -/
private theorem result_unlock_eq_ok_iff {bytes : Bytes} {state : σ} {journal : Journal} :
    (unlock provider key bytes state journal).result = .ok saved ↔
      ∃ pickle encryptingKey plaintext, ofBytes bytes = .ok pickle ∧
        provider.answer journal.requests (.hkdf 32 pickle.salt.toList key keyInfo) =
          .ok encryptingKey ∧
        provider.answer (.hkdf 32 pickle.salt.toList key keyInfo :: journal.requests)
          (.aeadDecrypt encryptingKey pickle.nonce associated pickle.content) = .ok plaintext ∧
        SavedState.decode plaintext = .ok saved ∧
        saved.firstKnownIndex ≤ saved.ratchet.counter := by
  constructor
  · intro h
    obtain ⟨pickle, hbytes, h⟩ := result_bind_eq_ok_iff.mp h
    obtain ⟨encryptingKey, hderive, h⟩ := result_bind_eq_ok_iff.mp h
    obtain ⟨plaintext, hdecrypt, h⟩ := result_bind_eq_ok_iff.mp h
    obtain ⟨decoded, hdecode, h⟩ := result_bind_eq_ok_iff.mp h
    dsimp only at h
    split at h
    case isTrue => cases h
    case isFalse hle =>
      cases h
      exact ⟨pickle, encryptingKey, plaintext, hbytes, result_mapError_eq_ok_iff.mp hderive,
        result_mapError_eq_ok_iff.mp hdecrypt, result_ofExcept_mapError_eq_ok_iff.mp hdecode,
        UInt32.not_lt.mp hle⟩
  · rintro ⟨pickle, encryptingKey, plaintext, hbytes, hderive, hdecrypt, hdecode, hle⟩
    refine result_bind_eq_ok_iff.mpr ⟨pickle, hbytes, ?_⟩
    refine result_bind_eq_ok_iff.mpr ⟨encryptingKey, result_mapError_eq_ok_iff.mpr hderive, ?_⟩
    refine result_bind_eq_ok_iff.mpr ⟨plaintext, result_mapError_eq_ok_iff.mpr hdecrypt, ?_⟩
    refine result_bind_eq_ok_iff.mpr
      ⟨saved, result_ofExcept_mapError_eq_ok_iff.mpr hdecode, ?_⟩
    dsimp only
    rw [if_neg (UInt32.not_lt.mpr hle)]
    rfl

section Holds

variable (hholds : pickle.Holds provider key saved)

include hholds

private theorem Holds.unlock (h : provider.Stores)
    (hle : saved.firstKnownIndex ≤ saved.ratchet.counter) (state : σ) (journal : Journal) :
    (unlock provider key pickle.toBytes state journal).result = .ok saved := by
  obtain ⟨history, history', encryptingKey, hderived, hencrypted⟩ := hholds
  obtain ⟨encryptingKey', hderive⟩ := h.derives key pickle.salt
  obtain rfl : encryptingKey' = encryptingKey :=
    Except.ok.inj ((hderive history).symm.trans hderived)
  exact result_unlock_eq_ok_iff.mpr ⟨pickle, encryptingKey', saved.encode, ofBytes_toBytes pickle,
    hderive _, h.opens _ _ _ _ _ _ _ hencrypted, saved.decode_encode, hle⟩

private theorem Holds.eq_of_unlock_ok (h : provider.Unseals) {saved' : SavedState} {state : σ}
    {journal : Journal}
    (hok : (Pickle.unlock provider key pickle.toBytes state journal).result = .ok saved') :
    saved' = saved := by
  obtain ⟨history, history', encryptingKey, hderived, hencrypted⟩ := hholds
  obtain ⟨pickle', encryptingKey', plaintext, hbytes, hderive, hdecrypt, hdecode, -⟩ :=
    result_unlock_eq_ok_iff.mp hok
  obtain rfl := Except.ok.inj ((ofBytes_toBytes pickle).symm.trans hbytes)
  obtain rfl := h.derives _ _ _ _ _ _ hderived hderive
  obtain rfl := h.opens _ _ _ _ _ _ _ _ hencrypted hdecrypt
  exact (Except.ok.inj (saved.decode_encode.symm.trans hdecode)).symm

end Holds

end Pickle

namespace Session

variable {σ : Type} {provider : Provider} {session : Session} {key bytes : Bytes}

/-! ## Sessions in pickles -/

/-- The bytes are a pickle in which the session was stored under the key. -/
def StoredAs (provider : Provider) (session : Session) (key bytes : Bytes) : Prop :=
  ∃ pickle : Pickle, bytes = pickle.toBytes ∧ pickle.Holds provider key session.save

theorem save_injective : Function.Injective save := by
  rintro ⟨ratchet, ⟨key⟩, first, verified⟩ ⟨ratchet', ⟨key'⟩, first', verified'⟩ h
  cases h
  rfl

private theorem restore?_save (hvalid : session.signingKey.Valid) :
    restore? session.save = some session := by
  rw [restore?, save, hvalid]
  rfl

private theorem save_of_restore? {saved : SavedState} (h : restore? saved = some session) :
    session.signingKey.Valid ∧ session.save = saved := by
  obtain ⟨signer, hsigner, rfl⟩ := Option.map_eq_some_iff.mp h
  refine ⟨VerifyingKey.valid_of_ofBytes? hsigner, ?_⟩
  rw [save, VerifyingKey.bytes_of_ofBytes? hsigner]

theorem storedAs_of_pickle_ok {source : RandomSource} {journal : Journal}
    (h : (session.pickle provider key source journal).result = .ok bytes) :
    session.StoredAs provider key bytes := by
  obtain ⟨pickle, hmake, h⟩ := result_bind_eq_ok_iff.mp h
  cases h
  have hholds := (Pickle.holds_of_make_ok (result_mapError_eq_ok_iff.mp hmake)).2.2
  exact ⟨pickle, rfl, hholds⟩

theorem result_unpickle_eq_ok_iff {state : σ} {journal : Journal} :
    (unpickle provider key bytes state journal).result = .ok session ↔
      session.signingKey.Valid ∧
        (Pickle.unlock provider key bytes state journal).result = .ok session.save := by
  constructor
  · intro h
    obtain ⟨saved, hunlock, h⟩ := result_bind_eq_ok_iff.mp h
    obtain ⟨restored, hrestore, h⟩ := result_bind_eq_ok_iff.mp h
    obtain ⟨_, -, h⟩ := result_bind_eq_ok_iff.mp h
    cases h
    rw [result_ofExcept, elim_error_eq_ok_iff] at hrestore
    obtain ⟨hvalid, rfl⟩ := save_of_restore? hrestore
    exact ⟨hvalid, result_mapError_eq_ok_iff.mp hunlock⟩
  · rintro ⟨hvalid, hunlock⟩
    refine result_bind_eq_ok_iff.mpr ⟨session.save, result_mapError_eq_ok_iff.mpr hunlock, ?_⟩
    refine result_bind_eq_ok_iff.mpr ⟨session, ?_, rfl⟩
    rw [result_ofExcept, elim_error_eq_ok_iff]
    exact restore?_save hvalid

/-- A session that was restored is sound, from whatever bytes. -/
theorem sound_of_unpickle_ok {state : σ} {journal : Journal}
    (h : (unpickle provider key bytes state journal).result = .ok session) : session.Sound := by
  obtain ⟨hvalid, hunlock⟩ := result_unpickle_eq_ok_iff.mp h
  obtain ⟨_, _, _, -, -, -, -, hjoined⟩ := Pickle.result_unlock_eq_ok_iff.mp hunlock
  exact ⟨hjoined, hvalid⟩

private theorem StoredAs.unpickle (hstored : session.StoredAs provider key bytes)
    (h : provider.Stores) (hsound : session.Sound) (state : σ) (journal : Journal) :
    (Session.unpickle provider key bytes state journal).result = .ok session := by
  obtain ⟨pickle, rfl, hholds⟩ := hstored
  exact result_unpickle_eq_ok_iff.mpr ⟨hsound.valid, hholds.unlock h hsound.joined state journal⟩

theorem StoredAs.eq_of_unpickle_ok (hstored : session.StoredAs provider key bytes)
    (h : provider.Unseals) {restored : Session} {state : σ} {journal : Journal}
    (hok : (Session.unpickle provider key bytes state journal).result = .ok restored) :
    restored = session := by
  obtain ⟨pickle, rfl, hholds⟩ := hstored
  obtain ⟨hvalid, hunlock⟩ := result_unpickle_eq_ok_iff.mp hok
  exact save_injective (hholds.eq_of_unlock_ok h hunlock)

private theorem pickle_succeeds (h : provider.Stores) (session : Session) (key : Bytes)
    (source : RandomSource) (journal : Journal) :
    ∃ pickle : Pickle, pickle.salt = (source.draw 16).1 ∧
      pickle.nonce = ((source.draw 16).2.draw 24).1 ∧
      (session.pickle provider key source journal).result = .ok pickle.toBytes := by
  obtain ⟨pickle, hmake⟩ := Pickle.make_succeeds h key session.save source journal
  obtain ⟨hsalt, hnonce, -⟩ := Pickle.holds_of_make_ok hmake
  refine ⟨pickle, hsalt, hnonce, ?_⟩
  exact result_bind_eq_ok_iff.mpr ⟨pickle, result_mapError_eq_ok_iff.mpr hmake, rfl⟩

end Session

/-! ## Putting a session away -/

/-- A step of a run in which the session is put away now and then. -/
inductive Step
  /-- A call. -/
  | call (call : Call)
  /-- The session is stored under a key, with random bytes from a source, and restored. -/
  | putAway (key : Bytes) (source : RandomSource)

/-- The call that a step makes, if it makes one. -/
def Step.call? : Step → Option Call
  | .call made => some made
  | .putAway .. => none

namespace Progress

variable {provider : Provider}

/-- Stores the session under a key, and goes on with the one that is restored, if there is one. -/
def putAway (provider : Provider) (progress : Progress) (key : Bytes) (source : RandomSource) :
    Option Progress :=
  let stored := progress.session.pickle provider key source progress.journal
  match stored.result with
  | .error _ => none
  | .ok bytes =>
    let restored := Session.unpickle provider key bytes () stored.journal
    match restored.result with
    | .error _ => none
    | .ok session => some { progress with session, journal := restored.journal }

/-- What the calls of a run are answered with; when a session is lost, nothing more is answered. -/
def repliesOfSteps (provider : Provider) : Progress → List Step → List Reply
  | _, [] => []
  | progress, .call call :: steps =>
    progress.reply provider call :: repliesOfSteps provider (progress.call provider call) steps
  | progress, .putAway key source :: steps =>
    match progress.putAway provider key source with
    | none => []
    | some next => repliesOfSteps provider next steps

private theorem putAway_eq (h : provider.Stores) (progress : Progress)
    (hsound : progress.session.Sound) (key : Bytes) (source : RandomSource) :
    ∃ journal, progress.putAway provider key source = some { progress with journal } := by
  obtain ⟨pickle, -, -, hpickle⟩ :=
    Session.pickle_succeeds h progress.session key source progress.journal
  let stored := progress.session.pickle provider key source progress.journal
  have hunpickle := (Session.storedAs_of_pickle_ok hpickle).unpickle h hsound () stored.journal
  refine ⟨(Session.unpickle provider key pickle.toBytes () stored.journal).journal, ?_⟩
  simp only [putAway, hpickle, stored, hunpickle]

private theorem repliesOfSteps_eq (h : provider.Stores) (hdeterministic : provider.Deterministic)
    (progress : Progress) (hsound : progress.session.Sound) (steps : List Step) :
    progress.repliesOfSteps provider steps =
      progress.replies provider (steps.filterMap Step.call?) := by
  induction steps generalizing progress with
  | nil => rfl
  | cons step steps ih =>
    cases step with
    | call call =>
      rw [List.filterMap_cons_some (show Step.call? (.call call) = some call from rfl), replies,
        repliesOfSteps, ih _ (sound_call hsound provider call)]
    | putAway key source =>
      obtain ⟨journal, hputAway⟩ := putAway_eq h progress hsound key source
      have hsession : { progress with journal }.session = progress.session := rfl
      simp only [repliesOfSteps, hputAway]
      rw [List.filterMap_cons_none (show Step.call? (.putAway key source) = none from rfl),
        ih { progress with journal } hsound]
      -- Only the journal has changed, which the answers do not depend on.
      exact replies_eq hdeterministic hsession _

end Progress

namespace Session

/-- **A session that was stored is restored.** With a provider that stores, any sound session can be
stored under any key, in bytes of the known form, and unpickling them gives it back, in every field.
So with a provider that moreover does not look back, putting the session away between the calls of a
run, as often as one likes, changes none of the answers. -/
theorem unpickle_pickle (provider : Provider) (h : provider.Stores) (session : Session)
    (hsound : session.Sound) :
    (∀ key source journal, ∃ content : Sealed,
      let bytes : Bytes :=
        1 :: (source.draw 16).1.toList ++ ((source.draw 16).2.draw 24).1.toList ++
          content.ciphertext ++ content.tag.toList
      (session.pickle provider key source journal).result = .ok bytes ∧
        ∀ journal', (unpickle provider key bytes () journal').result = .ok session) ∧
    (provider.Deterministic → ∀ steps journal,
      Progress.repliesOfSteps provider ⟨session, journal, []⟩ steps =
        Progress.replies provider ⟨session, journal, []⟩ (steps.filterMap Step.call?)) := by
  refine ⟨fun key source journal ↦ ?_, fun hdeterministic steps journal ↦ ?_⟩
  · obtain ⟨⟨salt, nonce, content⟩, rfl, rfl, hpickle⟩ :=
      pickle_succeeds h session key source journal
    refine ⟨content, hpickle, fun journal' ↦ ?_⟩
    exact (storedAs_of_pickle_ok hpickle).unpickle h hsound () journal'
  · exact Progress.repliesOfSteps_eq h hdeterministic _ hsound steps

/-- A session that has moved, stored under the empty key: its counter takes five bytes, the first
index three. It is put away after its key was passed on, and before it refuses to go back. -/
theorem unpickle_pickle_standard :
    let session : Session := {
      ratchet := Ratchet.ofBytes (FixedBytes.zero 128) 0x10000
      signingKey := ⟨FixedBytes.zero 32⟩
      firstKnownIndex := 300
      verified := true }
    let source := RandomSource.ofSeed (FixedBytes.zero 32)
    (∃ bytes, (session.pickle .standard [] source {}).result = .ok bytes ∧
      (unpickle .standard [] bytes () {}).result = .ok session) ∧
    Progress.repliesOfSteps .standard ⟨session, {}, []⟩
        [.call (.exportKey 0x10001), .putAway [] source, .call (.exportKey 0xffff)] =
      Progress.replies .standard ⟨session, {}, []⟩ [.exportKey 0x10001, .exportKey 0xffff] := by
  intro session source
  have hsound : session.Sound := ⟨by decide, by decide +kernel⟩
  obtain ⟨hstored, hsteps⟩ := unpickle_pickle .standard Provider.stores_standard session hsound
  obtain ⟨_, hpickle, hunpickle⟩ := hstored [] source {}
  exact ⟨⟨_, hpickle, hunpickle {}⟩, hsteps Provider.deterministic_standard _ {}⟩

end Session

end GroupSession
