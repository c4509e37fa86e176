import GroupSession.Proofs.KeyFormat
import GroupSession.Proofs.PublicKey
import GroupSession.Proofs.Sending
import GroupSession.Proofs.Soundness

/-!
# Joining with any bytes

The bytes that a receiver joins a session with may have come from anywhere. Whether they make a
session, which one, and what is said of them if they make none, is settled here for all bytes, of
any length, and for any provider.

## Two formats, one place for the key

A signed key and a shared one have the same layout up to the end of the public key. Bytes that have
the version and the length of a format, and a public key at its place, are the written form of a
key, since ratchet and index may be anything. So it is enough to look at keys that were written.

## The first fault

All other bytes have a first thing that is wrong with them: version, then length, then public key.
It does not matter what comes after, nor what the provider says. Only when nothing is wrong, and the
key is a signed one, the provider is asked about the signature.
-/

namespace GroupSession

open GroupSession.Action Ed25519

/-- Bytes of a format that have a public key at its place. -/
structure Names (version : UInt8) (size : Nat) (bytes : Bytes) (signer : VerifyingKey) : Prop where
  version : bytes.head? = some version
  length : bytes.length = size
  valid : signer.Valid
  place : (bytes.drop 133).take 32 = signer.bytes.toList

/-- What is wrong, first of all, with bytes that have no public key in a format. -/
inductive FirstFault (version : UInt8) (size : Nat) (bytes : Bytes) : SessionKeyError → Prop
  | unknownVersion {first : UInt8} (hfirst : bytes.head? = some first) (hne : first ≠ version) :
    FirstFault version size bytes (.unknownVersion first)
  | invalidLength (hversion : ∀ first, bytes.head? = some first → first = version)
    (hlength : bytes.length ≠ size) :
    FirstFault version size bytes (.invalidLength size bytes.length)
  | invalidSigningKey (hversion : bytes.head? = some version) (hlength : bytes.length = size)
    (hsigner : ∀ signer, ¬Names version size bytes signer) :
    FirstFault version size bytes .invalidSigningKey

variable {version : UInt8} {size : Nat} {bytes : Bytes} {signer : VerifyingKey}

/-- Bytes without a fault have a public key. -/
theorem names_or_firstFault (version : UInt8) (size : Nat) (hsize : 0 < size) (bytes : Bytes) :
    (∃ signer, Names version size bytes signer) ∨ ∃ cause, FirstFault version size bytes cause := by
  by_cases hversion : ∀ first, bytes.head? = some first → first = version
  · by_cases hlength : bytes.length = size
    · by_cases hsigner : ∃ signer, Names version size bytes signer
      · exact .inl hsigner
      · obtain ⟨first, rest, hbytes⟩ := List.exists_cons_of_length_pos (hlength ▸ hsize)
        have hfirst : bytes.head? = some first := hbytes ▸ rfl
        rw [hversion first hfirst] at hfirst
        exact .inr ⟨_, .invalidSigningKey hfirst hlength (not_exists.mp hsigner)⟩
    · exact .inr ⟨_, .invalidLength hversion hlength⟩
  · push Not at hversion
    obtain ⟨first, hfirst, hne⟩ := hversion
    exact .inr ⟨_, .unknownVersion hfirst hne⟩

/-! ## What the bytes hold -/

namespace KeyMaterial

variable {material : KeyMaterial}

private theorem exists_toBytes_eq_take (hversion : bytes.head? = some version)
    (hle : 165 ≤ bytes.length) :
    ∃ material : KeyMaterial, material.toBytes version = bytes.take 165 := by
  obtain ⟨rest, rfl⟩ := List.head?_eq_some_iff.mp hversion
  refine ⟨ofBytes (.slice (version :: rest) 0 165 (by omega)), ?_⟩
  rw [toBytes_ofBytes]
  rfl

private theorem append_drop (hwritten : material.toBytes version = bytes.take 165) :
    material.toBytes version ++ bytes.drop 165 = bytes := by
  rw [hwritten, List.take_append_drop]

private theorem signingKey_eq_take (hwritten : material.toBytes version = bytes.take 165) :
    (bytes.drop 133).take 32 = material.signingKey.toList := by
  rw [← append_drop hwritten, drop_toBytes_append]
  exact List.take_left' material.signingKey.length_toList

private theorem toNat_counter_eq (hwritten : material.toBytes version = bytes.take 165) :
    material.ratchet.counter.toNat = Bytes.toNatBE ((bytes.drop 1).take 4) := by
  have hlt : material.ratchet.counter.toNat < 256 ^ 4 := material.ratchet.counter.toNat_lt
  rw [← append_drop hwritten, take_drop_toBytes_append, indexBytes, Bytes.toNatBE_ofNatBE,
    Nat.mod_eq_of_lt hlt]

private theorem verifyingKey_eq_error (hwritten : material.toBytes version = bytes.take 165)
    (hversion : bytes.head? = some version) (hlength : bytes.length = size)
    (hsigner : ∀ signer, ¬Names version size bytes signer) :
    material.verifyingKey = .error .invalidSigningKey := by
  cases hkey : VerifyingKey.ofBytes? material.signingKey with
  | none => rw [verifyingKey, hkey, Option.elim]
  | some signer =>
    have hplace : (bytes.drop 133).take 32 = signer.bytes.toList := by
      rw [VerifyingKey.bytes_of_ofBytes? hkey, signingKey_eq_take hwritten]
    have hvalid : signer.Valid := VerifyingKey.valid_of_ofBytes? hkey
    exact absurd ⟨hversion, hlength, hvalid, hplace⟩ (hsigner signer)

end KeyMaterial

/-- A fault is found with the layout, or behind it when the public key is read. -/
private theorem FirstFault.layout_or_signer {cause : SessionKeyError}
    (h : FirstFault version size bytes cause) (hsize : 165 ≤ size) :
    checkLayout version size bytes = .error cause ∨
      bytes.length = size ∧ cause = .invalidSigningKey ∧
        ∃ material : KeyMaterial, material.toBytes version = bytes.take 165 ∧
          material.verifyingKey = .error .invalidSigningKey := by
  cases h with
  | unknownVersion hfirst hne => exact .inl (checkLayout_of_head?_ne hfirst hne)
  | invalidLength hversion hlength => exact .inl (checkLayout_of_length_ne hversion hlength)
  | invalidSigningKey hversion hlength hsigner =>
    have hle : 165 ≤ bytes.length := hlength ▸ hsize
    obtain ⟨material, hwritten⟩ := KeyMaterial.exists_toBytes_eq_take hversion hle
    have hkey := KeyMaterial.verifyingKey_eq_error hwritten hversion hlength hsigner
    exact .inr ⟨hlength, rfl, material, hwritten, hkey⟩

private theorem FirstFault.ofKey_eq {cause : SessionKeyError}
    (h : FirstFault version size bytes cause) :
    SessionError.ofKey cause = .invalidKey cause := by
  cases h <;> rfl

private theorem Names.exists_material (h : Names version size bytes signer) (hsize : 165 ≤ size) :
    ∃ material : KeyMaterial, material.toBytes version = bytes.take 165 ∧
      material.signingKey = signer.bytes := by
  obtain ⟨material, hwritten⟩ :=
    KeyMaterial.exists_toBytes_eq_take h.version (h.length ▸ hsize)
  have hplace := (KeyMaterial.signingKey_eq_take hwritten).symm.trans h.place
  exact ⟨material, hwritten, FixedBytes.ext hplace⟩

private theorem ExportedSessionKey.toBytes_eq {material : KeyMaterial}
    (hwritten : material.toBytes ExportedSessionKey.version = bytes.take 165)
    (hlength : bytes.length = 165) : toBytes ⟨material⟩ = bytes := by
  rw [toBytes, hwritten]
  exact List.take_of_length_le (Nat.le_of_eq hlength)

private theorem SessionKey.exists_toBytes_eq {material : KeyMaterial}
    (hwritten : material.toBytes SessionKey.version = bytes.take 165)
    (hlength : bytes.length = 229) :
    ∃ signature : Signature, toBytes ⟨material, signature⟩ = bytes := by
  have hsignature : (bytes.drop 165).length = 64 := by
    rw [List.length_drop, hlength]
  refine ⟨⟨bytes.drop 165, hsignature⟩, ?_⟩
  rw [toBytes, signedBytes]
  exact KeyMaterial.append_drop hwritten

private theorem Names.exists_sessionKey (h : Names 2 229 bytes signer) :
    ∃ key : SessionKey, key.toBytes = bytes ∧ key.material.signingKey = signer.bytes := by
  obtain ⟨material, hwritten, hsigner⟩ := h.exists_material (by decide)
  obtain ⟨signature, hbytes⟩ := SessionKey.exists_toBytes_eq hwritten h.length
  exact ⟨⟨material, signature⟩, hbytes, hsigner⟩

/-- The provider is asked about the signature if the public key is one. -/
theorem SessionKey.result_verify {σ : Type} (provider : Provider) (key : SessionKey)
    (hkey : key.material.verifyingKey = .ok signer) (state : σ) (journal : Journal) :
    (key.verify provider state journal).result =
      match provider.answer journal.requests (.verify signer key.signedBytes key.signature) with
      | .ok () => .ok signer
      | .error _ => .error .invalidSignature := by
  rw [verify, hkey, ofExcept_ok_bind, bind_apply]
  simp only [mapError, request_apply]
  cases provider.answer journal.requests (.verify signer key.signedBytes key.signature) with
  | ok _ => rfl
  | error _ => rfl

theorem SessionKey.result_verify_of_error {σ : Type} (provider : Provider) (key : SessionKey)
    {cause : SessionKeyError} (hkey : key.material.verifyingKey = .error cause) (state : σ)
    (journal : Journal) : (key.verify provider state journal).result = .error cause := by
  rw [verify, hkey, ofExcept_error_bind, result_ofExcept]

/-- The provider accepts the signature at the end of signed bytes. -/
def Signed (provider : Provider) (journal : Journal) (bytes : Bytes) (signer : VerifyingKey) :
    Prop :=
  ∃ signature : Signature, signature.toList = bytes.drop 165 ∧
    provider.answer journal.requests (.verify signer (bytes.take 165) signature) = .ok ()

namespace SessionKey

variable {provider : Provider} {key : SessionKey}

theorem names_toBytes (hvalid : signer.Valid) (hsigner : key.material.signingKey = signer.bytes) :
    Names 2 229 key.toBytes signer where
  version := rfl
  length := by simp [toBytes, signedBytes, KeyMaterial.length_toBytes]
  valid := hvalid
  place := by
    rw [toBytes, signedBytes, KeyMaterial.drop_toBytes_append, hsigner]
    exact List.take_left' signer.bytes.length_toList

theorem signed_toBytes_iff {journal : Journal} :
    Signed provider journal key.toBytes signer ↔
      provider.answer journal.requests (.verify signer key.signedBytes key.signature) = .ok () := by
  have hlength : key.signedBytes.length = 165 := KeyMaterial.length_toBytes _ _
  rw [Signed, toBytes, List.take_left' hlength, List.drop_left' hlength]
  constructor
  · rintro ⟨signature, hsignature, haccepted⟩
    obtain rfl : signature = key.signature := FixedBytes.ext hsignature
    exact haccepted
  · exact fun haccepted ↦ ⟨key.signature, rfl, haccepted⟩

variable {signer : SigningKey}

private theorem signed_plainFor_iff {journal : Journal} :
    Signed (.plainFor signer) journal key.toBytes signer.verifyingKey ↔
      key.signature = signer.sign key.signedBytes :=
  signed_toBytes_iff.trans Provider.answer_plainFor_verify_iff

theorem verifyingKey_sign (signer : SigningKey) (ratchet : Ratchet) :
    (sign signer ratchet).material.verifyingKey = .ok signer.verifyingKey :=
  KeyMaterial.verifyingKey_eq_ok signer.valid_verifyingKey rfl

/-- What a signer writes ends with its own signature. -/
private theorem answer_verify_sign (haccepts : provider.Accepts signer) (ratchet : Ratchet)
    (history : List Request) :
    provider.answer history (.verify signer.verifyingKey (sign signer ratchet).signedBytes
      (sign signer ratchet).signature) = .ok () :=
  haccepts history (sign signer ratchet).signedBytes

theorem result_verify_sign {σ : Type} (haccepts : provider.Accepts signer) (ratchet : Ratchet)
    (state : σ) (journal : Journal) :
    ((sign signer ratchet).verify provider state journal).result = .ok signer.verifyingKey := by
  rw [result_verify provider _ (verifyingKey_sign signer ratchet), answer_verify_sign haccepts]

end SessionKey

namespace Session

variable {σ : Type} {provider : Provider} {session : Session} {cause : SessionKeyError}

/-! ## Written keys -/

private theorem result_importKey_toBytes (key : ExportedSessionKey) (state : σ)
    (journal : Journal) :
    (importKey key.toBytes state journal).result =
      (key.material.verifyingKey.mapError .ofKey).map (ofRatchet key.material.ratchet · false) := by
  rw [importKey, ExportedSessionKey.ofBytes_toBytes, mapError_ok, ofExcept_ok_bind]
  cases key.material.verifyingKey with
  | ok signer => rfl
  | error cause => rfl

private theorem result_init_toBytes (key : SessionKey) (state : σ) (journal : Journal) :
    (init provider key.toBytes state journal).result =
      ((key.verify provider state journal).result.mapError .ofKey).map
        (ofRatchet key.material.ratchet · true) := by
  rw [init, SessionKey.ofBytes_toBytes, mapError_ok, ofExcept_ok_bind, bind_apply, mapError]
  cases (key.verify provider state journal).result with
  | ok signer => rfl
  | error cause => rfl

/-- Of a signed key whose public key is one, the provider decides whether it makes a session. -/
theorem result_init_toBytes_of_verifyingKey (key : SessionKey)
    (hkey : key.material.verifyingKey = .ok signer) (state : σ) (journal : Journal) :
    (init provider key.toBytes state journal).result =
      match provider.answer journal.requests (.verify signer key.signedBytes key.signature) with
      | .ok () => .ok (ofRatchet key.material.ratchet signer true)
      | .error _ => .error .signature := by
  rw [result_init_toBytes, SessionKey.result_verify provider key hkey]
  cases provider.answer journal.requests (.verify signer key.signedBytes key.signature) with
  | ok _ => rfl
  | error _ => rfl

/-! ## Bytes with a fault -/

/-- The first fault is the one that is reported. -/
theorem result_importKey_of_firstFault (h : FirstFault 1 165 bytes cause) (state : σ)
    (journal : Journal) : (importKey bytes state journal).result = .error (.invalidKey cause) := by
  rw [← h.ofKey_eq]
  rcases h.layout_or_signer (Nat.le_refl 165) with hlayout | ⟨hlength, rfl, _, hwritten, hkey⟩
  · have hread : ExportedSessionKey.ofBytes bytes = .error cause := congrArg (Except.map _) hlayout
    rw [importKey, hread, mapError_error, ofExcept_error_bind, result_ofExcept]
  · rw [← ExportedSessionKey.toBytes_eq hwritten hlength, result_importKey_toBytes, hkey]
    rfl

theorem result_init_of_firstFault (h : FirstFault 2 229 bytes cause) (state : σ)
    (journal : Journal) :
    (init provider bytes state journal).result = .error (.invalidKey cause) := by
  rw [← h.ofKey_eq]
  rcases h.layout_or_signer (by decide) with hlayout | ⟨hlength, rfl, material, hwritten, hkey⟩
  · have hread : SessionKey.ofBytes bytes = .error cause := congrArg (Except.map _) hlayout
    rw [init, hread, mapError_error, ofExcept_error_bind, result_ofExcept]
  · obtain ⟨signature, hbytes⟩ := SessionKey.exists_toBytes_eq hwritten hlength
    rw [← hbytes, result_init_toBytes,
      SessionKey.result_verify_of_error provider ⟨material, signature⟩ hkey]
    rfl

/-! ## Bytes with a public key -/

/-- A session as it is made from bytes: it starts at the index in them, and from there it can be
passed on with the given key. -/
structure StartsWith (provider : Provider) (bytes shared : Bytes) (verified : Bool)
    (session : Session) : Prop where
  verified : session.verified = verified
  messageIndex : session.messageIndex.toNat = Bytes.toNatBE ((bytes.drop 1).take 4)
  firstKnownIndex : session.firstKnownIndex = session.messageIndex
  shared : ∀ journal, ∃ key,
    (session.exportKey provider session.messageIndex () journal).result = .ok key ∧
      key.toBytes = shared

private theorem result_exportKey_messageIndex (state : σ) (journal : Journal) :
    (session.exportKey provider session.messageIndex state journal).result =
      .ok ⟨session.ratchet, session.signingKey.bytes⟩ := by
  have hstays : Ratchet.advanceTo provider session.messageIndex session.ratchet journal =
      ⟨.ok (), session.ratchet, journal⟩ := Ratchet.advanceTo_self session.ratchet journal
  rw [exportKey_apply, hstays]

/-- A session that starts with what the bytes hold passes it on, with the version of a shared
key. -/
private theorem startsWith_ofRatchet {material : KeyMaterial}
    (hwritten : material.toBytes version = bytes.take 165)
    (hsigner : material.signingKey = signer.bytes) (verified : Bool) :
    (ofRatchet material.ratchet signer verified).StartsWith provider bytes
      (1 :: (bytes.drop 1).take 164) verified where
  verified := rfl
  messageIndex := KeyMaterial.toNat_counter_eq hwritten
  firstKnownIndex := rfl
  shared journal := by
    refine ⟨_, result_exportKey_messageIndex () journal, ?_⟩
    have hdrop : (material.toBytes version).drop 1 = (bytes.drop 1).take 164 := by
      rw [hwritten, List.drop_take]
    rw [← hdrop]
    change KeyMaterial.toBytes 1 ⟨material.ratchet, signer.bytes⟩ = _
    rw [← hsigner]
    rfl

theorem importKey_of_names (h : Names 1 165 bytes signer) (state : σ) (journal : Journal) :
    ∃ session, (importKey bytes state journal).result = .ok session ∧
      session.signingKey = signer ∧ session.StartsWith provider bytes bytes false := by
  obtain ⟨material, hwritten, hsigner⟩ := h.exists_material (Nat.le_refl 165)
  have hstarts : (ofRatchet material.ratchet signer false).StartsWith provider bytes _ false :=
    startsWith_ofRatchet hwritten hsigner false
  have hshared : 1 :: (bytes.drop 1).take 164 = bytes := by
    obtain ⟨rest, rfl⟩ := List.head?_eq_some_iff.mp h.version
    have hrest : rest.length ≤ 164 := Nat.le_of_eq (Nat.succ.inj h.length)
    exact congrArg (1 :: ·) (List.take_of_length_le hrest)
  rw [hshared] at hstarts
  refine ⟨_, ?_, rfl, hstarts⟩
  rw [← ExportedSessionKey.toBytes_eq hwritten h.length, result_importKey_toBytes,
    KeyMaterial.verifyingKey_eq_ok h.valid hsigner]
  rfl

theorem init_of_signed (h : Names 2 229 bytes signer) {journal : Journal}
    (hsigned : Signed provider journal bytes signer) (state : σ) :
    ∃ session, (init provider bytes state journal).result = .ok session ∧
      session.signingKey = signer ∧
      session.StartsWith provider bytes (1 :: (bytes.drop 1).take 164) true := by
  obtain ⟨key, rfl, hsigner⟩ := h.exists_sessionKey
  have hwritten : key.signedBytes = key.toBytes.take 165 :=
    (List.take_left' (KeyMaterial.length_toBytes _ _)).symm
  refine ⟨_, ?_, rfl, startsWith_ofRatchet hwritten hsigner true⟩
  rw [result_init_toBytes_of_verifyingKey key (KeyMaterial.verifyingKey_eq_ok h.valid hsigner),
    SessionKey.signed_toBytes_iff.mp hsigned]

theorem init_of_not_signed (h : Names 2 229 bytes signer) {journal : Journal}
    (hsigned : ¬Signed provider journal bytes signer) (state : σ) :
    (init provider bytes state journal).result = .error .signature := by
  obtain ⟨key, rfl, hsigner⟩ := h.exists_sessionKey
  rw [SessionKey.signed_toBytes_iff] at hsigned
  rw [result_init_toBytes_of_verifyingKey key (KeyMaterial.verifyingKey_eq_ok h.valid hsigner)]
  split
  case h_1 haccepted => exact absurd haccepted hsigned
  case h_2 => rfl

/-! ## Every attempt -/

/-- All that is to be known of an attempt to make a session. It succeeds exactly with a good public
key, the session has that key and starts as it should, and each fault has its own reason. -/
structure JoinsExactly (result : Except SessionError Session) (good : VerifyingKey → Prop)
    (starts : Session → Prop) (bad : SessionError → Prop) : Prop where
  succeeds_iff : (∃ session, result = .ok session) ↔ ∃ signer, good signer
  session_eq : ∀ session, result = .ok session → good session.signingKey ∧ starts session
  fails_iff : ∀ fault, result = .error fault ↔ bad fault

/-- It is enough to know what follows from a good key and from a reason to fail, if there is always
one or the other. -/
private theorem JoinsExactly.of_cases {result : Except SessionError Session}
    {good : VerifyingKey → Prop} {starts : Session → Prop} {bad : SessionError → Prop}
    (hgood : ∀ signer, good signer →
      ∃ session, result = .ok session ∧ session.signingKey = signer ∧ starts session)
    (hbad : ∀ fault, bad fault → result = .error fault)
    (hcases : (∃ signer, good signer) ∨ ∃ fault, bad fault) :
    JoinsExactly result good starts bad := by
  rcases hcases with ⟨signer, hsigner⟩ | ⟨fault, hfault⟩
  · obtain ⟨session, hresult, rfl, hstarts⟩ := hgood signer hsigner
    refine ⟨⟨fun _ ↦ ⟨_, hsigner⟩, fun _ ↦ ⟨_, hresult⟩⟩, fun other hother ↦ ?_, fun fault ↦ ?_⟩
    · obtain rfl : session = other := Except.ok.inj (hresult.symm.trans hother)
      exact ⟨hsigner, hstarts⟩
    · refine ⟨fun herror ↦ ?_, hbad fault⟩
      cases hresult.symm.trans herror
  · have hresult := hbad fault hfault
    refine ⟨⟨?_, ?_⟩, fun session hok ↦ ?_, fun other ↦ ⟨fun herror ↦ ?_, hbad other⟩⟩
    · rintro ⟨session, hok⟩
      cases hresult.symm.trans hok
    · rintro ⟨signer, hsigner⟩
      obtain ⟨session, hok, -⟩ := hgood signer hsigner
      exact ⟨session, hok⟩
    · cases hresult.symm.trans hok
    · obtain rfl : fault = other := Except.error.inj (hresult.symm.trans herror)
      exact hfault

/-- **Exactly the bytes of the two formats make a session, and nothing of them is lost.** Whatever
the provider, bytes make a session as a shared key if they have its version and length and a public
key at its place, and as a signed key if moreover the provider accepts the signature. The session
starts at the index in the bytes and can be passed on from there with what the bytes hold. All other
bytes are rejected for the first fault they have. And a key that was written, whichever the ratchet
and the signer, is read back with both of them. A signed one carries the signer's signature of all
that stands before it, so a provider that accepts the signer's signatures finds the key to be good.
Either key makes a session with that ratchet and that public key. -/
theorem joins_exactly_with_keys (provider : Provider) (bytes : Bytes) (state : σ)
    (journal : Journal) :
    JoinsExactly (importKey bytes state journal).result
      (Names 1 165 bytes)
      (StartsWith provider bytes bytes false)
      (fun fault ↦ ∃ cause, FirstFault 1 165 bytes cause ∧ fault = .invalidKey cause) ∧
    JoinsExactly (init provider bytes state journal).result
      (fun signer ↦ Names 2 229 bytes signer ∧ Signed provider journal bytes signer)
      (StartsWith provider bytes (1 :: (bytes.drop 1).take 164) true)
      (fun fault ↦ (∃ cause, FirstFault 2 229 bytes cause ∧ fault = .invalidKey cause) ∨
        (∃ signer, Names 2 229 bytes signer ∧ ¬Signed provider journal bytes signer) ∧
          fault = .signature) ∧
    ∀ (ratchet : Ratchet) (signer : SigningKey),
      (∃ key, SessionKey.ofBytes (SessionKey.sign signer ratchet).toBytes = .ok key ∧
        key.material.ratchet = ratchet ∧ key.material.verifyingKey = .ok signer.verifyingKey ∧
        key.signature = signer.sign key.signedBytes ∧
        ((key.verify provider state journal).result = .ok signer.verifyingKey ↔
          provider.answer journal.requests
            (.verify signer.verifyingKey key.signedBytes key.signature) = .ok ()) ∧
        (provider.Accepts signer →
          (key.verify provider state journal).result = .ok signer.verifyingKey ∧
          (init provider key.toBytes state journal).result =
            .ok (ofRatchet ratchet signer.verifyingKey true))) ∧
      ∃ key, ExportedSessionKey.ofBytes
          (ExportedSessionKey.toBytes ⟨⟨ratchet, signer.verifyingKey.bytes⟩⟩) = .ok key ∧
        key.material.ratchet = ratchet ∧
        key.material.verifyingKey = .ok signer.verifyingKey ∧
        (importKey key.toBytes state journal).result =
          .ok (ofRatchet ratchet signer.verifyingKey false) := by
  refine ⟨.of_cases ?_ ?_ ?_, .of_cases ?_ ?_ ?_, fun ratchet signer ↦ ⟨?_, ?_⟩⟩
  · exact fun signer hsigner ↦ importKey_of_names hsigner state journal
  · rintro _ ⟨cause, hcause, rfl⟩
    exact result_importKey_of_firstFault hcause state journal
  · rcases names_or_firstFault 1 165 (by decide) bytes with hsigner | ⟨cause, hcause⟩
    · exact .inl hsigner
    · exact .inr ⟨_, cause, hcause, rfl⟩
  · rintro signer ⟨hsigner, hsigned⟩
    exact init_of_signed hsigner hsigned state
  · rintro _ (⟨cause, hcause, rfl⟩ | ⟨⟨signer, hsigner, hsigned⟩, rfl⟩)
    · exact result_init_of_firstFault hcause state journal
    · exact init_of_not_signed hsigner hsigned state
  · rcases names_or_firstFault 2 229 (by decide) bytes with
      ⟨signer, hsigner⟩ | ⟨cause, hcause⟩
    · by_cases hsigned : Signed provider journal bytes signer
      · exact .inl ⟨signer, hsigner, hsigned⟩
      · exact .inr ⟨_, .inr ⟨⟨signer, hsigner, hsigned⟩, rfl⟩⟩
    · exact .inr ⟨_, .inl ⟨cause, hcause, rfl⟩⟩
  · have hkey := SessionKey.verifyingKey_sign signer ratchet
    refine ⟨SessionKey.sign signer ratchet, SessionKey.ofBytes_toBytes _, rfl, hkey, rfl, ?_,
      fun haccepts ↦ ⟨SessionKey.result_verify_sign haccepts ratchet state journal, ?_⟩⟩
    · rw [SessionKey.result_verify provider (SessionKey.sign signer ratchet) hkey]
      cases provider.answer journal.requests _ with
      | ok _ => simp
      | error failure => simp
    · rw [result_init_toBytes_of_verifyingKey _ hkey, SessionKey.answer_verify_sign haccepts]
      rfl
  · have hkey : KeyMaterial.verifyingKey ⟨ratchet, signer.verifyingKey.bytes⟩ =
        .ok signer.verifyingKey := KeyMaterial.verifyingKey_eq_ok signer.valid_verifyingKey rfl
    refine ⟨_, ExportedSessionKey.ofBytes_toBytes _, rfl, hkey, ?_⟩
    rw [result_importKey_toBytes, hkey]
    rfl

/-- With a provider that accepts the signatures of one signer only, a key which that signer has
signed makes a session, and does not when all bytes of the signature are one higher. A public key of
nothing but zeros is one, so in a shared key everything behind the index may be zero. -/
theorem joins_with_signed_key :
    let signer : SigningKey := .ofSeed (FixedBytes.zero 32)
    let provider : Provider := .plainFor signer
    let ratchet : Ratchet := Ratchet.ofBytes (FixedBytes.zero 128) 300
    let key : SessionKey := .sign signer ratchet
    let altered : SessionKey :=
      { key with signature := ⟨key.signature.toList.map (· + 1), by simp⟩ }
    let shared : Bytes := 1 :: 0 :: 0 :: 1 :: 44 :: List.replicate 160 0
    provider.Accepts signer ∧ (key.verify provider () {}).result = .ok signer.verifyingKey ∧
      (init provider key.toBytes () {}).result =
        .ok (ofRatchet ratchet signer.verifyingKey true) ∧
      (init provider altered.toBytes () {}).result = .error .signature ∧
      (∃ session, (importKey shared () {}).result = .ok session ∧
        session.StartsWith provider shared shared false) ∧
      (init provider shared () {}).result = .error (.invalidKey (.unknownVersion 1)) ∧
      (importKey [] () {}).result = .error (.invalidKey (.invalidLength 165 0)) := by
  intro signer provider ratchet key altered shared
  have haccepts : provider.Accepts signer := Provider.accepts_plainFor signer
  obtain ⟨⟨read, hread, -, -, -, -, hwritten⟩, -⟩ :=
    (joins_exactly_with_keys provider shared () {}).2.2 ratchet signer
  obtain rfl : key = read := Except.ok.inj ((SessionKey.ofBytes_toBytes key).symm.trans hread)
  obtain ⟨hverify, hinit⟩ := hwritten haccepts
  have hzero : VerifyingKey.Valid ⟨FixedBytes.zero 32⟩ := by
    decide +kernel
  have hshared : Names 1 165 shared ⟨FixedBytes.zero 32⟩ := ⟨rfl, rfl, hzero, rfl⟩
  have hother : altered.signature ≠ key.signature := by
    intro heq
    obtain ⟨first, rest, hfirst⟩ := List.exists_cons_of_length_pos
      (show 0 < key.signature.toList.length by simp)
    have hsucc : key.signature.toList.map (· + 1) = key.signature.toList :=
      congrArg FixedBytes.toList heq
    rw [hfirst, List.map_cons, List.cons.injEq] at hsucc
    simp at hsucc
  refine ⟨haccepts, hverify, hinit, ?_, ?_, ?_, ?_⟩
  · refine ((joins_exactly_with_keys provider altered.toBytes () {}).2.1.fails_iff _).mpr ?_
    have hnames : Names 2 229 altered.toBytes signer.verifyingKey :=
      SessionKey.names_toBytes signer.valid_verifyingKey rfl
    exact .inr ⟨⟨_, hnames, mt SessionKey.signed_plainFor_iff.mp hother⟩, rfl⟩
  · have hjoins := (joins_exactly_with_keys provider shared () {}).1
    obtain ⟨session, hresult⟩ := hjoins.succeeds_iff.mpr ⟨_, hshared⟩
    exact ⟨session, hresult, (hjoins.session_eq session hresult).2⟩
  · refine ((joins_exactly_with_keys provider shared () {}).2.1.fails_iff _).mpr ?_
    exact .inl ⟨_, .unknownVersion rfl (by decide), rfl⟩
  · refine ((joins_exactly_with_keys provider [] () {}).1.fails_iff _).mpr ?_
    exact ⟨_, .invalidLength nofun (by decide), rfl⟩

end Session

end GroupSession
