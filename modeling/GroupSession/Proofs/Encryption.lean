import GroupSession.Proofs.Effects

/-!
# Decryption as the inverse of encryption

Encrypting twice with the same key and nonce gives the text back, because both times the text is
combined with the same stretch of the key stream: it depends on the length of the text only, and
encryption keeps the length. So a text of any length is decrypted to what it was made from, and the
tag decides alone whether it is decrypted at all.

The tag is a function of key, nonce, associated data and encrypted text. This makes decryption exact
in the other direction too: whatever is accepted is what encryption makes of the answer.
-/

namespace GroupSession

namespace XChaCha20Poly1305

variable {key : FixedBytes 32} {nonce : FixedBytes 24} {associated : Bytes}

private theorem decrypt_eq_some_iff_tag {given : Sealed} {plaintext : Bytes} :
    decrypt key nonce associated given = some plaintext ↔
      authenticate key nonce associated given.ciphertext = given.tag ∧
        crypt key nonce given.ciphertext = plaintext := by
  rw [decrypt]
  by_cases htag : authenticate key nonce associated given.ciphertext = given.tag
  · rw [if_pos htag, Option.some.injEq]
    exact ⟨fun hplaintext ↦ ⟨htag, hplaintext⟩, fun h ↦ h.2⟩
  · rw [if_neg htag]
    constructor
    · intro hnone
      cases hnone
    · rintro ⟨hauthentic, -⟩
      exact absurd hauthentic htag

/-- Decryption accepts what encryption makes, and answers with what it was made from. -/
theorem decrypt_eq_some_iff {given : Sealed} {plaintext : Bytes} :
    decrypt key nonce associated given = some plaintext ↔
      encrypt key nonce associated plaintext = given := by
  constructor
  · intro haccepted
    obtain ⟨htag, rfl⟩ := decrypt_eq_some_iff_tag.mp haccepted
    rw [encrypt, crypt_crypt, htag]
  · rintro rfl
    exact decrypt_encrypt key nonce associated plaintext

theorem length_ciphertext_encrypt (plaintext : Bytes) :
    (encrypt key nonce associated plaintext).ciphertext.length = plaintext.length :=
  length_crypt key nonce plaintext

end XChaCha20Poly1305

namespace Provider

variable {history : List Request} {key : FixedBytes 32} {nonce : FixedBytes 24}
  {associated : Bytes} {plaintext : Bytes} {given : Sealed}

private theorem answer_standard_encrypt_eq_ok_iff :
    standard.answer history (.aeadEncrypt key nonce associated plaintext) = .ok given ↔
      XChaCha20Poly1305.encrypt key nonce associated plaintext = given := by
  change Except.ok _ = _ ↔ _
  rw [Except.ok.injEq]

private theorem answer_standard_decrypt_eq_ok_iff :
    standard.answer history (.aeadDecrypt key nonce associated given) = .ok plaintext ↔
      XChaCha20Poly1305.decrypt key nonce associated given = some plaintext := by
  change (Request.compute _).mapError _ = _ ↔ _
  rw [Request.compute]
  cases XChaCha20Poly1305.decrypt key nonce associated given <;> simp

private theorem answer_standard_decrypt_of_none
    (hnone : XChaCha20Poly1305.decrypt key nonce associated given = none) :
    standard.answer history (.aeadDecrypt key nonce associated given) =
      .error ⟨CryptoError.notAuthentic.message⟩ := by
  change (Request.compute _).mapError _ = _
  rw [Request.compute, hnone]
  rfl

/-- **Decryption is the partial inverse of encryption.** For any key and nonce, and with or without
associated data, the cryptography of this library decrypts to a text exactly what it encrypts the
text to. Every text can be encrypted, which keeps its length, and is decrypted again. Every
ciphertext is decrypted with exactly one tag, and with any other it is found not to be authentic.
What was asked for before plays no role. -/
theorem standard_decrypts_exactly (key : FixedBytes 32) (nonce : FixedBytes 24)
    (associated : Option Bytes) :
    let encrypts (plaintext : Bytes) : Request :=
      .aeadEncrypt key nonce (associated.getD []) plaintext
    let decrypts (ciphertext : Bytes) (tag : FixedBytes 16) : Request :=
      .aeadDecrypt key nonce (associated.getD []) ⟨ciphertext, tag⟩
    (∀ history history' plaintext ciphertext tag,
      standard.answer history (decrypts ciphertext tag) = .ok plaintext ↔
        standard.answer history' (encrypts plaintext) = .ok ⟨ciphertext, tag⟩) ∧
    (∀ plaintext, ∃ ciphertext tag, ciphertext.length = plaintext.length ∧
      ∀ history, standard.answer history (encrypts plaintext) = .ok ⟨ciphertext, tag⟩ ∧
        standard.answer history (decrypts ciphertext tag) = .ok plaintext) ∧
    ∀ ciphertext, ∃ tag plaintext, plaintext.length = ciphertext.length ∧
      ∀ history, standard.answer history (decrypts ciphertext tag) = .ok plaintext ∧
        ∀ other, other ≠ tag → standard.answer history (decrypts ciphertext other) =
          .error ⟨CryptoError.notAuthentic.message⟩ := by
  intro encrypts decrypts
  refine ⟨fun history history' plaintext ciphertext tag ↦ ?_, fun plaintext ↦ ?_,
    fun ciphertext ↦ ?_⟩
  · rw [answer_standard_decrypt_eq_ok_iff, answer_standard_encrypt_eq_ok_iff]
    exact XChaCha20Poly1305.decrypt_eq_some_iff
  · let content := XChaCha20Poly1305.encrypt key nonce (associated.getD []) plaintext
    have hlength : content.ciphertext.length = plaintext.length :=
      XChaCha20Poly1305.length_ciphertext_encrypt plaintext
    refine ⟨content.ciphertext, content.tag, hlength, fun history ↦ ?_⟩
    constructor
    · exact answer_standard_encrypt_eq_ok_iff.mpr rfl
    · exact answer_standard_decrypt_eq_ok_iff.mpr (XChaCha20Poly1305.decrypt_encrypt ..)
  · let tag := XChaCha20Poly1305.authenticate key nonce (associated.getD []) ciphertext
    let plaintext := XChaCha20Poly1305.crypt key nonce ciphertext
    refine ⟨tag, plaintext, XChaCha20Poly1305.length_crypt key nonce ciphertext,
      fun history ↦ ⟨?_, fun other hother ↦ ?_⟩⟩
    · apply answer_standard_decrypt_eq_ok_iff.mpr
      exact XChaCha20Poly1305.decrypt_eq_some_iff_tag.mpr ⟨rfl, rfl⟩
    · apply answer_standard_decrypt_of_none
      exact if_neg (Ne.symm hother)

end Provider

end GroupSession
