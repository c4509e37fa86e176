import GroupSession.Proofs.Decryption
import GroupSession.Sender

/-!
# What a sender sends

A sender makes one message after the other, each at the index where its ratchet stands, and steps
on. If a request fails, there is no message, and the sender stays where it is.

## Genuine messages

With a keyed hash that does not look back and does not fail, the ratchets of a sender lie on one
path, that of the ratchet it has started from. So of any message it can be said, without regard to
when it was made, whether it is one that the sender makes on its path: the text was encrypted with
the keys of the message's index, and all of that was signed. Such a message is `Genuine`, and every
message of a run of a sender is, as long as the counter has not begun anew.
-/

namespace GroupSession

open GroupSession.Action Ed25519

/-- All that a sender and its receivers need of a provider: hashes and keys are the same on both
sides, and can always be had; what was encrypted is decrypted, what was signed is accepted. -/
structure Provider.Serves (provider : Provider) (signer : SigningKey) : Prop where
  hash_steady : provider.Steady .hmacSha256
  hash_reliable : provider.Reliable .hmacSha256
  keys_steady : provider.Steady .hkdf
  keys_reliable : provider.Reliable .hkdf
  opens : provider.Opens
  accepts : provider.Accepts signer

namespace Provider

/-- The first bytes of a string, with zeros behind it if there are too few. -/
def beginning (size : Nat) (bytes : Bytes) : FixedBytes size :=
  .slice (bytes ++ List.replicate size 0) 0 size (by simp)

/-- The provider that hides nothing: hashes and keys are the beginning of what they are made from, a
tag is the beginning of its key, and every signature is accepted. -/
def plain : Provider := ofFunction fun
  | .hmacSha256 key data => .ok (beginning 32 (data ++ key))
  | .hkdf size _ input _ => .ok (beginning size input)
  | .aeadEncrypt key _ _ plaintext => .ok ⟨plaintext, beginning 16 key.toList⟩
  | .aeadDecrypt key _ _ given =>
    if given.tag = beginning 16 key.toList then .ok given.ciphertext else .error ⟨"another key"⟩
  | .verify .. => .ok ()

theorem reliable_plain {primitive : Primitive} (hdecrypt : primitive ≠ .aeadDecrypt) :
    plain.Reliable primitive := by
  rintro (_ | _ | _ | _ | _) rfl - history
  case aeadDecrypt => exact absurd rfl hdecrypt
  all_goals exact ⟨_, rfl⟩

theorem opens_plain : plain.Opens := by
  intro _ _ key nonce associated plaintext content hcontent
  obtain rfl := Except.ok.inj hcontent
  exact if_pos rfl

theorem serves_plain (signer : SigningKey) : plain.Serves signer where
  hash_steady := deterministic_ofFunction _ _
  hash_reliable := reliable_plain (by decide)
  keys_steady := deterministic_ofFunction _ _
  keys_reliable := reliable_plain (by decide)
  opens := opens_plain
  accepts _ _ := rfl

/-- The provider that hides nothing either, but accepts no signatures except those of one signer. -/
def plainFor (signer : SigningKey) : Provider := ofFunction fun
  | .verify key message signature =>
    if key = signer.verifyingKey ∧ signature = signer.sign message then .ok ()
    else .error ⟨"another signature"⟩
  | request => plain.answer [] request

theorem answer_plainFor_verify_iff {signer : SigningKey} {history : List Request}
    {message : Bytes} {signature : Signature} :
    (plainFor signer).answer history (.verify signer.verifyingKey message signature) = .ok () ↔
      signature = signer.sign message := by
  simp [plainFor, ofFunction]

theorem accepts_plainFor (signer : SigningKey) : (plainFor signer).Accepts signer :=
  fun _ _ ↦ answer_plainFor_verify_iff.mpr rfl

end Provider

/-- A message that carries a text and was made by a signer with a ratchet on the path of the one it
started from. -/
structure Message.Genuine (provider : Provider) (origin : Sender) (text : Bytes)
    (message : Message) : Prop where
  ahead : origin.messageIndex ≤ message.index
  signed : message.signature = origin.signingKey.sign message.signedBytes
  encrypted : ∃ keys history,
    Yields ((origin.ratchet.atIndex provider message.index).messageKeys provider :
      Action Unit RatchetError _) () keys () ∧
    provider.answer history
      (.aeadEncrypt keys.1 keys.2 (Message.header message.index) text) =
        .ok ⟨message.ciphertext, message.mac⟩

namespace Sender

variable {σ : Type} {provider : Provider} {sender : Sender} {text : Bytes} {journal : Journal}

/-! ## What encrypting does -/

/-- All that is made for the next message, with a copy of the ratchet. -/
def compose (provider : Provider) (sender : Sender) (text : Bytes) :
    Action σ RatchetError (Sealed × Ratchet) := do
  let keys ← sender.ratchet.messageKeys provider
  let content : Sealed ←
    (Action.request provider
      (.aeadEncrypt keys.1 keys.2 (Message.header sender.messageIndex) text)).mapError .crypto
  let ratchet ← Action.onCopy (Ratchet.advance provider) sender.ratchet
  return (content, ratchet)

private theorem encrypt_apply (provider : Provider) (text : Bytes) (sender : Sender)
    (journal : Journal) :
    encrypt provider text sender journal =
      (compose provider sender text >>= fun made ↦ do
        set { sender with ratchet := made.2 }
        return sender.sign sender.messageIndex made.1) sender journal := by
  rw [compose]
  simp only [bind_assoc, pure_bind]
  rfl

private theorem keepsState_compose (sender : Sender) (text : Bytes) :
    KeepsState (compose provider sender text : Action σ RatchetError _) :=
  .bind (Session.keepsState_messageKeys _) fun _ ↦
    .bind (.mapError (.request provider _) _) fun _ ↦
      .bind (.onCopy _ _) fun _ ↦ .pure _

theorem state_encrypt_of_error {fault : RatchetError}
    (herror : (encrypt provider text sender journal).result = .error fault) :
    (encrypt provider text sender journal).state = sender := by
  rw [encrypt_apply] at herror ⊢
  cases hmade : (compose provider sender text sender journal).result with
  | error fault =>
    rw [bind_apply_error hmade]
    exact keepsState_compose sender text sender journal
  | ok made =>
    rw [bind_apply_ok hmade] at herror
    cases herror

/-- A sender that succeeds has put the content it made into a message, and stepped on. -/
theorem encrypt_of_ok {message : Message}
    (hok : (encrypt provider text sender journal).result = .ok message) :
    ∃ content ratchet,
      (compose provider sender text sender journal).result = .ok (content, ratchet) ∧
      message = sender.sign sender.messageIndex content ∧
      (encrypt provider text sender journal).state = { sender with ratchet } := by
  rw [encrypt_apply] at hok ⊢
  cases hmade : (compose provider sender text sender journal).result with
  | error fault =>
    rw [bind_apply_error hmade] at hok
    cases hok
  | ok made =>
    rw [bind_apply_ok hmade] at hok ⊢
    exact ⟨made.1, made.2, rfl, (Except.ok.inj hok).symm, rfl⟩

private theorem of_compose_ok {state : σ} {content : Sealed} {ratchet : Ratchet}
    (hmade : (compose provider sender text state journal).result = .ok (content, ratchet)) :
    (∃ keys history,
      (sender.ratchet.messageKeys provider state journal).result = .ok keys ∧
      provider.answer history
        (.aeadEncrypt keys.1 keys.2 (Message.header sender.messageIndex) text) = .ok content) ∧
    ∃ journal', (Ratchet.advance provider sender.ratchet journal').state = ratchet := by
  obtain ⟨keys, hkeys, hmade⟩ := result_bind_eq_ok_iff.mp hmade
  obtain ⟨content', hcontent, hmade⟩ := result_bind_eq_ok_iff.mp hmade
  obtain ⟨ratchet', hratchet, hmade⟩ := result_bind_eq_ok_iff.mp hmade
  cases hmade
  exact ⟨⟨keys, _, hkeys, result_mapError_eq_ok_iff.mp hcontent⟩,
    _, (result_onCopy_eq_ok_iff.mp hratchet).2⟩

theorem encrypt_succeeds {signer : SigningKey} (h : provider.Serves signer)
    (hencrypts : provider.Reliable .aeadEncrypt) (sender : Sender) (text : Bytes)
    (journal : Journal) :
    ∃ message, (encrypt provider text sender journal).result = .ok message := by
  have hfeasible : (Request.hkdf 56 [] sender.ratchet.toBytes.toList
      Ratchet.messageKeysInfo).Feasible := by
    rw [Request.Feasible]
    decide
  obtain ⟨material, hmaterial⟩ := h.keys_reliable _ rfl hfeasible []
  obtain ⟨ratchet, hstep⟩ :=
    Ratchet.exists_advanceTimes_yields h.hash_steady h.hash_reliable 1 sender.ratchet
  rw [Ratchet.advanceTimes_one] at hstep
  have hkeys : Yields (sender.ratchet.messageKeys provider) sender
      (material.cut 0 32 (by decide), material.cut 32 24 (by decide)) sender :=
    ((yields_request (fun history ↦ (h.keys_steady _ rfl history).trans hmaterial) sender).mapError
      _).bind (yields_pure _ sender)
  have hmade : ∃ made, (compose provider sender text sender journal).result = .ok made := by
    -- The answer to this one request may depend on what was asked before.
    obtain ⟨content, hcontent⟩ := hencrypts (.aeadEncrypt (material.cut 0 32 (by decide))
      (material.cut 32 24 (by decide)) (Message.header sender.messageIndex) text) rfl trivial
      (sender.ratchet.messageKeys provider sender journal).journal.requests
    exact ⟨(content, ratchet), result_bind_eq_ok_iff.mpr ⟨_, (hkeys journal).1,
      result_bind_eq_ok_iff.mpr ⟨content, result_mapError_eq_ok_iff.mpr hcontent,
        result_bind_eq_ok_iff.mpr ⟨ratchet, ((hstep.onCopy _) _).1, rfl⟩⟩⟩⟩
  obtain ⟨made, hmade⟩ := hmade
  rw [encrypt_apply, bind_apply_ok hmade]
  exact ⟨_, rfl⟩

/-- What is signed does not depend on the signature that is put there afterwards. -/
private theorem signature_sign (sender : Sender) (index : UInt32) (content : Sealed) :
    (sender.sign index content).signature =
      sender.signingKey.sign (sender.sign index content).signedBytes := by
  have hsigned : (sender.sign index content).signedBytes =
      Message.signedBytes ⟨index, content.ciphertext, content.tag, FixedBytes.zero 64⟩ := by
    simp only [Message.signedBytes, sign]
  rw [hsigned, sign]

/-- On its path, a sender makes genuine messages, and goes on to the next index. -/
theorem encrypt_genuine {origin : Sender} (h : provider.Serves origin.signingKey)
    (hkey : sender.signingKey = origin.signingKey) (hle : origin.messageIndex ≤ sender.messageIndex)
    (hpath : sender.ratchet = origin.ratchet.atIndex provider sender.messageIndex)
    (hlt : sender.messageIndex.toNat + 1 < 2 ^ 32) {message : Message}
    (hok : (encrypt provider text sender journal).result = .ok message) :
    message.index = sender.messageIndex ∧ message.Genuine provider origin text ∧
      (encrypt provider text sender journal).state = { sender with
        ratchet := origin.ratchet.atIndex provider (sender.messageIndex + 1) } := by
  obtain ⟨content, ratchet, hmade, rfl, hstate⟩ := encrypt_of_ok hok
  obtain ⟨⟨keys, history, hkeys, hcontent⟩, journal', hstep⟩ := of_compose_ok hmade
  refine ⟨rfl, ⟨hle, ?_, keys, history, ?_, hcontent⟩, ?_⟩
  · rw [← hkey]
    exact signature_sign sender sender.messageIndex content
  · have halike := Session.answersAlike_messageKeys (σ := Sender) (τ := Unit) h.keys_steady
      sender.ratchet
    have hindex : (sender.sign sender.messageIndex content).index = sender.messageIndex := rfl
    rw [hindex, ← hpath]
    exact halike.yields (Session.keepsState_messageKeys _) hkeys ()
  · have hnext := Ratchet.advance_yields_atIndex h.hash_steady h.hash_reliable hle hlt
    rw [← hpath] at hnext
    rw [hstate, ← hstep, (hnext journal').2]

end Sender

/-! ## Runs of a sender -/

/-- A text that was sent, and the message that carries it. -/
structure Sent where
  /-- The text. -/
  text : Bytes
  /-- The message. -/
  message : Message

/-- How far a sender has come. -/
structure Sending where
  /-- The sender. -/
  sender : Sender
  /-- Everything that has happened. -/
  journal : Journal
  /-- What was sent, in the order of sending. -/
  sent : List Sent := []

namespace Sending

variable {provider : Provider} {origin : Sender} {sending : Sending}

/-- Sends one more text, if it can be encrypted. -/
def send (provider : Provider) (sending : Sending) (text : Bytes) : Sending :=
  let outcome := Sender.encrypt provider text sending.sender sending.journal
  { sender := outcome.state
    journal := outcome.journal
    sent := match outcome.result with
      | .ok message => sending.sent ++ [⟨text, message⟩]
      | .error _ => sending.sent }

/-- Sends texts one after the other. -/
def sendAll (provider : Provider) (sending : Sending) (texts : List Bytes) : Sending :=
  texts.foldl (send provider) sending

/-- Sending one more text either changes nothing but the journal, or makes a message. -/
private theorem send_cases (provider : Provider) (sending : Sending) (text : Bytes) :
    ((sending.send provider text).sender = sending.sender ∧
        (sending.send provider text).sent = sending.sent) ∨
      ∃ message,
        (Sender.encrypt provider text sending.sender sending.journal).result = .ok message ∧
        (sending.send provider text).sent = sending.sent ++ [⟨text, message⟩] := by
  cases hresult : (Sender.encrypt provider text sending.sender sending.journal).result with
  | error fault =>
    refine .inl ⟨Sender.state_encrypt_of_error hresult, ?_⟩
    simp only [send, hresult]
  | ok message =>
    refine .inr ⟨message, rfl, ?_⟩
    simp only [send, hresult]

private theorem signingKey_send (provider : Provider) (sending : Sending) (text : Bytes) :
    (sending.send provider text).sender.signingKey = sending.sender.signingKey := by
  change (Sender.encrypt provider text sending.sender sending.journal).state.signingKey = _
  cases hresult : (Sender.encrypt provider text sending.sender sending.journal).result with
  | error fault => rw [Sender.state_encrypt_of_error hresult]
  | ok message =>
    obtain ⟨_, _, -, -, hstate⟩ := Sender.encrypt_of_ok hresult
    rw [hstate]

theorem signingKey_sendAll (provider : Provider) (sending : Sending) (texts : List Bytes) :
    (sending.sendAll provider texts).sender.signingKey = sending.sender.signingKey :=
  List.foldlRecOn (motive := fun middle : Sending ↦
    middle.sender.signingKey = sending.sender.signingKey) texts _ rfl
    fun middle h text _ ↦ (signingKey_send provider middle text).trans h

section Encrypts

variable {signer : SigningKey} (h : provider.Serves signer)
  (hencrypts : provider.Reliable .aeadEncrypt)

include h hencrypts

theorem texts_send (sending : Sending) (text : Bytes) :
    (sending.send provider text).sent.map (·.text) = sending.sent.map (·.text) ++ [text] := by
  obtain ⟨message, hok⟩ := Sender.encrypt_succeeds h hencrypts sending.sender text sending.journal
  simp only [send, hok, List.map_append, List.map_cons, List.map_nil]

theorem texts_sendAll (sending : Sending) (texts : List Bytes) :
    (sending.sendAll provider texts).sent.map (·.text) = sending.sent.map (·.text) ++ texts := by
  induction texts generalizing sending with
  | nil => exact (List.append_nil _).symm
  | cons text texts ih =>
    have hrest := ih (sending.send provider text)
    rw [texts_send h hencrypts, List.append_assoc] at hrest
    exact hrest

end Encrypts

/-- The sender is on the path of its origin, as far as it has sent messages, and the messages are
genuine and have the indices of the path in order. -/
structure OnPath (provider : Provider) (origin : Sender) (sending : Sending) : Prop where
  signingKey : sending.sender.signingKey = origin.signingKey
  index : sending.sender.messageIndex.toNat = origin.messageIndex.toNat + sending.sent.length
  ratchet : sending.sender.ratchet =
    origin.ratchet.atIndex provider sending.sender.messageIndex
  indices : ∀ i sent, sending.sent[i]? = some sent →
    sent.message.index.toNat = origin.messageIndex.toNat + i
  genuine : ∀ sent ∈ sending.sent, sent.message.Genuine provider origin sent.text

theorem OnPath.first (provider : Provider) (origin : Sender) (journal : Journal) :
    OnPath provider origin ⟨origin, journal, []⟩ where
  signingKey := rfl
  index := rfl
  ratchet := (Ratchet.atIndex_self provider origin.ratchet).symm
  indices _ _ h := nomatch h
  genuine _ h := nomatch h

theorem OnPath.of_journal (hpath : OnPath provider origin sending) (journal : Journal) :
    OnPath provider origin { sending with journal } :=
  ⟨hpath.signingKey, hpath.index, hpath.ratchet, hpath.indices, hpath.genuine⟩

theorem length_sent_le (provider : Provider) (sending : Sending) (text : Bytes) :
    sending.sent.length ≤ (sending.send provider text).sent.length := by
  rcases send_cases provider sending text with ⟨-, hsent⟩ | ⟨message, -, hsent⟩
  · exact Nat.le_of_eq (congrArg List.length hsent).symm
  · rw [hsent, List.length_append]
    exact Nat.le_add_right _ _

theorem OnPath.send (h : provider.Serves origin.signingKey)
    (hpath : OnPath provider origin sending) (text : Bytes)
    (hlt : origin.messageIndex.toNat + (sending.send provider text).sent.length < 2 ^ 32) :
    OnPath provider origin (sending.send provider text) := by
  obtain ⟨hkey, hindex, hratchet, hindices, hgenuine⟩ := hpath
  rcases send_cases provider sending text with ⟨hsender, hsent⟩ | ⟨message, hok, hsent⟩
  · exact ⟨hsender ▸ hkey, by rw [hsender, hsent, hindex], hsender ▸ hratchet, hsent ▸ hindices,
      hsent ▸ hgenuine⟩
  · rw [hsent, List.length_append, List.length_singleton] at hlt
    have hle : origin.messageIndex ≤ sending.sender.messageIndex :=
      UInt32.le_iff_toNat_le.mpr (by omega)
    obtain ⟨hmessage, hmade, hstate⟩ :=
      Sender.encrypt_genuine h hkey hle hratchet (by omega) hok
    have hsender : (sending.send provider text).sender = { sending.sender with
        ratchet := origin.ratchet.atIndex provider (sending.sender.messageIndex + 1) } := hstate
    have hnext : (sending.sender.messageIndex + 1).toNat =
        sending.sender.messageIndex.toNat + 1 := Ratchet.toNat_add_one (by omega)
    have hle' : origin.messageIndex ≤ sending.sender.messageIndex + 1 :=
      UInt32.le_iff_toNat_le.mpr (by omega)
    have hcounter : (sending.send provider text).sender.messageIndex =
        sending.sender.messageIndex + 1 := by
      rw [hsender]
      exact Ratchet.counter_atIndex h.hash_steady h.hash_reliable hle'
    refine ⟨by rw [hsender, hkey], ?_, by rw [hcounter, hsender], ?_, ?_⟩
    · rw [hcounter, hnext, hsent, List.length_append, List.length_singleton]
      omega
    · intro i sent hi
      rw [hsent, List.getElem?_append] at hi
      split at hi
      case isTrue => exact hindices i sent hi
      case isFalse hlength =>
        rw [List.getElem?_singleton] at hi
        split at hi
        · cases hi
          rw [hmessage]
          omega
        · cases hi
    · intro sent hmem
      rw [hsent] at hmem
      rcases List.mem_append.mp hmem with hmem | hmem
      · exact hgenuine sent hmem
      · rw [List.mem_singleton] at hmem
        subst hmem
        exact hmade

/-- As long as the counter does not begin anew, all that a sender sends is on its path. -/
theorem onPath_sendAll (h : provider.Serves origin.signingKey) (texts : List Bytes)
    (journal : Journal) (hlt : origin.messageIndex.toNat +
      (sendAll provider ⟨origin, journal, []⟩ texts).sent.length < 2 ^ 32) :
    OnPath provider origin (sendAll provider ⟨origin, journal, []⟩ texts) := by
  -- The bound on all messages sent is one on those sent so far, so it can be kept until the end.
  refine List.foldlRecOn (motive := fun middle ↦
    origin.messageIndex.toNat + middle.sent.length < 2 ^ 32 → OnPath provider origin middle)
    texts _ (fun _ ↦ .first provider origin journal) ?_ hlt
  intro middle ih text _ hlt
  have hbefore := length_sent_le provider middle text
  exact (ih (by omega)).send h text hlt

end Sending

end GroupSession
