import GroupSession.Proofs.HistoryIndependence
import GroupSession.Proofs.KeyFormat
import GroupSession.Proofs.MessageFormat
import GroupSession.Proofs.PublicKey
import GroupSession.Proofs.Sending

/-!
# Delivery

A sender and a receiver talk over a line that may lose messages, repeat them, deliver them in any
order, and bring anything else as well. The receiver joins with the key that the sender hands out,
and then whatever happens on the line, every message of the sender is decrypted whose index the
receiver has not left behind.

## Following

What makes this work is that a receiver stays on the path of the sender's ratchet. Whatever it
accepts moves it to another place on that path, and whatever it rejects leaves it in place. So when
a genuine message arrives, a jump leads to the very ratchet that the sender had when it made the
message, and the keys agree.
-/

namespace GroupSession

open GroupSession.Action Ed25519

namespace Session

variable {provider : Provider} {origin : Sender} {session : Session}

/-- The session is one of the sender's, on the path of its ratchet. -/
structure Follows (provider : Provider) (origin : Sender) (session : Session) : Prop where
  signingKey : session.signingKey = origin.signingKey.verifyingKey
  joined : session.firstKnownIndex ≤ session.messageIndex
  ahead : origin.messageIndex ≤ session.messageIndex
  ratchet : session.ratchet = origin.ratchet.atIndex provider session.messageIndex

private theorem Follows.reaches_iff (hfollows : Follows provider origin session) {index : UInt32} :
    session.Reaches index ↔ session.messageIndex ≤ index :=
  ⟨And.right, fun hle ↦ ⟨UInt32.le_trans hfollows.joined hle, hle⟩⟩

section Serves

variable (h : provider.Serves origin.signingKey)

include h

private theorem Follows.decrypt (hfollows : Follows provider origin session) (bytes : Bytes)
    (journal : Journal) :
    Follows provider origin (Session.decrypt provider bytes session journal).state := by
  cases hresult : (Session.decrypt provider bytes session journal).result with
  | error fault =>
    rw [state_decrypt_of_error hresult]
    exact hfollows
  | ok answer =>
    obtain ⟨hreach, hstate⟩ := state_decrypt_of_ok h.hash_steady h.hash_reliable hresult
    have hindex := messageIndex_movedTo h.hash_steady h.hash_reliable hreach
    have hjump := Ratchet.atIndex_atIndex h.hash_steady h.hash_reliable hfollows.ahead hreach.2
    rw [← hfollows.ratchet] at hjump
    rw [hstate]
    refine ⟨hfollows.signingKey, ?_, ?_, ?_⟩
    · rw [hindex]
      exact hreach.1
    · rw [hindex]
      exact UInt32.le_trans hfollows.ahead hreach.2
    · rw [hindex]
      exact hjump

private theorem Follows.authenticate_genuine (hfollows : Follows provider origin session)
    {text : Bytes} {message : Message} (hgenuine : message.Genuine provider origin text)
    (hle : session.messageIndex ≤ message.index) {σ : Type} (state : σ) :
    Yields (authenticate provider session message) state
      (origin.ratchet.atIndex provider message.index, text) state := by
  obtain ⟨-, hsigned, keys, history, hkeys, hcontent⟩ := hgenuine
  have hverify (history : List Request) : provider.answer history
      (.verify session.signingKey message.signedBytes message.signature) = .ok () := by
    rw [hfollows.signingKey, hsigned]
    exact h.accepts history message.signedBytes
  have hjump := Ratchet.advanceTo_yields h.hash_steady h.hash_reliable hle
  have hpath : session.ratchet.atIndex provider message.index =
      origin.ratchet.atIndex provider message.index := by
    rw [hfollows.ratchet]
    exact Ratchet.atIndex_atIndex h.hash_steady h.hash_reliable hfollows.ahead hle
  rw [hpath] at hjump
  -- Past the jump, the receiver makes the requests that the sender has made.
  have hkeys := (answersAlike_messageKeys h.keys_steady _).yields
    (keepsState_messageKeys _) (hkeys {}).1 state
  have hopen (history' : List Request) := h.opens history history' _ _ _ _ _ hcontent
  exact ((yields_request hverify state).mapError _).bind <|
    ((hjump.onCopy state).mapError _).bind <| (hkeys.mapError _).bind <|
      ((yields_request hopen state).mapError _).bind (yields_pure _ state)

/-- **What a receiver makes of a genuine message.** It decrypts the text, unless it has left the
message's index behind. -/
theorem Follows.decrypt_genuine (hfollows : Follows provider origin session) {text : Bytes}
    {message : Message} (hgenuine : message.Genuine provider origin text) (journal : Journal) :
    (Session.decrypt provider message.toBytes session journal).result =
      if session.messageIndex ≤ message.index then .ok (text, message.index)
      else .error (.indexTooLow message.index session.messageIndex) := by
  have hbytes := Message.ofBytes_toBytes message
  by_cases hle : session.messageIndex ≤ message.index
  · have hauthentic := hfollows.authenticate_genuine h hgenuine hle session journal
    rw [if_pos hle]
    exact (decrypt_of_authenticate_ok hbytes (hfollows.reaches_iff.mpr hle) hauthentic.1).1
  · have hreach : ¬session.Reaches message.index := fun hreach ↦ hle hreach.2
    rw [if_neg hle, decrypt_of_not_reaches hbytes hreach]

end Serves

/-! ## Joining -/

/-- The key that a sender hands out makes a session at the sender's index. -/
theorem init_sessionKey (sender : Sender)
    (haccepts : provider.Accepts sender.signingKey) {σ : Type} (state : σ) :
    Yields (init provider sender.sessionKey.toBytes) state
      (ofRatchet sender.ratchet sender.signingKey.verifyingKey true) state := by
  have hsigner : sender.sessionKey.material.verifyingKey = .ok sender.signingKey.verifyingKey :=
    KeyMaterial.verifyingKey_eq_ok sender.signingKey.valid_verifyingKey rfl
  have hverify (history : List Request) := haccepts history sender.sessionKey.signedBytes
  have hkey : Yields (sender.sessionKey.verify provider) state
      sender.signingKey.verifyingKey state := by
    rw [SessionKey.verify, hsigner]
    exact (yields_ofExcept _ state).bind <|
      ((yields_request hverify state).mapError _).bind (yields_pure _ state)
  rw [init, SessionKey.ofBytes_toBytes]
  exact (yields_ofExcept sender.sessionKey state).bind <|
    (hkey.mapError _).bind <| (yields_log _ state).bind (yields_pure _ state)

private theorem follows_ofRatchet {sending : Sending} (hpath : sending.OnPath provider origin)
    (verified : Bool) : Follows provider origin
      (ofRatchet sending.sender.ratchet sending.sender.signingKey.verifyingKey verified) where
  signingKey := congrArg SigningKey.verifyingKey hpath.signingKey
  joined := UInt32.le_refl _
  ahead := UInt32.le_iff_toNat_le.mpr (hpath.index ▸ Nat.le_add_right _ _)
  ratchet := hpath.ratchet

end Session

/-! ## Conversations -/

/-- What happens next between a sender and a receiver. -/
inductive Turn
  /-- The sender encrypts a text. -/
  | send (text : Bytes)
  /-- The receiver is given some bytes. -/
  | receive (bytes : Bytes)

/-- The text that is encrypted, if it is the sender's turn. -/
def Turn.text? : Turn → Option Bytes
  | send text => some text
  | receive _ => none

/-- What a receiver was given, and what it made of it. -/
structure Reception where
  /-- What it was given. -/
  bytes : Bytes
  /-- The lowest index that it could decrypt at that moment. -/
  lowest : UInt32
  /-- Its answer. -/
  result : Except SessionError (Bytes × UInt32)

/-- A sender and a receiver, and what has passed between them. -/
structure Conversation extends Sending where
  /-- The receiver. -/
  session : Session
  /-- What the receiver was given, the latest first. -/
  receptions : List Reception := []

namespace Conversation

variable {provider : Provider} {origin : Sender} {conversation : Conversation}

/-- Takes one more turn. -/
def turn (provider : Provider) (conversation : Conversation) : Turn → Conversation
  | .send text => { conversation with toSending := conversation.toSending.send provider text }
  | .receive bytes =>
    let outcome := Session.decrypt provider bytes conversation.session conversation.journal
    { conversation with
      session := outcome.state
      journal := outcome.journal
      receptions :=
        ⟨bytes, conversation.session.messageIndex, outcome.result⟩ :: conversation.receptions }

/-- Takes turns one after the other. -/
def run (provider : Provider) (conversation : Conversation) (turns : List Turn) : Conversation :=
  turns.foldl (turn provider) conversation

/-- Sender and receiver are on the sender's path, and every genuine message that was received was
decrypted, unless the receiver had left it behind. -/
structure Faithful (provider : Provider) (origin : Sender) (conversation : Conversation) :
    Prop where
  sending : conversation.toSending.OnPath provider origin
  follows : conversation.session.Follows provider origin
  received : ∀ reception ∈ conversation.receptions, ∀ text (message : Message),
    message.Genuine provider origin text → reception.bytes = message.toBytes →
      reception.result =
        if reception.lowest ≤ message.index then .ok (text, message.index)
        else .error (.indexTooLow message.index reception.lowest)

private theorem length_sent_le (provider : Provider) (conversation : Conversation) (turn : Turn) :
    conversation.sent.length ≤ (conversation.turn provider turn).sent.length := by
  cases turn with
  | send text => exact Sending.length_sent_le provider conversation.toSending text
  | receive bytes => exact Nat.le_refl _

private theorem texts_run {signer : SigningKey} (h : provider.Serves signer)
    (hencrypts : provider.Reliable .aeadEncrypt) (conversation : Conversation)
    (turns : List Turn) :
    (conversation.run provider turns).sent.map (·.text) =
      conversation.sent.map (·.text) ++ turns.filterMap Turn.text? := by
  induction turns generalizing conversation with
  | nil => exact (List.append_nil _).symm
  | cons turn turns ih =>
    have hrest := ih (conversation.turn provider turn)
    cases turn with
    | send text =>
      have htext := Sending.texts_send h hencrypts conversation.toSending text
      exact hrest.trans ((congrArg (· ++ _) htext).trans (List.append_assoc _ _ _))
    | receive bytes => exact hrest

/-- Every turn leaves sender and receiver on the path. -/
private theorem Faithful.turn (h : provider.Serves origin.signingKey)
    (hfaithful : Faithful provider origin conversation) (turn : Turn)
    (hlt : origin.messageIndex.toNat + (conversation.turn provider turn).sent.length < 2 ^ 32) :
    Faithful provider origin (conversation.turn provider turn) := by
  obtain ⟨hsending, hfollows, hreceived⟩ := hfaithful
  cases turn with
  | send text => exact ⟨hsending.send h text hlt, hfollows, hreceived⟩
  | receive bytes =>
    refine ⟨hsending.of_journal _, hfollows.decrypt h bytes conversation.journal, ?_⟩
    -- Only the newest reception is new; it may be of a message that is yet to be sent.
    intro reception hmem text message hgenuine hbytes
    rcases List.mem_cons.mp hmem with rfl | hmem
    · obtain rfl : bytes = message.toBytes := hbytes
      exact hfollows.decrypt_genuine h hgenuine conversation.journal
    · exact hreceived reception hmem text message hgenuine hbytes

/-- A whole conversation does, as long as the counter does not begin anew. -/
theorem Faithful.run (h : provider.Serves origin.signingKey)
    (hfirst : origin.messageIndex.toNat + conversation.sent.length < 2 ^ 32 →
      Faithful provider origin conversation) (turns : List Turn)
    (hlt : origin.messageIndex.toNat + (conversation.run provider turns).sent.length < 2 ^ 32) :
    Faithful provider origin (conversation.run provider turns) := by
  refine List.foldlRecOn (motive := fun middle : Conversation ↦
    origin.messageIndex.toNat + middle.sent.length < 2 ^ 32 → Faithful provider origin middle)
    turns _ hfirst ?_ hlt
  intro middle ih turn _ hlt
  have hbefore := length_sent_le provider middle turn
  exact (ih (by omega)).turn h turn hlt

/-- **Delivery.** A sender has sent some messages and hands out its session key. Then a session can
be made from the key, at the index of the next message. Let the sender go on to send texts, and let
the session be given those messages, earlier ones, and any other bytes, in any order. As long as the
sender's counter does not begin anew, the messages have the indices in the order of sending, and
whenever the session is given one of them, it answers with text and index, unless it has left that
index behind, which it then says. If encryption does not fail, every text is among them. -/
theorem delivers_sent_messages (provider : Provider) (start : Sender)
    (h : provider.Serves start.signingKey) (earlier : List Bytes) (journal : Journal) :
    let given := Sending.sendAll provider ⟨start, journal, []⟩ earlier
    let joining := Session.init provider given.sender.sessionKey.toBytes () given.journal
    let session := Session.ofRatchet given.sender.ratchet start.signingKey.verifyingKey true
    joining.result = .ok session ∧ session.messageIndex = given.sender.messageIndex ∧
      ∀ turns,
        let after := run provider ⟨{ given with journal := joining.journal }, session, []⟩ turns
        (provider.Reliable .aeadEncrypt →
          after.sent.map (·.text) = earlier ++ turns.filterMap Turn.text?) ∧
        (start.messageIndex.toNat + after.sent.length < 2 ^ 32 →
          (∀ i sent, after.sent[i]? = some sent →
            sent.message.index.toNat = start.messageIndex.toNat + i) ∧
          ∀ reception ∈ after.receptions, ∀ sent ∈ after.sent,
            reception.bytes = sent.message.toBytes →
              reception.result =
                if reception.lowest ≤ sent.message.index then
                  .ok (sent.text, sent.message.index)
                else .error (.indexTooLow sent.message.index reception.lowest)) := by
  intro given joining session
  have hkey : given.sender.signingKey = start.signingKey :=
    Sending.signingKey_sendAll provider ⟨start, journal, []⟩ earlier
  have hjoin := Session.init_sessionKey given.sender (hkey ▸ h.accepts) () given.journal
  have hsession : session =
      Session.ofRatchet given.sender.ratchet given.sender.signingKey.verifyingKey true := by
    rw [hkey]
  refine ⟨hsession ▸ hjoin.1, rfl, ?_⟩
  intro turns after
  refine ⟨fun hencrypts ↦ ?_, fun hlt ↦ ?_⟩
  · have hgiven : given.sent.map (·.text) = earlier :=
      Sending.texts_sendAll h hencrypts ⟨start, journal, []⟩ earlier
    have hafter := texts_run h hencrypts ⟨{ given with journal := joining.journal }, session, []⟩
      turns
    rw [hgiven] at hafter
    exact hafter
  · have hfaithful : Faithful provider start after := by
      refine .run h (fun hlt ↦ ?_) turns hlt
      have hpath : given.OnPath provider start := Sending.onPath_sendAll h earlier journal hlt
      exact ⟨hpath.of_journal _, hsession ▸ Session.follows_ofRatchet hpath true, nofun⟩
    refine ⟨hfaithful.sending.indices, ?_⟩
    intro reception hreception sent hsent
    exact hfaithful.received reception hreception _ _ (hfaithful.sending.genuine sent hsent)

/-- Three messages are sent, over the end of a byte of the index. The receiver joins at the second,
is given the third, then bytes that are no message, then the second, which comes too late. -/
theorem delivers_over_carry :
    let start : Sender := ⟨Ratchet.ofBytes (FixedBytes.zero 128) 0xff, .ofSeed (FixedBytes.zero 32)⟩
    let given := Sending.sendAll .plain ⟨start, {}, []⟩ [[1]]
    let messages := (given.sendAll .plain [[2], [3]]).sent.map (·.message.toBytes)
    let joining := Session.init .plain given.sender.sessionKey.toBytes () given.journal
    let session := Session.ofRatchet given.sender.ratchet start.signingKey.verifyingKey true
    let after := run .plain ⟨{ given with journal := joining.journal }, session, []⟩
      [.send [2], .send [3], .receive messages[2]!, .receive [7], .receive messages[1]!]
    joining.result = .ok session ∧ session.messageIndex = 0x100 ∧
      after.sent.map (·.text) = [[1], [2], [3]] ∧
      (∀ reception ∈ after.receptions, ∀ sent ∈ after.sent,
        reception.bytes = sent.message.toBytes →
          reception.result =
            if reception.lowest ≤ sent.message.index then .ok (sent.text, sent.message.index)
            else .error (.indexTooLow sent.message.index reception.lowest)) ∧
      after.receptions.map (·.result) =
        [.error (.indexTooLow 0x100 0x101), .error (.malformedMessage (.unknownVersion 7)),
          .ok ([3], 0x101)] := by
  -- Evaluation is fast only as long as the names stay in the goal.
  have hdelivers := delivers_sent_messages .plain
    ⟨Ratchet.ofBytes (FixedBytes.zero 128) 0xff, .ofSeed (FixedBytes.zero 32)⟩
    (Provider.serves_plain _) [[1]] {}
  exact ⟨hdelivers.1, by decide +kernel,
    (hdelivers.2.2 _).1 (Provider.reliable_plain (by decide)),
    ((hdelivers.2.2 _).2 (by decide +kernel)).2, by decide +kernel⟩

end Conversation

end GroupSession
