import GroupSession.Proofs.HistoryIndependence
import GroupSession.Proofs.KeyFormat
import GroupSession.Proofs.MessageFormat
import GroupSession.Proofs.Sending
import GroupSession.Proofs.Soundness

/-!
# Sharing a session

A receiver can let another one join its session from some index on. Nothing is lost on the way: with
a provider that does not look back and whose keyed hash does not fail, the new session answers from
that index on exactly as the one it was made from, also if it was passed on several times.

## Two sessions side by side

At first the two ratchets stand at different indices, the new one where the other would come to by a
jump. They may keep apart for as long as nothing is accepted, and then what decides is that jumps
compose. The first message that is accepted brings both ratchets to its index, and from then on they
are the same. Two sessions in one of these positions stand `Beside` each other, and every call from
the index on that both are given leaves them there.
-/

namespace GroupSession

open GroupSession.Action Ed25519

namespace Session

variable {provider : Provider} {session : Session}

/-! ## Making a shared session -/

/-- The key by which another receiver joins a session from an index on. -/
def keyAt (provider : Provider) (session : Session) (index : UInt32) : ExportedSessionKey :=
  ⟨session.ratchet.atIndex provider index, session.signingKey.bytes⟩

/-- The session of another receiver who joins from an index on. -/
def joinedAt (provider : Provider) (session : Session) (index : UInt32) : Session :=
  ofRatchet (session.ratchet.atIndex provider index) session.signingKey false

/-- Passes a session on, and answers with what the other receiver makes of the key. -/
def share {σ : Type} (provider : Provider) (session : Session) (index : UInt32) :
    Action σ SessionError Session := do
  let key ← session.exportKey provider index
  importKey key.toBytes

/-- Passes a session on from one receiver to the next. -/
def shareAlong {σ : Type} (provider : Provider) (session : Session) :
    List UInt32 → Action σ SessionError Session
  | [] => return session
  | index :: indices => do
    let next ← session.share provider index
    next.shareAlong provider indices

private theorem importKey_yields {σ : Type} (ratchet : Ratchet) {signer : VerifyingKey}
    (hvalid : signer.Valid) (state : σ) :
    Yields (importKey (ExportedSessionKey.toBytes ⟨⟨ratchet, signer.bytes⟩⟩)) state
      (ofRatchet ratchet signer false) state := by
  have hbytes : (ExportedSessionKey.ofBytes
      (ExportedSessionKey.toBytes ⟨⟨ratchet, signer.bytes⟩⟩)).mapError SessionError.ofKey =
        .ok ⟨⟨ratchet, signer.bytes⟩⟩ := by
    rw [ExportedSessionKey.ofBytes_toBytes]
    rfl
  have hsigner : (KeyMaterial.verifyingKey ⟨ratchet, signer.bytes⟩).mapError SessionError.ofKey =
      .ok signer := by
    rw [KeyMaterial.verifyingKey_eq_ok hvalid rfl, mapError_ok]
  rw [importKey, hbytes]
  refine (yields_ofExcept _ state).bind ?_
  dsimp only
  rw [hsigner]
  exact (yields_ofExcept _ state).bind ((yields_log _ state).bind (yields_pure _ state))

section Steady

variable (h : provider.Steady .hmacSha256) (hreliable : provider.Reliable .hmacSha256)

include h hreliable

private theorem exportKey_yields {σ : Type} {index : UInt32} (hle : session.messageIndex ≤ index)
    (state : σ) :
    Yields (session.exportKey provider index) state (session.keyAt provider index) state := by
  have hjump := Ratchet.advanceTo_yields h hreliable hle
  exact ((hjump.onCopy state).mapError _).bind (yields_pure _ state)

private theorem share_yields {σ : Type} (hvalid : session.signingKey.Valid) {index : UInt32}
    (hle : session.messageIndex ≤ index) (state : σ) :
    Yields (session.share provider index) state (session.joinedAt provider index) state :=
  (exportKey_yields h hreliable hle state).bind (importKey_yields _ hvalid state)

private theorem messageIndex_joinedAt {index : UInt32} (hle : session.messageIndex ≤ index) :
    (session.joinedAt provider index).messageIndex = index :=
  Ratchet.counter_atIndex h hreliable hle

theorem shareAlong_yields {σ : Type} (hvalid : session.signingKey.Valid)
    {earlier : List UInt32} {last : UInt32}
    (hsorted : (session.messageIndex :: (earlier ++ [last])).Pairwise (· ≤ ·)) (state : σ) :
    Yields (session.shareAlong provider (earlier ++ [last])) state
      (session.joinedAt provider last) state := by
  induction earlier generalizing session with
  | nil =>
    have hle : session.messageIndex ≤ last := List.rel_of_pairwise_cons hsorted (by simp)
    exact (share_yields h hreliable hvalid hle state).bind (yields_pure _ state)
  | cons index earlier ih =>
    have hle : session.messageIndex ≤ index := List.rel_of_pairwise_cons hsorted (by simp)
    have hrest := (List.pairwise_cons.mp hsorted).2
    have hlast : index ≤ last := List.rel_of_pairwise_cons hrest (by simp)
    rw [← messageIndex_joinedAt h hreliable hle] at hrest
    -- The last ratchet lies on the way of the first, whichever way it was reached.
    have hsame : (session.joinedAt provider index).joinedAt provider last =
        session.joinedAt provider last :=
      congrArg (ofRatchet · session.signingKey false)
        (Ratchet.atIndex_atIndex h hreliable hle hlast)
    rw [← hsame]
    exact (share_yields h hreliable hvalid hle state).bind (ih hvalid hrest)

end Steady

/-! ## Two sessions side by side -/

/-- A session and another one that was joined at an index, as calls from there on leave them: apart,
as long as nothing was accepted, or with the same ratchet. -/
structure Beside (provider : Provider) (index : UInt32) (session other : Session) : Prop where
  signingKey : other.signingKey = session.signingKey
  sound : session.Sound
  sound_other : other.Sound
  ratchet : other.ratchet = session.ratchet ∨
    session.messageIndex ≤ index ∧ other.ratchet = session.ratchet.atIndex provider index

variable {index target : UInt32} {other : Session}

private theorem beside_joinedAt (hsound : session.Sound) (hle : session.messageIndex ≤ index) :
    Beside provider index session (session.joinedAt provider index) :=
  ⟨rfl, hsound, sound_ofRatchet _ hsound.valid false, .inr ⟨hle, rfl⟩⟩

section Deterministic

variable (h : provider.Deterministic) (hreliable : provider.Reliable .hmacSha256)
  (hbeside : Beside provider index session other)

include h hreliable hbeside

private theorem Beside.messageIndex_le_iff (hle : index ≤ target) :
    other.messageIndex ≤ target ↔ session.messageIndex ≤ target := by
  rcases hbeside.ratchet with hratchet | ⟨hapart, hratchet⟩
  · rw [messageIndex, messageIndex, hratchet]
  · rw [messageIndex, hratchet, Ratchet.counter_atIndex (h _) hreliable hapart]
    exact ⟨fun _ ↦ UInt32.le_trans hapart hle, fun _ ↦ hle⟩

/-- Beyond the index where they were joined, both ratchets jump to the same. -/
private theorem Beside.advanceTo_eq (hle : index ≤ target) (journal journal' : Journal) :
    (Ratchet.advanceTo provider target session.ratchet journal).result =
        (Ratchet.advanceTo provider target other.ratchet journal').result ∧
      (Ratchet.advanceTo provider target session.ratchet journal).state =
        (Ratchet.advanceTo provider target other.ratchet journal').state := by
  rcases hbeside.ratchet with hratchet | ⟨hapart, hratchet⟩
  · rw [hratchet]
    exact Ratchet.ignoresJournal_advanceTo (h _) target session.ratchet journal journal'
  · have hcounter := Ratchet.counter_atIndex (h _) hreliable hapart
    rw [hratchet]
    refine Ratchet.advanceTo_eq_of_atIndex_eq (h _) hreliable (UInt32.le_trans hapart hle)
      (hcounter.symm ▸ hle) ?_ journal journal'
    exact (Ratchet.atIndex_atIndex (h _) hreliable hapart hle).symm

private theorem Beside.exportKey_eq (hle : index ≤ target) (journal journal' : Journal) :
    (session.exportKey provider target () journal).result =
      (other.exportKey provider target () journal').result := by
  obtain ⟨hresult, hstate⟩ := hbeside.advanceTo_eq h hreliable hle journal journal'
  rw [exportKey_apply, exportKey_apply, hresult, hstate, hbeside.signingKey]

private theorem Beside.decrypt_eq {bytes : Bytes}
    (hbytes : ∀ message, Message.ofBytes bytes = .ok message → index ≤ message.index)
    (journal journal' : Journal) :
    (decrypt provider bytes session journal).result =
      (decrypt provider bytes other journal').result := by
  cases hmessage : Message.ofBytes bytes with
  | error fault => rw [decrypt_of_malformed hmessage, decrypt_of_malformed hmessage]
  | ok message =>
    have hle := hbytes message hmessage
    have hsame := hbeside.messageIndex_le_iff h hreliable hle
    by_cases hreach : session.messageIndex ≤ message.index
    · exact result_decrypt_eq_of_reaches h hmessage hbeside.signingKey.symm
        (hbeside.sound.reaches_iff.mpr hreach)
        (hbeside.sound_other.reaches_iff.mpr (hsame.mpr hreach))
        (hbeside.advanceTo_eq h hreliable hle) journal journal'
    · -- Only what lies behind a common ratchet is out of reach.
      have hratchet : other.ratchet = session.ratchet := by
        rcases hbeside.ratchet with hratchet | ⟨hapart, -⟩
        · exact hratchet
        · exact absurd (UInt32.le_trans hapart hle) hreach
      have hout := mt hbeside.sound.reaches_iff.mp hreach
      have hout' := mt hbeside.sound_other.reaches_iff.mp (mt hsame.mp hreach)
      rw [decrypt_of_not_reaches hmessage hout, decrypt_of_not_reaches hmessage hout',
        messageIndex, messageIndex, hratchet]

private theorem Beside.ratchet_eq_of_ok {bytes : Bytes} {answer : Bytes × UInt32}
    {journal journal' : Journal}
    (hbytes : ∀ message, Message.ofBytes bytes = .ok message → index ≤ message.index)
    (hok : (decrypt provider bytes session journal).result = .ok answer) :
    (decrypt provider bytes other journal').state.ratchet =
      (decrypt provider bytes session journal).state.ratchet := by
  have hok' := (hbeside.decrypt_eq h hreliable hbytes journal journal').symm.trans hok
  obtain ⟨message, _, hmessage, hindex, -⟩ := result_decrypt_eq_ok_iff.mp hok
  have hle : index ≤ answer.2 := hindex ▸ hbytes message hmessage
  rw [(state_decrypt_of_ok (h _) hreliable hok).2, (state_decrypt_of_ok (h _) hreliable hok').2]
  exact (hbeside.advanceTo_eq h hreliable hle {} {}).2.symm

/-- A message from the index on leaves both beside each other. -/
private theorem Beside.decrypt {bytes : Bytes}
    (hbytes : ∀ message, Message.ofBytes bytes = .ok message → index ≤ message.index)
    (journal journal' : Journal) :
    Beside provider index (Session.decrypt provider bytes session journal).state
      (Session.decrypt provider bytes other journal').state := by
  have hsame := hbeside.decrypt_eq h hreliable hbytes journal journal'
  cases hresult : (Session.decrypt provider bytes session journal).result with
  | error fault =>
    rwa [state_decrypt_of_error hresult, state_decrypt_of_error (hsame.symm.trans hresult)]
  | ok answer =>
    have hratchet : (Session.decrypt provider bytes other journal').state.ratchet =
        (Session.decrypt provider bytes session journal).state.ratchet :=
      hbeside.ratchet_eq_of_ok h hreliable hbytes hresult
    refine ⟨?_, hbeside.sound.decrypt provider bytes journal,
      hbeside.sound_other.decrypt provider bytes journal', .inl hratchet⟩
    obtain ⟨-, _, -, hstate⟩ := takeOver_of_decrypt_ok hresult
    obtain ⟨-, _, -, hstate'⟩ := takeOver_of_decrypt_ok (hsame.symm.trans hresult)
    rw [hstate, hstate']
    exact hbeside.signingKey

end Deterministic

end Session

/-! ## Runs side by side -/

/-- The call concerns nothing before an index: it decrypts a message from there on, or what is no
message, or makes a key to join from there on. -/
def Call.From (index : UInt32) : Call → Prop
  | .decrypt bytes => ∀ message, Message.ofBytes bytes = .ok message → index ≤ message.index
  | .exportKey target => index ≤ target
  | .pickle .. => False

namespace Progress

variable {provider : Provider} {index : UInt32} {progress other : Progress}

/-- Two runs side by side: the sessions are, the same messages were accepted by both, and if there
were any, the ratchets are the same. -/
structure Beside (provider : Provider) (index : UInt32) (progress other : Progress) : Prop where
  sessions : Session.Beside provider index progress.session other.session
  accepted : other.accepted = progress.accepted
  ratchet : progress.accepted ≠ [] → other.session.ratchet = progress.session.ratchet

section Deterministic

variable (h : provider.Deterministic) (hreliable : provider.Reliable .hmacSha256)

include h hreliable

private theorem Beside.reply_eq (hbeside : Beside provider index progress other) {call : Call}
    (hcall : call.From index) : progress.reply provider call = other.reply provider call := by
  cases call with
  | decrypt bytes =>
    exact congrArg Reply.decrypted (hbeside.sessions.decrypt_eq h hreliable hcall _ _)
  | exportKey target =>
    exact congrArg Reply.exported (hbeside.sessions.exportKey_eq h hreliable hcall _ _)
  | pickle key source => cases hcall

private theorem Beside.call (hbeside : Beside provider index progress other) {call : Call}
    (hcall : call.From index) :
    Beside provider index (progress.call provider call) (other.call provider call) := by
  cases call with
  | decrypt bytes =>
    have hsame := hbeside.sessions.decrypt_eq h hreliable hcall progress.journal other.journal
    have hsessions := hbeside.sessions.decrypt h hreliable hcall progress.journal other.journal
    cases hresult : (Session.decrypt provider bytes progress.session progress.journal).result with
    | error fault =>
      obtain ⟨hsession, haccepted⟩ := call_of_error hresult
      obtain ⟨hsession', haccepted'⟩ := call_of_error (hsame.symm.trans hresult)
      refine ⟨hsessions, haccepted'.trans (hbeside.accepted.trans haccepted.symm), ?_⟩
      rw [haccepted, hsession, hsession']
      exact hbeside.ratchet
    | ok answer =>
      obtain ⟨hsession, haccepted⟩ := call_of_ok hresult
      obtain ⟨hsession', haccepted'⟩ := call_of_ok (hsame.symm.trans hresult)
      refine ⟨hsessions, ?_, fun _ ↦ ?_⟩
      · rw [haccepted, haccepted', hbeside.accepted]
      · rw [hsession, hsession']
        exact hbeside.sessions.ratchet_eq_of_ok h hreliable hcall hresult
  | exportKey target => exact ⟨hbeside.sessions, hbeside.accepted, hbeside.ratchet⟩
  | pickle key source => cases hcall

theorem Beside.run (hbeside : Beside provider index progress other) {calls : List Call}
    (hcalls : ∀ call ∈ calls, call.From index) :
    progress.replies provider calls = other.replies provider calls ∧
      Beside provider index (progress.run provider calls) (other.run provider calls) := by
  induction calls generalizing progress other with
  | nil => exact ⟨rfl, hbeside⟩
  | cons call calls ih =>
    obtain ⟨hcall, hcalls⟩ := List.forall_mem_cons.mp hcalls
    obtain ⟨hreplies, hafter⟩ := ih (hbeside.call h hreliable hcall) hcalls
    exact ⟨by rw [replies, replies, hbeside.reply_eq h hreliable hcall, hreplies], hafter⟩

end Deterministic

end Progress

namespace Session

/-- **Sharing loses nothing.** Let a sound session be used with a provider that does not look back
and whose keyed hash does not fail. It can be passed on from every index that does not lie behind
it, and says of any other that it is too low. The session that is made of the key is the same
sender's, begins at that index, and is not verified. From the index on it makes the same keys, and
it is the same by whatever ways it was passed on. Whatever calls from there on both are given, they
answer alike, and once something was accepted, their ratchets are the same. But nothing before the
index is ever decrypted by it. -/
theorem joined_session_agrees (provider : Provider) (h : provider.Deterministic)
    (hreliable : provider.Reliable .hmacSha256) (session : Session) (hsound : session.Sound)
    (index : UInt32) :
    (∀ journal, (session.exportKey provider index () journal).result =
        .error (.indexTooLow index session.messageIndex) ↔ index < session.messageIndex) ∧
    (session.messageIndex ≤ index → ∃ (key : ExportedSessionKey) (joined : Session),
      (∀ journal, (session.exportKey provider index () journal).result = .ok key) ∧
      (∀ journal, (importKey key.toBytes () journal).result = .ok joined) ∧
      joined.id = session.id ∧ joined.firstKnownIndex = index ∧ joined.messageIndex = index ∧
      joined.verified = false ∧
      (∀ later, index ≤ later → ∃ key' : ExportedSessionKey, ∀ journal,
        (session.exportKey provider later () journal).result = .ok key' ∧
          (joined.exportKey provider later () journal).result = .ok key') ∧
      (∀ earlier, (session.messageIndex :: (earlier ++ [index])).Pairwise (· ≤ ·) → ∀ journal,
        (session.shareAlong provider (earlier ++ [index]) () journal).result = .ok joined) ∧
      (∀ calls : List Call, (∀ call ∈ calls, call.From index) → ∀ journal journal',
        let after := Progress.run provider ⟨session, journal, []⟩ calls
        let after' := Progress.run provider ⟨joined, journal', []⟩ calls
        Progress.replies provider ⟨session, journal, []⟩ calls =
            Progress.replies provider ⟨joined, journal', []⟩ calls ∧
          after'.accepted = after.accepted ∧
          (after.accepted ≠ [] → after'.session.ratchet = after.session.ratchet)) ∧
      ∀ calls journal bytes message, Message.ofBytes bytes = .ok message →
        message.index < index →
          let after := Progress.run provider ⟨joined, journal, []⟩ calls
          decrypt provider bytes after.session after.journal =
            ⟨.error (.indexTooLow message.index after.session.messageIndex), after.session,
              after.journal⟩) := by
  refine ⟨fun journal ↦ ?_, fun hle ↦ ?_⟩
  · rw [result_exportKey_eq_indexTooLow_iff]
    exact ⟨fun ⟨_, hlt, _⟩ ↦ hlt, fun hlt ↦ ⟨rfl, hlt, rfl⟩⟩
  have hbeside : Beside provider index session (session.joinedAt provider index) :=
    beside_joinedAt hsound hle
  have hindex := messageIndex_joinedAt (h _) hreliable hle
  refine ⟨session.keyAt provider index, session.joinedAt provider index,
    fun journal ↦ (exportKey_yields (h _) hreliable hle () journal).1,
    fun journal ↦ (importKey_yields _ hsound.valid () journal).1, rfl, hindex, hindex, rfl,
    fun later hlater ↦ ?_,
    fun earlier hsorted journal ↦
      (shareAlong_yields (h _) hreliable hsound.valid hsorted () journal).1,
    fun calls hcalls journal journal' ↦ ?_, fun calls journal bytes message hbytes hlt ↦ ?_⟩
  · have hexport : Yields (session.exportKey provider later) () (session.keyAt provider later) () :=
      exportKey_yields (h _) hreliable (UInt32.le_trans hle hlater) ()
    refine ⟨session.keyAt provider later, fun journal ↦ ⟨(hexport journal).1, ?_⟩⟩
    rw [← hbeside.exportKey_eq h hreliable hlater journal journal, (hexport journal).1]
  · have hfirst : Progress.Beside provider index ⟨session, journal, []⟩
        ⟨session.joinedAt provider index, journal', []⟩ := ⟨hbeside, rfl, nofun⟩
    obtain ⟨hreplies, hafter⟩ := hfirst.run h hreliable hcalls
    exact ⟨hreplies, hafter.accepted, hafter.ratchet⟩
  · have hle' := Progress.messageIndex_le_run provider
      ⟨session.joinedAt provider index, journal, []⟩ calls
    rw [hindex] at hle'
    refine decrypt_of_not_reaches hbytes (fun hreach ↦ ?_) _
    exact UInt32.not_lt.mpr (UInt32.le_trans hle' hreach.2) hlt

/-- A session is passed on over the end of a byte of the index, at once and by way of two others.
Both sessions are given bytes that are no message, a message that moves them, a request for a key,
and a message that comes too late. -/
theorem joined_session_agrees_over_carry :
    let session : Session :=
      ofRatchet (Ratchet.ofBytes (FixedBytes.zero 128) 0xfe) ⟨FixedBytes.zero 32⟩ true
    let message (index : UInt32) : Message := ⟨index, [7], FixedBytes.zero 16, FixedBytes.zero 64⟩
    let calls : List Call := [.decrypt [9], .decrypt (message 0x105).toBytes, .exportKey 0x106,
      .decrypt (message 0x103).toBytes]
    let after := Progress.run .plain ⟨session, {}, []⟩ calls
    after.accepted = [⟨(message 0x105).toBytes, [7], 0x105⟩] ∧
    ∃ (key : ExportedSessionKey) (joined : Session),
      (session.exportKey .plain 0x102 () {}).result = .ok key ∧
      (importKey key.toBytes () {}).result = .ok joined ∧ joined.messageIndex = 0x102 ∧
      (session.shareAlong .plain [0xff, 0x100, 0x102] () {}).result = .ok joined ∧
      Progress.replies .plain ⟨session, {}, []⟩ calls =
        Progress.replies .plain ⟨joined, {}, []⟩ calls ∧
      (Progress.run .plain ⟨joined, {}, []⟩ calls).session.ratchet = after.session.ratchet ∧
      decrypt .plain (message 0x101).toBytes joined {} =
        ⟨.error (.indexTooLow 0x101 0x102), joined, {}⟩ := by
  intro session message calls after
  have haccepted : after.accepted = [⟨(message 0x105).toBytes, [7], 0x105⟩] := by decide +kernel
  have hsound : session.Sound := sound_ofRatchet _ (by decide +kernel) true
  have hfrom (i : UInt32) (hi : 0x102 ≤ i) : Call.From 0x102 (.decrypt (message i).toBytes) := by
    intro found hfound
    rw [Message.ofBytes_toBytes] at hfound
    cases hfound
    exact hi
  have hcalls : ∀ call ∈ calls, call.From 0x102 := by
    simp only [calls, List.forall_mem_cons]
    have hexport : (0x102 : UInt32) ≤ 0x106 := by decide
    exact ⟨nofun, hfrom _ (by decide), hexport, hfrom _ (by decide), nofun⟩
  obtain ⟨key, joined, hexport, himport, -, -, hindex, -, -, halong, hagree, hlate⟩ :=
    (joined_session_agrees .plain (Provider.deterministic_ofFunction _)
      (Provider.reliable_plain (by decide)) session hsound 0x102).2 (by decide)
  obtain ⟨hreplies, -, hratchet⟩ := hagree calls hcalls {} {}
  have hlate := hlate [] {} _ (message 0x101) (Message.ofBytes_toBytes _) (by decide)
  refine ⟨haccepted, key, joined, hexport {}, himport {}, hindex,
    halong [0xff, 0x100] (by decide) {}, hreplies, hratchet ?_, hindex ▸ hlate⟩
  exact haccepted ▸ List.cons_ne_nil _ _

end Session

end GroupSession
