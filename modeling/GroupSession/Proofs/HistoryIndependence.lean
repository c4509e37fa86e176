import GroupSession.Proofs.Atomicity
import Mathlib.Algebra.Group.Nat.Defs

/-!
# History independence

Two receivers of the same messages may see them in different orders, lose different ones, and be
bothered with different forgeries. With a provider that does not look back and whose keyed hash does
not fail, none of that shows: where a session stands depends only on where it began and on the
latest index it has accepted.

## The way of a session

A session that has accepted a message of some index is `movedTo` that index: its ratchet is the one
that a single jump from the start would have left, and the sender is verified. As jumps compose, it
is the same to move there at once or by way of earlier messages. And a session that was moved treats
every message it can still reach exactly as it would have at the start.
-/

namespace GroupSession

open GroupSession.Action

namespace Session

variable {provider : Provider} {start : Session}

/-- The session after a message of some index has been accepted. -/
def movedTo (provider : Provider) (index : UInt32) (session : Session) : Session :=
  session.takeOver (session.ratchet.atIndex provider index)

theorem Reaches.mono {lower index : UInt32} (h : start.Reaches lower) (hle : lower ≤ index) :
    start.Reaches index :=
  ⟨UInt32.le_trans h.1 hle, UInt32.le_trans h.2 hle⟩

section Steady

variable (h : provider.Steady .hmacSha256) (hreliable : provider.Reliable .hmacSha256)

include h hreliable

theorem messageIndex_movedTo {index : UInt32} (hreach : start.Reaches index) :
    (start.movedTo provider index).messageIndex = index :=
  Ratchet.counter_atIndex h hreliable hreach.2

theorem reaches_movedTo_iff {middle index : UInt32} (hreach : start.Reaches middle) :
    (start.movedTo provider middle).Reaches index ↔ middle ≤ index := by
  rw [Reaches, messageIndex_movedTo h hreliable hreach]
  exact ⟨fun hindex ↦ hindex.2, fun hle ↦ ⟨UInt32.le_trans hreach.1 hle, hle⟩⟩

/-- It does not matter by way of which messages a session has come to an index. -/
theorem movedTo_movedTo {middle index : UInt32} (hreach : start.Reaches middle)
    (hle : middle ≤ index) :
    (start.movedTo provider middle).movedTo provider index = start.movedTo provider index := by
  have hratchet := Ratchet.atIndex_atIndex h hreliable hreach.2 hle
  simp only [movedTo, takeOver, hratchet]

theorem state_decrypt_of_ok {bytes plaintext : Bytes} {index : UInt32} {journal : Journal}
    (hok : (decrypt provider bytes start journal).result = .ok (plaintext, index)) :
    start.Reaches index ∧
      (decrypt provider bytes start journal).state = start.movedTo provider index := by
  obtain ⟨message, ratchet, hbytes, rfl, hreach, hauthentic⟩ := result_decrypt_eq_ok_iff.mp hok
  obtain ⟨journal', -, hratchet⟩ := advanceTo_of_authenticate_ok hauthentic
  have hjump := (Ratchet.advanceTo_yields h hreliable hreach.2 journal').2
  refine ⟨hreach, ?_⟩
  rw [(decrypt_of_authenticate_ok hbytes hreach hauthentic).2, ← hratchet, hjump, movedTo]

end Steady

section Deterministic

variable (h : provider.Deterministic) (hreliable : provider.Reliable .hmacSha256)

include h hreliable

/-- A session that was moved treats everything it can still reach as it would have before. -/
theorem decrypt_movedTo {middle : UInt32} (hreach : start.Reaches middle) {bytes : Bytes}
    (hbytes : ∀ message, Message.ofBytes bytes = .ok message → middle ≤ message.index)
    (journal journal' : Journal) :
    (decrypt provider bytes (start.movedTo provider middle) journal).result =
      (decrypt provider bytes start journal').result := by
  cases hmessage : Message.ofBytes bytes with
  | error fault => rw [decrypt_of_malformed hmessage, decrypt_of_malformed hmessage]
  | ok message =>
    have hle := hbytes message hmessage
    have hreach' := (reaches_movedTo_iff (h _) hreliable hreach).mpr hle
    have hkey : (start.movedTo provider middle).signingKey = start.signingKey := rfl
    have hsame : (start.movedTo provider middle).ratchet.atIndex provider message.index =
        start.ratchet.atIndex provider message.index :=
      Ratchet.atIndex_atIndex (h _) hreliable hreach.2 hle
    have hjump := Ratchet.advanceTo_eq_of_atIndex_eq (h _) hreliable hreach'.2
      (hreach.mono hle).2 hsame
    exact result_decrypt_eq_of_reaches h hmessage hkey hreach' (hreach.mono hle) hjump journal
      journal'

private theorem state_decrypt_movedTo {middle : UInt32} (hreach : start.Reaches middle)
    {bytes : Bytes}
    (hbytes : ∀ message, Message.ofBytes bytes = .ok message → middle ≤ message.index)
    (journal journal' : Journal) {answer : Bytes × UInt32}
    (hok : (decrypt provider bytes start journal').result = .ok answer) :
    (decrypt provider bytes (start.movedTo provider middle) journal).state =
      (decrypt provider bytes start journal').state := by
  have hok' := (decrypt_movedTo h hreliable hreach hbytes journal journal').trans hok
  obtain ⟨hreach', hstate'⟩ := state_decrypt_of_ok (h _) hreliable hok'
  obtain ⟨-, hstate⟩ := state_decrypt_of_ok (h _) hreliable hok
  have hle := (reaches_movedTo_iff (h _) hreliable hreach).mp hreach'
  rw [hstate', hstate]
  exact movedTo_movedTo (h _) hreliable hreach hle

private theorem decrypt_again {bytes plaintext : Bytes} {index : UInt32}
    (hok : ∀ journal, (decrypt provider bytes start journal).result = .ok (plaintext, index))
    (journal : Journal) :
    (decrypt provider bytes (start.movedTo provider index) journal).result =
        .ok (plaintext, index) ∧
      (decrypt provider bytes (start.movedTo provider index) journal).state =
        start.movedTo provider index := by
  obtain ⟨message, _, hmessage, rfl, hreach, -⟩ := result_decrypt_eq_ok_iff.mp (hok {})
  have hbytes (message' : Message) (hmessage' : Message.ofBytes bytes = .ok message') :
      message.index ≤ message'.index := by
    obtain rfl : message = message' := Except.ok.inj (hmessage.symm.trans hmessage')
    exact UInt32.le_refl _
  constructor
  · rw [decrypt_movedTo h hreliable hreach hbytes journal {}, hok]
  · rw [state_decrypt_movedTo h hreliable hreach hbytes journal {} (hok {})]
    exact (state_decrypt_of_ok (h _) hreliable (hok {})).2

end Deterministic

end Session

/-! ## Where a run stands -/

namespace Progress

open Session

variable {provider : Provider} {start : Session} {progress : Progress}

/-- The largest index of all messages that were accepted. -/
def LargestAccepted (progress : Progress) (index : UInt32) : Prop :=
  (∃ acceptance ∈ progress.accepted, acceptance.index = index) ∧
    ∀ acceptance ∈ progress.accepted, acceptance.index ≤ index

instance (progress : Progress) (index : UInt32) : Decidable (progress.LargestAccepted index) :=
  inferInstanceAs (Decidable (_ ∧ _))

theorem LargestAccepted.unique {index index' : UInt32} (h : progress.LargestAccepted index)
    (h' : progress.LargestAccepted index') : index = index' := by
  obtain ⟨⟨acceptance, hmem, rfl⟩, hle⟩ := h
  obtain ⟨⟨acceptance', hmem', rfl⟩, hle'⟩ := h'
  exact UInt32.le_antisymm (hle' _ hmem) (hle _ hmem')

/-- What is known of a run that began with some session: it stands at the index of the message
accepted last, which no other accepted message exceeds, and which the session would have accepted
at the start just as well. -/
structure Settled (provider : Provider) (start : Session) (progress : Progress) : Prop where
  untouched : progress.accepted = [] → progress.session = start
  reaches : ∀ last earlier, progress.accepted = last :: earlier → start.Reaches last.index
  moved : ∀ last earlier, progress.accepted = last :: earlier →
    progress.session = start.movedTo provider last.index
  largest : ∀ last earlier, progress.accepted = last :: earlier →
    progress.LargestAccepted last.index
  answer : ∀ last earlier, progress.accepted = last :: earlier → ∀ journal,
    (decrypt provider last.bytes start journal).result = .ok (last.plaintext, last.index)

private theorem Settled.first (provider : Provider) (start : Session) (journal : Journal) :
    Settled provider start ⟨start, journal, []⟩ :=
  ⟨fun _ ↦ rfl, nofun, nofun, nofun, nofun⟩

private theorem Settled.session_eq (hsettled : Settled provider start progress) {index : UInt32}
    (hlargest : progress.LargestAccepted index) :
    progress.session = start.movedTo provider index := by
  obtain ⟨⟨acceptance, hmem, -⟩, -⟩ := id hlargest
  obtain ⟨last, earlier, haccepted⟩ := List.exists_cons_of_ne_nil (List.ne_nil_of_mem hmem)
  rw [hlargest.unique (hsettled.largest last earlier haccepted)]
  exact hsettled.moved last earlier haccepted

private theorem Settled.of_cons {last : Acceptance} (hreach : start.Reaches last.index)
    (hsession : progress.session = start.movedTo provider last.index) {earlier : List Acceptance}
    (haccepted : progress.accepted = last :: earlier)
    (hlargest : ∀ acceptance ∈ earlier, acceptance.index ≤ last.index)
    (hanswer : ∀ journal, (decrypt provider last.bytes start journal).result =
      .ok (last.plaintext, last.index)) : Settled provider start progress := by
  have hlast (last' : Acceptance) (earlier' : List Acceptance)
      (h : progress.accepted = last' :: earlier') : last' = last :=
    (List.cons.inj (h.symm.trans haccepted)).1
  refine ⟨fun hnil ↦ ?_, fun _ _ h ↦ ?_, fun _ _ h ↦ ?_, fun _ _ h ↦ ?_, fun _ _ h ↦ ?_⟩
  · rw [haccepted] at hnil
    cases hnil
  all_goals obtain rfl := hlast _ _ h
  · exact hreach
  · exact hsession
  · refine ⟨⟨_, haccepted ▸ List.mem_cons_self, rfl⟩, fun acceptance hmem ↦ ?_⟩
    rw [haccepted] at hmem
    rcases List.mem_cons.mp hmem with rfl | hmem
    · exact UInt32.le_refl _
    · exact hlargest acceptance hmem
  · exact hanswer

section Deterministic

variable (h : provider.Deterministic) (hreliable : provider.Reliable .hmacSha256)

include h hreliable

private theorem Settled.call (hsettled : Settled provider start progress) (call : Call) :
    Settled provider start (progress.call provider call) := by
  rcases call_cases provider progress call with
    ⟨hsession, haccepted⟩ | ⟨bytes, plaintext, index, rfl, hok⟩
  · -- Nothing was accepted, and nothing has changed.
    obtain ⟨huntouched, hreach, hmoved, hlargest, hanswer⟩ := hsettled
    refine ⟨?_, ?_, ?_, ?_, ?_⟩ <;> simp only [LargestAccepted, hsession, haccepted] <;> assumption
  · obtain ⟨hsession, haccepted⟩ := call_of_ok hok
    obtain ⟨hreach, hstate⟩ := state_decrypt_of_ok (h _) hreliable hok
    rw [hstate] at hsession
    cases hprevious : progress.accepted with
    | nil =>
      rw [hsettled.untouched hprevious] at hok hreach hsession
      rw [hprevious] at haccepted
      refine .of_cons hreach hsession haccepted nofun fun journal ↦ ?_
      rw [(ignoresJournal_decrypt h bytes start journal progress.journal).1, hok]
    | cons last earlier =>
      -- The session was moved already; the way over the last index is as good as the direct one.
      have hbefore := hsettled.reaches last earlier hprevious
      rw [hsettled.moved last earlier hprevious] at hok hreach hsession
      have hle := (reaches_movedTo_iff (h _) hreliable hbefore).mp hreach
      rw [movedTo_movedTo (h _) hreliable hbefore hle] at hsession
      refine .of_cons (hbefore.mono hle) hsession haccepted (fun acceptance hmem ↦ ?_)
        fun journal ↦ ?_
      · exact UInt32.le_trans ((hsettled.largest last earlier hprevious).2 _ hmem) hle
      · obtain ⟨message, _, hbytes, hindex, -⟩ := result_decrypt_eq_ok_iff.mp hok
        rw [← decrypt_movedTo h hreliable hbefore ?_ progress.journal journal, hok]
        intro message' hmessage'
        obtain rfl : message = message' := Except.ok.inj (hbytes.symm.trans hmessage')
        exact hindex ▸ hle

theorem Settled.run (calls : List Call) (journal : Journal) :
    Settled provider start (Progress.run provider ⟨start, journal, []⟩ calls) :=
  List.foldlRecOn calls _ (.first provider start journal) fun _ hsettled call _ ↦
    hsettled.call h hreliable call

end Deterministic

end Progress

namespace Session

/-- **A session does not remember its history.** With a provider that does not look back and whose
keyed hash does not fail, a run of calls leaves the session at its start if no message was accepted,
and otherwise where a single jump to the largest accepted index would have led. So runs with the
same largest index end alike; nothing that the session can still reach is treated differently from
the start; and the message accepted last can be decrypted again, which changes nothing. -/
theorem run_determined_by_largest (provider : Provider) (h : provider.Deterministic)
    (hreliable : provider.Reliable .hmacSha256) (start : Session) (calls : List Call)
    (journal : Journal) :
    let after := Progress.run provider ⟨start, journal, []⟩ calls
    (after.accepted = [] → after.session = start) ∧
    (after.accepted ≠ [] → ∃ largest, after.LargestAccepted largest ∧ ∀ journal',
      (Ratchet.advanceTo provider largest start.ratchet journal').result = .ok () ∧
      after.session = { start with
        ratchet := (Ratchet.advanceTo provider largest start.ratchet journal').state
        verified := true }) ∧
    (∀ calls' journal' largest, after.LargestAccepted largest →
      (Progress.run provider ⟨start, journal', []⟩ calls').LargestAccepted largest →
      (Progress.run provider ⟨start, journal', []⟩ calls').session = after.session) ∧
    (∀ bytes, (∀ message, Message.ofBytes bytes = .ok message →
        after.session.messageIndex ≤ message.index) → ∀ journal₁ journal₂,
      (decrypt provider bytes after.session journal₁).result =
          (decrypt provider bytes start journal₂).result ∧
        ∀ answer, (decrypt provider bytes start journal₂).result = .ok answer →
          (decrypt provider bytes after.session journal₁).state =
            (decrypt provider bytes start journal₂).state) ∧
    ∀ last earlier, after.accepted = last :: earlier → ∀ journal',
      (decrypt provider last.bytes after.session journal').result =
          .ok (last.plaintext, last.index) ∧
        (decrypt provider last.bytes after.session journal').state = after.session := by
  intro after
  have hsettled : Progress.Settled provider start after := .run h hreliable calls journal
  refine ⟨hsettled.untouched, fun hnonempty ↦ ?_,
    fun calls' journal' largest hlargest hlargest' ↦ ?_,
    fun bytes hbytes journal₁ journal₂ ↦ ?_, fun last earlier haccepted journal' ↦ ?_⟩
  · obtain ⟨last, earlier, haccepted⟩ := List.exists_cons_of_ne_nil hnonempty
    refine ⟨last.index, hsettled.largest last earlier haccepted, fun journal' ↦ ?_⟩
    obtain ⟨hresult, hstate⟩ := Ratchet.advanceTo_yields (h _) hreliable
      (hsettled.reaches last earlier haccepted).2 journal'
    refine ⟨hresult, ?_⟩
    rw [hstate, hsettled.moved last earlier haccepted, movedTo, takeOver]
  · have hsettled' : Progress.Settled provider start
        (Progress.run provider ⟨start, journal', []⟩ calls') := .run h hreliable calls' journal'
    rw [hsettled'.session_eq hlargest', hsettled.session_eq hlargest]
  · cases haccepted : after.accepted with
    | nil =>
      rw [hsettled.untouched haccepted]
      obtain ⟨hresult, hstate⟩ := ignoresJournal_decrypt h bytes start journal₁ journal₂
      exact ⟨hresult, fun _ _ ↦ hstate⟩
    | cons last earlier =>
      have hreach := hsettled.reaches last earlier haccepted
      rw [hsettled.moved last earlier haccepted] at hbytes ⊢
      rw [messageIndex_movedTo (h _) hreliable hreach] at hbytes
      exact ⟨decrypt_movedTo h hreliable hreach hbytes journal₁ journal₂,
        fun _ ↦ state_decrypt_movedTo h hreliable hreach hbytes journal₁ journal₂⟩
  · rw [hsettled.moved last earlier haccepted]
    exact decrypt_again h hreliable (hsettled.answer last earlier haccepted) journal'

/-- Messages 2 and 5, then message 2 again, which comes too late; and message 5 alone. -/
theorem run_with_late_message :
    let answers : Provider := .ofFunction fun
      | .verify .. => .ok ()
      | .hmacSha256 key data =>
        .ok (.slice (data ++ key ++ List.replicate 32 0) 0 32 (by simp; omega))
      | .hkdf size .. => .ok (.zero size)
      | .aeadDecrypt _ _ _ given => .ok given.ciphertext
      | _ => .error ⟨"no answer"⟩
    let session : Session :=
      ofRatchet (Ratchet.ofBytes (FixedBytes.zero 128) 0) ⟨FixedBytes.zero 32⟩ false
    let message (index : UInt32) : Bytes :=
      Message.toBytes ⟨index, [7], FixedBytes.zero 16, FixedBytes.zero 64⟩
    let after := Progress.run answers ⟨session, {}, []⟩
      [.decrypt (message 2), .decrypt (message 5), .decrypt (message 2)]
    let direct := Progress.run answers ⟨session, {}, []⟩ [.decrypt (message 5)]
    after.accepted = [⟨message 5, [7], 5⟩, ⟨message 2, [7], 2⟩] ∧
      direct.session = after.session ∧
      (decrypt answers (message 5) after.session {}).result = .ok ([7], 5) ∧
      (decrypt answers (message 5) after.session {}).state = after.session := by
  intro answers session message after direct
  have hreliable : answers.Reliable .hmacSha256 := by
    rintro (_ | _ | _ | _ | _) hprimitive - history
    case hmacSha256 => exact ⟨_, rfl⟩
    all_goals cases hprimitive
  have haccepted : after.accepted = [⟨message 5, [7], 5⟩, ⟨message 2, [7], 2⟩] := by
    decide +kernel
  obtain ⟨-, -, hsame, -, hagain⟩ := run_determined_by_largest answers
    (Provider.deterministic_ofFunction _) hreliable session
    [.decrypt (message 2), .decrypt (message 5), .decrypt (message 2)] {}
  exact ⟨haccepted, hsame [.decrypt (message 5)] {} 5 (by decide +kernel) (by decide +kernel),
    hagain _ _ haccepted {}⟩

end Session

end GroupSession
