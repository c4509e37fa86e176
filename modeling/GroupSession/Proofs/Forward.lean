import GroupSession.Proofs.Atomicity
import GroupSession.Proofs.MessageFormat

/-!
# Moving forward only

A session never goes back. Its index is that of the message accepted last, so no message that lies
before an accepted one is ever accepted again, and to tell so the session asks nobody.

This does not depend on the provider. Hashes may be wrong, differ from one request to the next, or
not come at all: then the parts of a ratchet are worthless, but its counter is set by the jump
alone. So the statements here are about any provider, and what they say of a ratchet concerns its
counter only.

## The counter of a jump

On its way a jump has the bytes of all parts done in common with the target, and lies between start
and target. That is the invariant of `CounterBytes`, which each part that succeeds carries on to the
next.
-/

namespace GroupSession

open GroupSession.Action

namespace Ratchet

variable {provider : Provider} {index : UInt32} {ratchet : Ratchet} {journal : Journal}

/-! ## The counter of a jump -/

theorem counter_advancePart_of_ok {part : Fin 4}
    (hok : (advancePart provider index part ratchet journal).result = .ok ()) :
    (advancePart provider index part ratchet journal).state.counter =
      counterAfter part ratchet.counter index := by
  rw [advancePart_apply] at hok ⊢
  rw [counterAfter]
  split
  case isTrue => rfl
  case isFalse hsteps =>
    rw [if_neg hsteps] at hok
    obtain ⟨_, hhashes, -⟩ := result_bind_eq_ok_iff.mp hok
    rw [bind_apply_ok hhashes]
    rfl

/-- The parts from a given one on bring the counter to the target, if all before are done. -/
theorem counter_advanceParts_of_ok {count : Nat} (hcount : count ≤ 4)
    (hle : ratchet.counter ≤ index) (hsame : SameHigh count ratchet.counter index)
    (hok : (advanceParts provider index ((List.finRange 4).drop count) ratchet journal).result =
      .ok ()) :
    (advanceParts provider index ((List.finRange 4).drop count) ratchet journal).state.counter =
      index := by
  -- The induction is on the number of parts that are left.
  induction hrest : 4 - count generalizing count ratchet journal with
  | zero =>
    obtain rfl : count = 4 := by omega
    exact sameHigh_four_iff.mp hsame
  | succ rest ih =>
    have hlt : count < 4 := by omega
    rw [drop_finRange hlt, advanceParts] at hok ⊢
    obtain ⟨_, hpart, hok⟩ := result_bind_eq_ok_iff.mp hok
    have hcounter := counter_advancePart_of_ok hpart
    obtain ⟨-, hle', hsame'⟩ := counterAfter_between ⟨count, hlt⟩ hle hsame
    rw [← hcounter] at hle' hsame'
    rw [bind_apply_ok hpart]
    exact ih hlt hle' hsame' hok (by omega)

/-- **A jump that succeeds arrives.** -/
theorem counter_advanceTo_of_ok
    (hok : (advanceTo provider index ratchet journal).result = .ok ()) :
    (advanceTo provider index ratchet journal).state.counter = index := by
  rw [advanceTo_apply] at hok ⊢
  split at hok
  case isTrue => cases hok
  case isFalse hle =>
    rw [if_neg hle]
    split at hok
    case isTrue heq => rw [if_pos heq, heq]
    case isFalse hne =>
      obtain ⟨_, hparts, -⟩ := result_bind_eq_ok_iff.mp hok
      rw [if_neg hne, bind_apply_ok hparts]
      exact counter_advanceParts_of_ok (Nat.zero_le 4) (UInt32.not_lt.mp hle) (sameHigh_zero _ _)
        hparts

end Ratchet

namespace Session

variable {provider : Provider} {session : Session}

/-- An accepted message was within reach, and a ratchet at its index is taken over. -/
theorem takeOver_of_decrypt_ok {bytes plaintext : Bytes} {index : UInt32} {journal : Journal}
    (hok : (decrypt provider bytes session journal).result = .ok (plaintext, index)) :
    session.Reaches index ∧ ∃ ratchet, ratchet.counter = index ∧
      (decrypt provider bytes session journal).state = session.takeOver ratchet := by
  obtain ⟨message, ratchet, hbytes, rfl, hreach, hauthentic⟩ := result_decrypt_eq_ok_iff.mp hok
  obtain ⟨journal', hjump, rfl⟩ := advanceTo_of_authenticate_ok hauthentic
  exact ⟨hreach, _, Ratchet.counter_advanceTo_of_ok hjump,
    (decrypt_of_authenticate_ok hbytes hreach hauthentic).2⟩

theorem messageIndex_decrypt_of_ok {bytes plaintext : Bytes} {index : UInt32} {journal : Journal}
    (hok : (decrypt provider bytes session journal).result = .ok (plaintext, index)) :
    session.Reaches index ∧
      (decrypt provider bytes session journal).state.messageIndex = index := by
  obtain ⟨hreach, ratchet, hcounter, hstate⟩ := takeOver_of_decrypt_ok hok
  exact ⟨hreach, hstate ▸ hcounter⟩

end Session

namespace Progress

variable {provider : Provider} {progress : Progress}

/-! ## What one call does to the index -/

/-- A call leaves the session alone, or has it take over a ratchet that does not lie behind. -/
theorem session_call_cases (provider : Provider) (progress : Progress) (call : Call) :
    (progress.call provider call).session = progress.session ∨
      ∃ ratchet, progress.session.messageIndex ≤ ratchet.counter ∧
        (progress.call provider call).session = progress.session.takeOver ratchet := by
  rcases call_cases provider progress call with ⟨hsession, -⟩ | ⟨bytes, plaintext, index, rfl, hok⟩
  · exact .inl hsession
  · obtain ⟨hreach, ratchet, rfl, hstate⟩ := Session.takeOver_of_decrypt_ok hok
    exact .inr ⟨ratchet, hreach.2, (call_of_ok hok).1.trans hstate⟩

private theorem messageIndex_le_call (provider : Provider) (progress : Progress) (call : Call) :
    progress.session.messageIndex ≤ (progress.call provider call).session.messageIndex := by
  rcases session_call_cases provider progress call with hsession | ⟨ratchet, hle, hsession⟩
  · rw [hsession]
    exact UInt32.le_refl _
  · rw [hsession]
    exact hle

theorem messageIndex_le_run (provider : Provider) (progress : Progress) (calls : List Call) :
    progress.session.messageIndex ≤ (progress.run provider calls).session.messageIndex :=
  List.foldlRecOn
    (motive := fun middle ↦ progress.session.messageIndex ≤ middle.session.messageIndex) calls _
    (UInt32.le_refl _) fun middle h call _ ↦
      UInt32.le_trans h (messageIndex_le_call provider middle call)

/-- The messages were accepted in the order of their indices, the latest last, and the session has
left none of them behind that it could still take for a new one. -/
structure Ascending (progress : Progress) : Prop where
  sorted : progress.accepted.Pairwise fun later earlier ↦ earlier.index ≤ later.index
  passed : ∀ acceptance ∈ progress.accepted, acceptance.index ≤ progress.session.messageIndex

private theorem Ascending.call (h : Ascending progress) (call : Call) :
    Ascending (progress.call provider call) := by
  rcases call_cases provider progress call with
    ⟨hsession, haccepted⟩ | ⟨bytes, plaintext, index, rfl, hok⟩
  · exact ⟨haccepted ▸ h.sorted, by rw [hsession, haccepted]; exact h.passed⟩
  · obtain ⟨hreach, hindex⟩ := Session.messageIndex_decrypt_of_ok hok
    obtain ⟨hsession, haccepted⟩ := call_of_ok hok
    have hpassed (acceptance : Acceptance) (hmem : acceptance ∈ progress.accepted) :
        acceptance.index ≤ index := UInt32.le_trans (h.passed acceptance hmem) hreach.2
    refine ⟨?_, ?_⟩
    · rw [haccepted]
      exact List.pairwise_cons.mpr ⟨hpassed, h.sorted⟩
    · rw [haccepted, hsession, hindex]
      exact List.forall_mem_cons.mpr ⟨UInt32.le_refl index, hpassed⟩

theorem Ascending.run (h : Ascending progress) (calls : List Call) :
    Ascending (progress.run provider calls) :=
  List.foldlRecOn calls _ h fun _ hmiddle call _ ↦ hmiddle.call call

/-- **A session moves forward only.** Whatever the provider answers, a call never lowers the index,
and changes the session only by accepting a message, to whose index it moves. So the accepted
indices never fall, and a message that lies before one of them is rejected at once: nothing is asked
for, nothing is logged, and nothing changes. -/
theorem accepts_forward_only (provider : Provider) (session : Session) (journal : Journal)
    (calls : List Call) :
    let after := run provider ⟨session, journal, []⟩ calls
    (∀ more, after.session.messageIndex ≤ (after.run provider more).session.messageIndex) ∧
    (∀ call, let next := after.call provider call
      next.session = after.session ∧ next.accepted = after.accepted ∨
        ∃ bytes plaintext index, call = .decrypt bytes ∧
          (Session.decrypt provider bytes after.session after.journal).result =
            .ok (plaintext, index) ∧
          next.accepted = ⟨bytes, plaintext, index⟩ :: after.accepted ∧
          next.session.messageIndex = index) ∧
    after.accepted.Pairwise (fun later earlier ↦ earlier.index ≤ later.index) ∧
    ∀ acceptance ∈ after.accepted, ∀ bytes message, Message.ofBytes bytes = .ok message →
      message.index < acceptance.index →
        Session.decrypt provider bytes after.session after.journal =
          ⟨.error (.indexTooLow message.index after.session.messageIndex), after.session,
            after.journal⟩ := by
  intro after
  have hfirst : Ascending ⟨session, journal, []⟩ := ⟨.nil, nofun⟩
  have hascending : Ascending after := hfirst.run calls
  refine ⟨messageIndex_le_run provider after, fun call ↦ ?_, hascending.sorted,
    fun acceptance hmem bytes message hbytes hlt ↦ ?_⟩
  · rcases call_cases provider after call with hsame | ⟨bytes, plaintext, index, rfl, hok⟩
    · exact .inl hsame
    · obtain ⟨hsession, haccepted⟩ := call_of_ok hok
      have hindex := (Session.messageIndex_decrypt_of_ok hok).2
      exact .inr ⟨bytes, plaintext, index, rfl, hok, haccepted, hsession ▸ hindex⟩
  · have hpassed := hascending.passed acceptance hmem
    exact Session.decrypt_of_not_reaches hbytes
      (fun hreach ↦ UInt32.not_lt.mpr hreach.2 (UInt32.lt_of_lt_of_le hlt hpassed)) _

/-- A provider whose first request fails and whose hashes differ each time. Message 2 comes twice,
message 5 after that, and then message 2 is too late. -/
theorem accepts_forward_only_unsteady :
    let answers : Provider := ⟨fun history request ↦ match request with
      | .verify .. => if history.isEmpty then .error ⟨"not yet"⟩ else .ok ()
      | .hmacSha256 .. =>
        .ok ⟨List.replicate 32 (UInt8.ofNat history.length), List.length_replicate⟩
      | .hkdf size .. => .ok (.zero size)
      | .aeadDecrypt _ _ _ given => .ok given.ciphertext
      | .aeadEncrypt .. => .error ⟨"no answer"⟩⟩
    let session : Session :=
      .ofRatchet (Ratchet.ofBytes (FixedBytes.zero 128) 0) ⟨FixedBytes.zero 32⟩ false
    let message (index : UInt32) : Bytes :=
      Message.toBytes ⟨index, [7], FixedBytes.zero 16, FixedBytes.zero 64⟩
    let after := run answers ⟨session, {}, []⟩
      [.decrypt (message 2), .decrypt (message 2), .exportKey 4, .decrypt (message 5)]
    after.accepted = [⟨message 5, [7], 5⟩, ⟨message 2, [7], 2⟩] ∧
      Session.decrypt answers (message 2) after.session after.journal =
        ⟨.error (.indexTooLow 2 5), after.session, after.journal⟩ := by
  intro answers session message after
  have haccepted : after.accepted = [⟨message 5, [7], 5⟩, ⟨message 2, [7], 2⟩] := by
    decide +kernel
  have hindex : after.session.messageIndex = 5 := by decide +kernel
  obtain ⟨-, -, -, hlate⟩ := accepts_forward_only answers session {}
    [.decrypt (message 2), .decrypt (message 2), .exportKey 4, .decrypt (message 5)]
  have hrejected := hlate ⟨message 5, [7], 5⟩ (haccepted ▸ List.mem_cons_self) (message 2) _
    (Message.ofBytes_toBytes _) (by decide)
  rw [hindex] at hrejected
  exact ⟨haccepted, hrejected⟩

end Progress

end GroupSession
