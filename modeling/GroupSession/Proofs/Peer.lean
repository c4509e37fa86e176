import GroupSession.Proofs.Storing
import Mathlib.Data.List.Induction

/-!
# All sessions of a peer

A peer makes sessions in three ways, copies them, and uses each of them on its own. Any session
that there can be belongs to a peer after some run of such operations, so what every operation keeps
holds of every session. The provider may answer each request in its own way, and so stands for as
many providers as one likes.

## What is kept

Sessions are sound, whatever the provider answers. The session at a place keeps its sender and its
first index, and once verified it stays so. The last invariant concerns trust: a session has not
moved before it was verified. Nothing in a pickle says so, and a pickle made by anyone else may
break it, but if a peer restores only what was stored by it, the invariant goes through the pickles
too.
-/

namespace GroupSession

open GroupSession.Action Ed25519

namespace Session

/-- A session that is not verified stands where it began. -/
def VerifiedIfMoved (session : Session) : Prop :=
  session.verified = false → session.messageIndex = session.firstKnownIndex

private theorem verifiedIfMoved_ofRatchet (ratchet : Ratchet) (signer : VerifyingKey)
    (verified : Bool) : (ofRatchet ratchet signer verified).VerifiedIfMoved := fun _ ↦ rfl

/-- A later state of the same session. -/
structure Continues (session later : Session) : Prop where
  signingKey : later.signingKey = session.signingKey
  firstKnownIndex : later.firstKnownIndex = session.firstKnownIndex
  verified : session.verified = true → later.verified = true

theorem Continues.refl (session : Session) : session.Continues session := ⟨rfl, rfl, fun h ↦ h⟩

theorem Continues.trans {session middle later : Session} (h : session.Continues middle)
    (h' : middle.Continues later) : session.Continues later :=
  ⟨h'.signingKey.trans h.signingKey, h'.firstKnownIndex.trans h.firstKnownIndex,
    fun hverified ↦ h'.verified (h.verified hverified)⟩

private theorem continues_takeOver (session : Session) (ratchet : Ratchet) :
    session.Continues (session.takeOver ratchet) := ⟨rfl, rfl, fun _ ↦ rfl⟩

end Session

/-! ## Peers -/

/-- Bytes in which a session was stored. -/
structure Stored where
  /-- The key under which it was stored. -/
  key : Bytes
  /-- The bytes. -/
  bytes : Bytes
deriving DecidableEq

/-- What a peer has, and what has happened to it. -/
structure Peer where
  /-- The sessions, in the order in which they came. -/
  sessions : List Session := []
  /-- Everything that has happened. -/
  journal : Journal := {}
  /-- All that was ever stored, the latest first. -/
  stored : List Stored := []

/-- What a peer can do. -/
inductive Operation
  /-- Makes a session from a signed key. -/
  | init (key : Bytes)
  /-- Makes a session from a shared key. -/
  | importKey (key : Bytes)
  /-- Restores a session, from whatever bytes. -/
  | unpickle (key bytes : Bytes)
  /-- Copies the session at a place. -/
  | clone (place : Nat)
  /-- Calls the session at a place. -/
  | call (place : Nat) (call : Call)

namespace Progress

variable {provider : Provider} {progress : Progress}

/-- What a call stores. -/
def stores (provider : Provider) (progress : Progress) : Call → List Stored
  | .pickle key source =>
    match (progress.session.pickle provider key source progress.journal).result with
    | .ok bytes => [⟨key, bytes⟩]
    | .error _ => []
  | _ => []

private theorem storedAs_of_mem_stores {call : Call} {stored : Stored}
    (h : stored ∈ progress.stores provider call) :
    progress.session.StoredAs provider stored.key stored.bytes := by
  cases call with
  | pickle key source =>
    rw [stores] at h
    split at h
    case h_1 bytes hpickle =>
      obtain rfl := List.mem_singleton.mp h
      exact Session.storedAs_of_pickle_ok hpickle
    case h_2 => cases h
  | decrypt bytes => cases h
  | exportKey index => cases h

private theorem continues_call (provider : Provider) (progress : Progress) (call : Call) :
    progress.session.Continues (progress.call provider call).session := by
  rcases session_call_cases provider progress call with hsession | ⟨ratchet, -, hsession⟩
  · rw [hsession]
    exact .refl _
  · rw [hsession]
    exact Session.continues_takeOver _ ratchet

private theorem verifiedIfMoved_call (h : progress.session.VerifiedIfMoved) (provider : Provider)
    (call : Call) : (progress.call provider call).session.VerifiedIfMoved := by
  rcases session_call_cases provider progress call with hsession | ⟨ratchet, -, hsession⟩
  · rwa [hsession]
  · -- What the session takes over verifies it.
    rw [hsession]
    exact fun hverified ↦ nomatch hverified

end Progress

namespace Peer

variable {provider : Provider} {peer : Peer} {operation : Operation}

/-- Adds a session that was made, if it was. -/
def join (peer : Peer) (made : Outcome Unit SessionError Session) : Peer :=
  { peer with
    sessions := peer.sessions ++ made.result.toOption.toList
    journal := made.journal }

/-- Performs an operation. -/
def perform (provider : Provider) (peer : Peer) : Operation → Peer
  | .init key => peer.join (Session.init provider key () peer.journal)
  | .importKey key => peer.join (Session.importKey key () peer.journal)
  | .unpickle key bytes => peer.join (Session.unpickle provider key bytes () peer.journal)
  | .clone place => { peer with sessions := peer.sessions ++ peer.sessions[place]?.toList }
  | .call place call =>
    match peer.sessions[place]? with
    | none => peer
    | some session =>
      let progress : Progress := ⟨session, peer.journal, []⟩
      let after := progress.call provider call
      { sessions := peer.sessions.set place after.session
        journal := after.journal
        stored := progress.stores provider call ++ peer.stored }

/-- Performs operations one after the other. -/
def run (provider : Provider) (peer : Peer) (operations : List Operation) : Peer :=
  operations.foldl (perform provider) peer

/-! ## What one operation does -/

/-- How a session has come to a peer with an operation. -/
inductive Origin (provider : Provider) (peer : Peer) : Operation → Session → Prop
  | kept {operation session} (h : session ∈ peer.sessions) : Origin provider peer operation session
  | init {key session} (h : (Session.init provider key () peer.journal).result = .ok session) :
    Origin provider peer (.init key) session
  | imported {key session} (h : (Session.importKey key () peer.journal).result = .ok session) :
    Origin provider peer (.importKey key) session
  | restored {key bytes session}
    (h : (Session.unpickle provider key bytes () peer.journal).result = .ok session) :
    Origin provider peer (.unpickle key bytes) session
  | called {place call session} (h : session ∈ peer.sessions) :
    Origin provider peer (.call place call)
      (Progress.call provider ⟨session, peer.journal, []⟩ call).session

private theorem mem_sessions_join {made : Outcome Unit SessionError Session} {session : Session}
    (h : session ∈ (peer.join made).sessions) :
    session ∈ peer.sessions ∨ made.result = .ok session := by
  rcases List.mem_append.mp h with hmem | hmem
  · exact .inl hmem
  · rw [Option.mem_toList] at hmem
    cases hresult : made.result with
    | error fault =>
      rw [hresult] at hmem
      cases hmem
    | ok new =>
      rw [hresult] at hmem
      cases hmem
      exact .inr rfl

/-- Every session of a peer was there before, or has come with the operation. -/
private theorem origin_of_mem {session : Session}
    (h : session ∈ (peer.perform provider operation).sessions) :
    Origin provider peer operation session := by
  cases operation with
  | init key => exact (mem_sessions_join h).elim .kept .init
  | importKey key => exact (mem_sessions_join h).elim .kept .imported
  | unpickle key bytes => exact (mem_sessions_join h).elim .kept .restored
  | clone place =>
    rcases List.mem_append.mp h with hmem | hmem
    · exact .kept hmem
    · exact .kept (List.mem_of_getElem? (Option.mem_toList.mp hmem))
  | call place call =>
    rw [perform] at h
    split at h
    case h_1 => exact .kept h
    case h_2 before hbefore =>
      rcases List.mem_or_eq_of_mem_set h with hmem | rfl
      · exact .kept hmem
      · exact .called (List.mem_of_getElem? hbefore)

private theorem mem_stored_perform {stored : Stored}
    (h : stored ∈ (peer.perform provider operation).stored) :
    stored ∈ peer.stored ∨
      ∃ session ∈ peer.sessions, session.StoredAs provider stored.key stored.bytes := by
  cases operation with
  | call place call =>
    rw [perform] at h
    split at h
    case h_1 => exact .inl h
    case h_2 session hsession =>
      rcases List.mem_append.mp h with hmem | hmem
      · have hmem : stored ∈ Progress.stores provider ⟨session, peer.journal, []⟩ call := hmem
        have hstored := Progress.storedAs_of_mem_stores hmem
        exact .inr ⟨session, List.mem_of_getElem? hsession, hstored⟩
      · exact .inl hmem
  | _ => exact .inl h

private theorem getElem?_perform {place : Nat} {session : Session}
    (h : peer.sessions[place]? = some session) (provider : Provider) (operation : Operation) :
    ∃ later, (peer.perform provider operation).sessions[place]? = some later ∧
      session.Continues later := by
  have hadd (added : List Session) : (peer.sessions ++ added)[place]? = some session := by
    obtain ⟨hlt, rfl⟩ := List.getElem?_eq_some_iff.mp h
    rw [List.getElem?_append_left hlt, h]
  cases operation with
  | call target call =>
    rw [perform]
    split
    case h_1 => exact ⟨session, h, .refl session⟩
    case h_2 before hbefore =>
      by_cases hplace : target = place
      · subst hplace
        obtain rfl := Option.some.inj (hbefore.symm.trans h)
        have hlt := (List.getElem?_eq_some_iff.mp h).1
        have hcontinues := Progress.continues_call provider ⟨before, peer.journal, []⟩ call
        exact ⟨_, List.getElem?_set_self hlt, hcontinues⟩
      · refine ⟨session, ?_, .refl session⟩
        exact (List.getElem?_set_ne hplace).trans h
  | _ => exact ⟨session, hadd _, .refl session⟩

/-! ## What a run keeps -/

private theorem getElem?_run {place : Nat} {session : Session}
    (h : peer.sessions[place]? = some session) (provider : Provider) (operations : List Operation) :
    ∃ later, (peer.run provider operations).sessions[place]? = some later ∧
      session.Continues later := by
  induction operations generalizing peer session with
  | nil => exact ⟨session, h, .refl session⟩
  | cons operation operations ih =>
    obtain ⟨middle, hmiddle, hcontinues⟩ := getElem?_perform h provider operation
    obtain ⟨later, hlater, hcontinues'⟩ := ih hmiddle
    exact ⟨later, hlater, hcontinues.trans hcontinues'⟩

/-- All sessions of the peer are sound. -/
def Sound (peer : Peer) : Prop := ∀ session ∈ peer.sessions, session.Sound

theorem Sound.perform (hsound : peer.Sound) (provider : Provider) (operation : Operation) :
    (peer.perform provider operation).Sound := by
  intro session hmem
  cases origin_of_mem hmem with
  | kept h => exact hsound session h
  | init h =>
    obtain ⟨ratchet, signer, hvalid, rfl⟩ := Session.eq_ofRatchet_of_init_ok h
    exact Session.sound_ofRatchet ratchet hvalid true
  | imported h =>
    obtain ⟨ratchet, signer, hvalid, rfl⟩ := Session.eq_ofRatchet_of_importKey_ok h
    exact Session.sound_ofRatchet ratchet hvalid false
  | restored h => exact Session.sound_of_unpickle_ok h
  | called h => exact Progress.sound_call (hsound _ h) provider _

theorem Sound.run (hsound : peer.Sound) (provider : Provider) (operations : List Operation) :
    (peer.run provider operations).Sound :=
  List.foldlRecOn operations _ hsound fun _ hmiddle operation _ ↦
    hmiddle.perform provider operation

/-- No session of the peer has moved before it was verified, and none that it has stored. -/
structure Trustworthy (provider : Provider) (peer : Peer) : Prop where
  sessions : ∀ session ∈ peer.sessions, session.VerifiedIfMoved
  stored : ∀ stored ∈ peer.stored, ∃ session : Session, session.VerifiedIfMoved ∧
    session.StoredAs provider stored.key stored.bytes

/-- An operation that restores a session restores one that the peer has stored. -/
def RestoresOwn (provider : Provider) (peer : Peer) (operation : Operation) : Prop :=
  ∀ key bytes session, operation = .unpickle key bytes →
    (Session.unpickle provider key bytes () peer.journal).result = .ok session →
      ⟨key, bytes⟩ ∈ peer.stored

private theorem Trustworthy.perform (htrust : peer.Trustworthy provider) (h : provider.Unseals)
    (hown : peer.RestoresOwn provider operation) :
    (peer.perform provider operation).Trustworthy provider := by
  constructor
  · intro session hmem
    cases origin_of_mem hmem with
    | kept hkept => exact htrust.sessions session hkept
    | init hinit =>
      obtain ⟨ratchet, signer, -, rfl⟩ := Session.eq_ofRatchet_of_init_ok hinit
      exact Session.verifiedIfMoved_ofRatchet ratchet signer true
    | imported himported =>
      obtain ⟨ratchet, signer, -, rfl⟩ := Session.eq_ofRatchet_of_importKey_ok himported
      exact Session.verifiedIfMoved_ofRatchet ratchet signer false
    | restored hrestored =>
      -- It is the one that was stored in these bytes, and that one had not moved unverified.
      obtain ⟨original, hmoved, hstored⟩ := htrust.stored _ (hown _ _ _ rfl hrestored)
      rwa [hstored.eq_of_unpickle_ok h hrestored]
    | called hcalled =>
      exact Progress.verifiedIfMoved_call (htrust.sessions _ hcalled) provider _
  · intro stored hmem
    rcases mem_stored_perform hmem with hbefore | ⟨session, hsession, hstored⟩
    · exact htrust.stored stored hbefore
    · exact ⟨session, htrust.sessions session hsession, hstored⟩

private theorem trustworthy_run (h : provider.Unseals) {operations : List Operation}
    (hown : ∀ (i : Nat) operation, operations[i]? = some operation →
      ((run provider {} (operations.take i)).RestoresOwn provider operation)) :
    (run provider {} operations).Trustworthy provider := by
  -- The last operation is the one that all others precede.
  induction operations using List.reverseRecOn with
  | nil => exact ⟨nofun, nofun⟩
  | append_singleton earlier operation ih =>
    rw [run, List.foldl_append]
    refine Trustworthy.perform (ih fun i op hop ↦ ?_) h ?_
    · have hlt := (List.getElem?_eq_some_iff.mp hop).1
      have hrestores := hown i op (by rw [List.getElem?_append_left hlt, hop])
      rwa [List.take_append_of_le_length (Nat.le_of_lt hlt)] at hrestores
    · have hrestores := hown earlier.length operation List.getElem?_concat_length
      rwa [List.take_left] at hrestores

/-- **What holds of every session there can be.** Let a peer make, copy and use sessions in any
order, restore any bytes, and let the provider answer or fail as it likes. Then every session of the
peer has a first index that its ratchet has not fallen behind, and a public key that is one; and
whenever, with any provider, it says that an index lies too low, that is so, and it names its own.
Whatever happens next, the session at a place keeps its sender, its name and its first index, and
does not lose its verification. And if nothing but what was stored is unsealed, and only what the
peer has stored is restored, then a session that is not verified has never moved. -/
theorem sound_run (provider : Provider) (operations : List Operation) :
    let peer := run provider {} operations
    (∀ session ∈ peer.sessions,
      session.firstKnownIndex ≤ session.messageIndex ∧ session.signingKey.Valid ∧
      ∀ (other : Provider) journal index lowest,
        (∀ bytes, (Session.decrypt other bytes session journal).result =
            .error (.indexTooLow index lowest) →
          lowest = session.messageIndex ∧ index < lowest) ∧
        ∀ target, (session.exportKey other target () journal).result =
            .error (.indexTooLow index lowest) →
          lowest = session.messageIndex ∧ index < lowest) ∧
    (∀ (place : Nat) (session : Session), peer.sessions[place]? = some session →
      ∀ more, ∃ later : Session, (peer.run provider more).sessions[place]? = some later ∧
        later.signingKey = session.signingKey ∧ later.id = session.id ∧
        later.firstKnownIndex = session.firstKnownIndex ∧
        (session.verified = true → later.verified = true)) ∧
    (provider.Unseals →
      (∀ (i : Nat) key bytes session, operations[i]? = some (.unpickle key bytes) →
        let before := run provider {} (operations.take i)
        (Session.unpickle provider key bytes () before.journal).result = .ok session →
          ⟨key, bytes⟩ ∈ before.stored) →
      ∀ session ∈ peer.sessions, session.verified = false →
        session.messageIndex = session.firstKnownIndex) := by
  intro peer
  have hempty : Sound {} := nofun
  have hsound : peer.Sound := hempty.run provider operations
  refine ⟨fun session hmem ↦ ?_, fun place session hsession more ↦ ?_, fun h hown ↦ ?_⟩
  · refine ⟨(hsound session hmem).joined, (hsound session hmem).valid, ?_⟩
    intro other journal index lowest
    refine ⟨fun bytes herror ↦ (hsound session hmem).lowest_of_decrypt herror,
      fun target herror ↦ ?_⟩
    obtain ⟨rfl, hlt, rfl⟩ := Session.result_exportKey_eq_indexTooLow_iff.mp herror
    exact ⟨rfl, hlt⟩
  · obtain ⟨later, hlater, hcontinues⟩ := getElem?_run hsession provider more
    exact ⟨later, hlater, hcontinues.signingKey, congrArg SessionId.ofKey hcontinues.signingKey,
      hcontinues.firstKnownIndex, hcontinues.verified⟩
  · refine (trustworthy_run h ?_).sessions
    rintro i operation hoperation key bytes session rfl hrestored
    exact hown i key bytes session hoperation hrestored

/-- A session from a shared key is stored and restored. Then one of the two decrypts a message, and
the other is still at its start. -/
theorem sound_run_restored :
    let shared : ExportedSessionKey :=
      ⟨⟨Ratchet.ofBytes (FixedBytes.zero 128) 3, FixedBytes.zero 32⟩⟩
    let message : Message := ⟨5, [7], FixedBytes.zero 16, FixedBytes.zero 64⟩
    let storing : List Operation :=
      [.importKey shared.toBytes, .call 0 (.pickle [1] (.ofSeed (FixedBytes.zero 32)))]
    let bytes := ((run .plain {} storing).stored.map Stored.bytes).headD []
    let peer := run .plain {}
      (storing ++ [.unpickle [1] bytes, .call 0 (.decrypt message.toBytes)])
    peer.sessions.map (fun session ↦ (session.messageIndex, session.verified)) =
        [(5, true), (3, false)] ∧
      ∀ session ∈ peer.sessions, session.verified = false →
        session.messageIndex = session.firstKnownIndex := by
  intro shared message storing bytes peer
  have hkeys : (run .plain {} storing).stored.map Stored.key = [[1]] := by decide +kernel
  obtain ⟨stored, hstored, hkey⟩ := List.map_eq_singleton_iff.mp hkeys
  have hbytes : bytes = stored.bytes := by
    simp only [bytes, hstored, List.map_cons, List.headD_cons]
  refine ⟨by decide +kernel, ?_⟩
  refine (sound_run .plain _).2.2 Provider.stores_plain.unseals fun i key bytes' session h ↦ ?_
  match i, h with
  | 2, h =>
    cases h
    intro before _
    have hbefore : before.stored = [⟨[1], bytes⟩] := by
      rw [hbytes, ← hkey]
      exact hstored
    exact hbefore ▸ List.mem_singleton_self _
  | 3, h => cases h
  | i + 4, h => cases h

end Peer

end GroupSession
