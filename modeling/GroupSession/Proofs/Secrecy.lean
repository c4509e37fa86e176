import GroupSession.Proofs.Authenticity
import GroupSession.Proofs.Joining
import GroupSession.Proofs.Logging

/-!
# Nothing that is shown or logged depends on a secret

Of a session its index, the sender's key, its first index and whether it is verified are public. The
parts of its ratchet are secret, and so are those in a session key. Both are hidden from texts for
developers and from the log.

## Texts

A text for developers shows that there are four parts, or that there is a key, and not which.

## Logs

The secrets of a session decide how an operation ends: they tell a message that is authentic from
one that is not. So the log can not be the same in all cases. What can be said is that it gives away
nothing beyond that: the events of an operation are a function of what is public, of its input and
of the kind of its end.

For decrypting this needs that keys are always derived. A provider that fails at it does so behind
the jump, which is logged, while one that fails at a hash does so before, and both ends are of the
same kind.
-/

namespace GroupSession

open GroupSession.Action

/-! ## How operations end -/

/-- The kinds of reasons for an operation to fail, without the particulars. -/
inductive SessionError.Kind
  | invalidKey
  | format
  | indexTooLow
  | signature
  | macMismatch
  | unsupportedVersion
  | badPickleKey
  | crypto
deriving DecidableEq

/-- The kind of a reason. -/
def SessionError.kind : SessionError → Kind
  | invalidKey _ => .invalidKey
  | malformedMessage _ | malformedPickle _ => .format
  | indexTooLow _ _ => .indexTooLow
  | signature => .signature
  | macMismatch => .macMismatch
  | unsupportedVersion _ => .unsupportedVersion
  | badPickleKey => .badPickleKey
  | crypto _ => .crypto

/-- How an operation has ended, without what it has answered. -/
def ending {α : Type} : Except SessionError α → Except SessionError.Kind Unit
  | .ok _ => .ok ()
  | .error fault => .error fault.kind

/-! ## Logs that depend on the end only -/

namespace Action

variable {σ τ α : Type}

/-- From a state, the events that an action logs are known from how it ends. -/
def Logs (log : Except SessionError.Kind Unit → List Event) (action : Action σ SessionError α)
    (state : σ) : Prop :=
  ∀ journal, (action state journal).journal.events =
    log (ending (action state journal).result) ++ journal.events

/-- If two runs end in the same way, they log the same events, whatever happened before them. -/
def LogsAlike (action : Action σ SessionError α) (state : σ) (action' : Action τ SessionError α)
    (state' : τ) : Prop :=
  ∀ journal journal',
    ending (action state journal).result = ending (action' state' journal').result →
      ∃ logged, (action state journal).journal.events = logged ++ journal.events ∧
        (action' state' journal').journal.events = logged ++ journal'.events

/-- Events that are logged on success only. -/
def onSuccess (logged : List Event) : Except SessionError.Kind Unit → List Event
  | .ok () => logged
  | .error _ => []

namespace Logs

variable {log : Except SessionError.Kind Unit → List Event} {action : Action σ SessionError α}
  {action' : Action τ SessionError α} {state : σ} {state' : τ}

theorem alike (h : Logs log action state) (h' : Logs log action' state') :
    LogsAlike action state action' state' := by
  intro journal journal' hending
  refine ⟨_, h journal, ?_⟩
  rw [hending]
  exact h' journal'

theorem of_failsSilently {logged : List Event} (h : FailsSilently action)
    (hok : ∀ journal a, (action state journal).result = .ok a →
      (action state journal).journal.events = logged ++ journal.events) :
    Logs (onSuccess logged) action state := by
  intro journal
  cases hresult : (action state journal).result with
  | ok a => exact hok journal a hresult
  | error fault => exact h state journal fault hresult

theorem of_silent (h : Silent action) : Logs (onSuccess []) action state :=
  .of_failsSilently (.of_silent h) fun journal _ _ ↦ h state journal

end Logs

end Action

/-! ## What is public of a session -/

/-- All of a session but its secrets. -/
structure PublicView where
  /-- The lowest index that can be decrypted. -/
  messageIndex : UInt32
  /-- The sender's public key. -/
  signingKey : Ed25519.VerifyingKey
  /-- The first index the session was made for. -/
  firstKnownIndex : UInt32
  /-- Whether the ratchet is known to be the sender's. -/
  verified : Bool
deriving DecidableEq

/-- What is public of the session. -/
def Session.publicView (session : Session) : PublicView :=
  ⟨session.messageIndex, session.signingKey, session.firstKnownIndex, session.verified⟩

namespace PublicView

variable (view : PublicView)

/-- What is logged of a jump to an index. -/
def jumpLog (index : UInt32) : List Event :=
  if index = view.messageIndex then [] else [.advanced view.messageIndex index]

/-- What is logged while a message within reach is authenticated: the jump, if it is made. -/
def authenticLog (index : UInt32) : Except SessionError.Kind Unit → List Event
  | .ok () | .error .macMismatch => view.jumpLog index
  | .error _ => []

/-- What is logged while bytes are decrypted. -/
def decryptLog (bytes : Bytes) (ending : Except SessionError.Kind Unit) : List Event :=
  match Message.ofBytes bytes with
  | .ok message =>
    onSuccess [.decrypted (.ofKey view.signingKey) message.index] ending ++
      view.authenticLog message.index ending
  | .error _ => []

end PublicView

private theorem Session.jumpLog_append (session : Session) (index : UInt32) (events : List Event) :
    session.publicView.jumpLog index ++ events =
      if index = session.messageIndex then events
      else .advanced session.messageIndex index :: events := by
  by_cases hown : index = session.messageIndex
  · rw [if_pos hown]
    exact congrArg (· ++ events) (if_pos hown)
  · rw [if_neg hown]
    exact congrArg (· ++ events) (if_neg hown)

/-! ## Texts -/

/-- Of the parts of a ratchet, a text shows how many there are. -/
private theorem Ratchet.debugText_eq {ratchet other : Ratchet}
    (h : ratchet.counter = other.counter) :
    ratchet.debugText = other.debugText := by
  have hhidden (secret : String) (parts : Vector (FixedBytes 32) 4) :
      (parts.toList.map fun _ ↦ secret) = List.replicate 4 secret := by
    rw [List.map_const', Vector.length_toList]
  unfold debugText
  dsimp only
  rw [hhidden, hhidden, h]

namespace Session

variable {σ : Type} {provider : Provider} {session other : Session}

private theorem debugText_eq (h : session.publicView = other.publicView) :
    session.debugText = other.debugText := by
  obtain ⟨hindex, hkey, hfirst, hverified⟩ := PublicView.mk.inj h
  unfold debugText
  rw [Ratchet.debugText_eq hindex, hkey, hfirst, hverified]

/-! ## Messages -/

private theorem succeeds_messageKeys (hkeys : provider.Reliable .hkdf) (ratchet : Ratchet) :
    FailsOnly (ratchet.messageKeys provider : Action σ RatchetError _) fun _ ↦ False := by
  refine .bind (.mapError fun state journal failure hfailure ↦ ?_) fun _ ↦ .pure _
  have hfeasible : 56 ≤ Hkdf.maxSize := by decide
  obtain ⟨answer, hanswer⟩ := hkeys ratchet.keysRequest rfl hfeasible journal.requests
  cases hfailure.symm.trans hanswer

private theorem failsOnly_decipher_macMismatch (hkeys : provider.Reliable .hkdf) (message : Message)
    (ratchet : Ratchet) :
    FailsOnly (decipher provider message ratchet : Action σ SessionError _) (· = .macMismatch) := by
  refine .bind (.mapError fun state journal fault hfault ↦ ?_) fun _ ↦ ?_
  · exact (succeeds_messageKeys hkeys ratchet state journal fault hfault).elim
  · exact .bind (.mapError fun _ _ _ _ ↦ rfl) fun _ ↦ .pure _

private theorem failsOnly_approach_not_macMismatch (message : Message) :
    FailsOnly (approach provider session message : Action σ SessionError _)
      (·.kind ≠ .macMismatch) := by
  refine .bind (.mapError fun _ _ _ _ ↦ nofun) fun _ ↦ .mapError fun _ _ fault _ ↦ ?_
  cases fault with
  | indexTooLow | crypto => exact nofun

private theorem logs_authenticate (hkeys : provider.Reliable .hkdf) (message : Message)
    (state : σ) :
    Logs (session.publicView.authenticLog message.index) (authenticate provider session message)
      state := by
  intro journal
  rw [authenticate_eq]
  cases hfirst : (approach provider session message state journal).result with
  | error fault =>
    have hkind : fault.kind ≠ .macMismatch :=
      failsOnly_approach_not_macMismatch message state journal fault hfirst
    have hnothing : session.publicView.authenticLog message.index (.error fault.kind) = [] := by
      cases hcase : fault.kind with
      | macMismatch => exact absurd hcase hkind
      | _ => rfl
    rw [bind_apply_error hfirst, ending, hnothing]
    exact failsSilently_approach message state journal fault hfirst
  | ok ratchet =>
    rw [bind_apply_ok hfirst, silent_decipher message ratchet, events_approach_of_ok hfirst,
      ← jumpLog_append]
    cases hsecond : (decipher provider message ratchet
        (approach provider session message state journal).state
        (approach provider session message state journal).journal).result with
    | ok found => rfl
    | error fault =>
      obtain rfl : fault = .macMismatch :=
        failsOnly_decipher_macMismatch hkeys message ratchet _ _ fault hsecond
      rfl

theorem logs_decrypt (hkeys : provider.Reliable .hkdf) (bytes : Bytes) (session : Session) :
    Logs (session.publicView.decryptLog bytes) (decrypt provider bytes) session := by
  intro journal
  cases hbytes : Message.ofBytes bytes with
  | error fault =>
    rw [decrypt_of_malformed hbytes, PublicView.decryptLog, hbytes]
    rfl
  | ok message =>
    rw [PublicView.decryptLog, hbytes]
    by_cases hreach : session.Reaches message.index
    · have hauthentic := @logs_authenticate _ _ session hkeys message session journal
      rw [decrypt_of_reaches hbytes hreach]
      cases hresult : (authenticate provider session message session journal).result with
      | ok found =>
        rw [hresult] at hauthentic
        rw [bind_apply_ok hresult]
        exact congrArg (_ :: ·) hauthentic
      | error fault =>
        rw [hresult] at hauthentic
        rw [bind_apply_error hresult]
        exact hauthentic
    · rw [decrypt_of_not_reaches hbytes hreach]
      rfl

/-! ## Keys and pickles -/

theorem logs_exportKey (session : Session) (index : UInt32) (state : σ) :
    Logs (onSuccess (session.publicView.jumpLog index)) (session.exportKey provider index)
      state := by
  refine .of_failsSilently (failsSilently_exportKey session index) fun journal key hok ↦ ?_
  obtain ⟨ratchet, hcopy, -⟩ := result_bind_eq_ok_iff.mp hok
  obtain ⟨⟨_, hjump⟩, -⟩ := result_onCopy_eq_ok_iff.mp (result_mapError_eq_ok_iff.mp hcopy)
  rw [exportKey, bind_apply_ok hcopy, jumpLog_append]
  exact Ratchet.events_advanceTo_of_ok hjump

/-! ## Joining -/

/-- What is logged when a session is made from bytes with a public key at its place. -/
def joinLog (event : SessionId → UInt32 → Event) (bytes : Bytes) : List Event :=
  match FixedBytes.ofList? 32 ((bytes.drop 133).take 32) with
  | some key => [event ⟨key⟩ (.ofNat (Bytes.toNatBE ((bytes.drop 1).take 4)))]
  | none => []

private theorem joinLog_eq (event : SessionId → UInt32 → Event) {bytes bytes' : Bytes}
    (hindex : bytes.take 5 = bytes'.take 5)
    (hkey : (bytes.drop 133).take 32 = (bytes'.drop 133).take 32) :
    joinLog event bytes = joinLog event bytes' := by
  have hplace (bytes : Bytes) : (bytes.drop 1).take 4 = (bytes.take 5).drop 1 := by
    rw [List.drop_take]
  rw [joinLog, joinLog, hplace, hplace, hindex, hkey]

private theorem joinLog_of_startsWith (event : SessionId → UInt32 → Event) {version : UInt8}
    {size : Nat}
    {bytes shared : Bytes} {verified : Bool} (hnames : Names version size bytes session.signingKey)
    (hstarts : session.StartsWith provider bytes shared verified) :
    joinLog event bytes = [event session.id session.firstKnownIndex] := by
  rw [joinLog, hnames.place, FixedBytes.ofList?_toList, ← hstarts.messageIndex,
    UInt32.ofNat_toNat, hstarts.firstKnownIndex]
  rfl

private theorem events_init_of_ok {bytes : Bytes} {state : σ} {journal : Journal}
    (hok : (init provider bytes state journal).result = .ok session) :
    (init provider bytes state journal).journal.events =
      .initialised session.id session.firstKnownIndex :: journal.events := by
  obtain ⟨key, hread, hrest⟩ := result_bind_eq_ok_iff.mp hok
  obtain ⟨signer, hverify, hrest⟩ := result_bind_eq_ok_iff.mp hrest
  have hsilent : Silent ((key.verify provider).mapError .ofKey : Action σ SessionError _) := by
    refine .mapError ?_ _
    exact .bind (.ofExcept _) fun _ ↦ .bind (.mapError (.request provider _) _) fun _ ↦ .pure _
  cases hrest
  rw [init, bind_apply_ok hread, bind_apply_ok hverify]
  exact congrArg (_ :: ·) (hsilent _ _)

private theorem events_importKey_of_ok {bytes : Bytes} {state : σ} {journal : Journal}
    (hok : (importKey bytes state journal).result = .ok session) :
    (importKey bytes state journal).journal.events =
      .imported session.id session.firstKnownIndex :: journal.events := by
  obtain ⟨key, hread, hrest⟩ := result_bind_eq_ok_iff.mp hok
  obtain ⟨signer, hkey, hrest⟩ := result_bind_eq_ok_iff.mp hrest
  cases hrest
  have hsilent (result : Except SessionError Ed25519.VerifyingKey) :
      Silent (Action.ofExcept result : Action σ SessionError _) := .ofExcept result
  rw [importKey, bind_apply_ok hread, bind_apply_ok hkey]
  exact congrArg (_ :: ·) (hsilent _ state journal)

theorem logs_init (bytes : Bytes) (state : σ) :
    Logs (onSuccess (joinLog .initialised bytes)) (init provider bytes) state := by
  refine .of_failsSilently (failsSilently_init bytes) fun journal session hok ↦ ?_
  rcases names_or_firstFault 2 229 (by decide) bytes with ⟨signer, hnames⟩ | ⟨cause, hfault⟩
  · by_cases hsigned : Signed provider journal bytes signer
    · obtain ⟨other, hresult, rfl, hstarts⟩ := init_of_signed hnames hsigned state
      obtain rfl : session = other := Except.ok.inj (hok.symm.trans hresult)
      rw [joinLog_of_startsWith .initialised hnames hstarts]
      exact events_init_of_ok hok
    · cases hok.symm.trans (init_of_not_signed hnames hsigned state)
  · cases hok.symm.trans (result_init_of_firstFault hfault state journal)

theorem logs_importKey (bytes : Bytes) (state : σ) :
    Logs (onSuccess (joinLog .imported bytes)) (importKey bytes) state := by
  refine .of_failsSilently (failsSilently_importKey bytes) fun journal session hok ↦ ?_
  rcases names_or_firstFault 1 165 (by decide) bytes with ⟨signer, hnames⟩ | ⟨cause, hfault⟩
  · obtain ⟨other, hresult, rfl, hstarts⟩ :=
      @importKey_of_names _ _ _ .standard hnames state journal
    obtain rfl : session = other := Except.ok.inj (hok.symm.trans hresult)
    rw [joinLog_of_startsWith .imported hnames hstarts]
    exact events_importKey_of_ok hok
  · cases hok.symm.trans (result_importKey_of_firstFault hfault state journal)

/-- **Nothing that is shown or logged depends on a secret.** Let two sessions agree in all that is
public of them, with any parts in their ratchets. Then they and their ratchets have the same texts,
and all session keys have the same. If keys are always derived, whatever else fails, then two runs
of the same operation that end in the same way log the same events, in any states and whatever
happened before: decrypting the same bytes, passing the sessions on at the same index, and storing
them. So do two runs that make sessions from bytes with the same version, index and public key. -/
theorem keeps_secrets (provider : Provider) (hkeys : provider.Reliable .hkdf)
    (session other : Session) (hpublic : session.publicView = other.publicView) :
    session.debugText = other.debugText ∧
    session.ratchet.debugText = other.ratchet.debugText ∧
    (∀ key key' : SessionKey, key.debugText = key'.debugText) ∧
    (∀ key key' : ExportedSessionKey, key.debugText = key'.debugText) ∧
    (∀ bytes, LogsAlike (decrypt provider bytes) session (decrypt provider bytes) other) ∧
    (∀ index (state state' : σ), LogsAlike (session.exportKey provider index) state
      (other.exportKey provider index) state') ∧
    (∀ key source source', LogsAlike (session.pickle provider key) source
      (other.pickle provider key) source') ∧
    ∀ bytes bytes', bytes.take 5 = bytes'.take 5 →
      (bytes.drop 133).take 32 = (bytes'.drop 133).take 32 → ∀ state state' : σ,
        LogsAlike (init provider bytes) state (init provider bytes') state' ∧
        LogsAlike (importKey bytes) state (importKey bytes') state' := by
  have hindex : session.ratchet.counter = other.ratchet.counter :=
    congrArg PublicView.messageIndex hpublic
  refine ⟨debugText_eq hpublic, Ratchet.debugText_eq hindex, fun _ _ ↦ rfl, fun _ _ ↦ rfl, ?_, ?_,
    ?_, ?_⟩
  · intro bytes
    have hlogs := logs_decrypt hkeys bytes session
    rw [hpublic] at hlogs
    exact hlogs.alike (logs_decrypt hkeys bytes other)
  · intro index state state'
    have hlogs := @logs_exportKey _ provider session index state
    rw [hpublic] at hlogs
    exact hlogs.alike (logs_exportKey other index state')
  · intro key source source'
    exact (Logs.of_silent (silent_pickle session key)).alike
      (Logs.of_silent (silent_pickle other key))
  · intro bytes bytes' hfront hkey state state'
    constructor
    · have hlogs := @logs_init _ provider bytes state
      rw [joinLog_eq .initialised hfront hkey] at hlogs
      exact hlogs.alike (logs_init bytes' state')
    · have hlogs := logs_importKey bytes state
      rw [joinLog_eq .imported hfront hkey] at hlogs
      exact hlogs.alike (logs_importKey bytes' state')

/-- The session at index 0 with another lowest part. -/
def atOriginElsewhere : Session :=
  ofRatchet (.ofBytes ⟨List.replicate 96 0 ++ List.replicate 32 7, rfl⟩ 0)
    ⟨FixedBytes.zero 32⟩ true

/-- A shared key at index 300, with the same byte all over its ratchet. -/
def sharedAt300 (byte : UInt8) : Bytes :=
  [1, 0, 0, 1, 44] ++ List.replicate 128 byte ++ List.replicate 32 0

/-- Two sessions at index 0, with different parts, reject a message and log the same jump. Two
different keys make sessions, and both are logged in the same way. -/
theorem keeps_secrets_of_lowest_part :
    atOrigin ≠ atOriginElsewhere ∧ atOrigin.debugText = atOriginElsewhere.debugText ∧
      (decrypt .plain forgedAhead.toBytes atOrigin {}).result = .error .macMismatch ∧
      (decrypt .plain forgedAhead.toBytes atOriginElsewhere {}).result = .error .macMismatch ∧
      (decrypt .plain forgedAhead.toBytes atOrigin {}).journal.events =
        (decrypt .plain forgedAhead.toBytes atOriginElsewhere {}).journal.events ∧
      (∀ byte, ∃ session, (importKey (sharedAt300 byte) () {}).result = .ok session) ∧
      (importKey (sharedAt300 0) () {}).journal.events =
        (importKey (sharedAt300 7) () {}).journal.events := by
  have hrejected : (decrypt .plain forgedAhead.toBytes atOrigin {}).result =
      .error .macMismatch := rfl
  have hrejected' : (decrypt .plain forgedAhead.toBytes atOriginElsewhere {}).result =
      .error .macMismatch := rfl
  have hvalid : Ed25519.VerifyingKey.Valid ⟨FixedBytes.zero 32⟩ := by
    decide +kernel
  have hplace (byte : UInt8) :
      ((sharedAt300 byte).drop 133).take 32 = (FixedBytes.zero 32).toList := by
    rw [sharedAt300, List.drop_left' (by simp)]
    rfl
  have himported (byte : UInt8) :
      ∃ session, (importKey (sharedAt300 byte) () {}).result = .ok session := by
    have hlength : (sharedAt300 byte).length = 165 := by
      rw [sharedAt300, List.length_append, List.length_append, List.length_replicate,
        List.length_replicate]
      rfl
    have hnames : Names 1 165 (sharedAt300 byte) ⟨FixedBytes.zero 32⟩ :=
      ⟨rfl, hlength, hvalid, hplace byte⟩
    obtain ⟨session, hresult, -⟩ := @importKey_of_names _ _ _ .plain hnames () {}
    exact ⟨session, hresult⟩
  obtain ⟨htext, -, -, -, hdecrypt, -, -, hjoin⟩ := @keeps_secrets Unit .plain
    (Provider.reliable_plain (by decide)) atOrigin atOriginElsewhere rfl
  refine ⟨by decide, htext, hrejected, hrejected', ?_, himported, ?_⟩
  · obtain ⟨logged, hlogged, hlogged'⟩ := hdecrypt forgedAhead.toBytes {} {}
      (congrArg ending (hrejected.trans hrejected'.symm))
    exact hlogged.trans hlogged'.symm
  · obtain ⟨session, hok⟩ := himported 0
    obtain ⟨session', hok'⟩ := himported 7
    obtain ⟨-, hlogs⟩ := hjoin (sharedAt300 0) (sharedAt300 7) rfl
      ((hplace 0).trans (hplace 7).symm) () ()
    obtain ⟨logged, hlogged, hlogged'⟩ := hlogs {} {}
      ((congrArg ending hok).trans (congrArg ending hok').symm)
    exact hlogged.trans hlogged'.symm

end Session

end GroupSession
