import GroupSession.Provider
import GroupSession.SessionId

/-!
# Actions and their journal

An operation on a ratchet or a session may ask the provider, log events, change the state it works
on, and fail. An `Action` is such an operation as a function: of the state and of the journal of
what happened before it. It always leaves a state, also when it fails, so that one can say of a
failed operation what it has changed.

The journal holds the requests that were made and the events that were logged, the latest first.
-/

namespace GroupSession

/-! ## Events -/

/-- What is logged. No event holds a secret. -/
inductive Event
  /-- A session was made from the key its sender handed out. -/
  | initialised (session : SessionId) (firstKnownIndex : UInt32)
  /-- A session was made from a key another receiver shared. -/
  | imported (session : SessionId) (firstKnownIndex : UInt32)
  /-- A session was restored from a pickle. -/
  | restored (session : SessionId) (messageIndex : UInt32)
  /-- A ratchet jumped. -/
  | advanced (source target : UInt32)
  /-- A message was decrypted. -/
  | decrypted (session : SessionId) (index : UInt32)
deriving DecidableEq

/-- How much detail an event is. -/
inductive Level
  | trace
  | debug
deriving DecidableEq, Repr

namespace Event

/-- How much detail an event is. -/
def level : Event → Level
  | initialised .. | imported .. | restored .. => .debug
  | advanced .. | decrypted .. => .trace

/-- What happened, in words. -/
def message : Event → String
  | initialised .. => "initialised inbound group session"
  | imported .. => "imported inbound group session"
  | restored .. => "restored inbound group session from pickle"
  | advanced .. => "advanced group ratchet"
  | decrypted .. => "decrypted group message"

/-- The particulars of an event by their names. -/
def fields : Event → List (String × String)
  | initialised session index | imported session index =>
    [("session_id", session.hex), ("first_known_index", index.toNat.repr)]
  | restored session index =>
    [("session_id", session.hex), ("message_index", index.toNat.repr)]
  | advanced source target => [("from", source.toNat.repr), ("to", target.toNat.repr)]
  | decrypted session index => [("session_id", session.hex), ("index", index.toNat.repr)]

end Event

/-! ## Actions -/

/-- What has happened so far. -/
structure Journal where
  /-- The requests that were made, the latest first. -/
  requests : List Request := []
  /-- The events that were logged, the latest first. -/
  events : List Event := []
deriving DecidableEq

/-- What an action leads to. -/
structure Outcome (σ ε α : Type) where
  /-- The answer or the fault. -/
  result : Except ε α
  /-- The state as the action left it. -/
  state : σ
  /-- The journal, with what the action added. -/
  journal : Journal

/-- An operation on a state. -/
def Action (σ ε α : Type) : Type := σ → Journal → Outcome σ ε α

namespace Action

variable {σ τ ε ε' α β : Type}

instance : Monad (Action σ ε) where
  pure a := fun state journal ↦ ⟨.ok a, state, journal⟩
  bind action next := fun state journal ↦
    match action state journal with
    | ⟨.ok a, state, journal⟩ => next a state journal
    | ⟨.error fault, state, journal⟩ => ⟨.error fault, state, journal⟩

instance : MonadStateOf σ (Action σ ε) where
  get := fun state journal ↦ ⟨.ok state, state, journal⟩
  set state := fun _ journal ↦ ⟨.ok (), state, journal⟩
  modifyGet change := fun state journal ↦ ⟨.ok (change state).1, (change state).2, journal⟩

instance : MonadExceptOf ε (Action σ ε) where
  throw fault := fun state journal ↦ ⟨.error fault, state, journal⟩
  tryCatch action handle := fun state journal ↦
    match action state journal with
    | ⟨.error fault, state, journal⟩ => handle fault state journal
    | outcome => outcome

/-- The action that does nothing but give a known answer or fault. -/
def ofExcept (result : Except ε α) : Action σ ε α := fun state journal ↦ ⟨result, state, journal⟩

/-- The same action with its faults said in another way. -/
def mapError (rename : ε → ε') (action : Action σ ε α) : Action σ ε' α := fun state journal ↦
  let outcome := action state journal
  ⟨outcome.result.mapError rename, outcome.state, outcome.journal⟩

/-- Performs an action on a value of its own, and answers with the value it left. -/
def onCopy (action : Action τ ε α) (value : τ) : Action σ ε τ := fun state journal ↦
  let outcome := action value journal
  ⟨outcome.result.map fun _ ↦ outcome.state, state, outcome.journal⟩

/-- Makes a request. -/
def request (provider : Provider) (request : Request) : Action σ Failure request.Answer :=
  fun state journal ↦
    ⟨provider.answer journal.requests request, state,
      { journal with requests := request :: journal.requests }⟩

/-- Logs an event. -/
def log (event : Event) : Action σ ε Unit := fun state journal ↦
  ⟨.ok (), state, { journal with events := event :: journal.events }⟩

/-! ## What actions lead to -/

@[simp] theorem pure_apply (a : α) (state : σ) (journal : Journal) :
    (pure a : Action σ ε α) state journal = ⟨.ok a, state, journal⟩ := rfl

@[simp] theorem throw_apply (fault : ε) (state : σ) (journal : Journal) :
    (throw fault : Action σ ε α) state journal = ⟨.error fault, state, journal⟩ := rfl

@[simp] theorem get_apply (state : σ) (journal : Journal) :
    (get : Action σ ε σ) state journal = ⟨.ok state, state, journal⟩ := rfl

@[simp] theorem set_apply (next state : σ) (journal : Journal) :
    (set next : Action σ ε PUnit) state journal = ⟨.ok (), next, journal⟩ := rfl

@[simp] theorem modify_apply (change : σ → σ) (state : σ) (journal : Journal) :
    (modify change : Action σ ε PUnit) state journal = ⟨.ok (), change state, journal⟩ := rfl

@[simp] theorem request_apply (provider : Provider) (r : Request) (state : σ)
    (journal : Journal) :
    request provider r state journal =
      ⟨provider.answer journal.requests r, state,
        { journal with requests := r :: journal.requests }⟩ := rfl

theorem bind_apply_ok {action : Action σ ε α} {next : α → Action σ ε β} {state : σ}
    {journal : Journal} {a : α} (h : (action state journal).result = .ok a) :
    (action >>= next) state journal =
      next a (action state journal).state (action state journal).journal := by
  change (match action state journal with
    | ⟨.ok a, state, journal⟩ => next a state journal
    | ⟨.error fault, state, journal⟩ => ⟨.error fault, state, journal⟩) = _
  generalize action state journal = outcome at h ⊢
  obtain ⟨result, after, journal⟩ := outcome
  cases h
  rfl

theorem bind_apply_error {action : Action σ ε α} {next : α → Action σ ε β} {state : σ}
    {journal : Journal} {fault : ε} (h : (action state journal).result = .error fault) :
    (action >>= next) state journal =
      ⟨.error fault, (action state journal).state, (action state journal).journal⟩ := by
  change (match action state journal with
    | ⟨.ok a, state, journal⟩ => next a state journal
    | ⟨.error fault, state, journal⟩ => ⟨.error fault, state, journal⟩) = _
  generalize action state journal = outcome at h ⊢
  obtain ⟨result, after, journal⟩ := outcome
  cases h
  rfl

end Action

end GroupSession
