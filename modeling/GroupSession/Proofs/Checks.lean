import GroupSession.Proofs.Effects

/-!
# Checks one after the other

An operation that is given bytes goes through a row of checks, and some of them ask the provider.
This file says what it means that such an operation decides exactly as it should, and with which
requests, in which order.

## Stopping at a refusal

If all that can fail is a request, then of all the requests that were made only the latest can have
been refused, and if the operation succeeds, none of them was. Actions that stop at the first
refusal can be put together.

## Deciding exactly

To know how an operation decides it is enough to say what it accepts and what it rejects, if every
input falls under one of the two. The journal is part of both: what was asked for belongs to the
decision.
-/

namespace GroupSession

/-- The journal with one more request in it. -/
def Journal.ask (journal : Journal) (request : Request) : Journal :=
  { journal with requests := request :: journal.requests }

/-! ## The order of requests -/

/-- Since some history, requests of these kinds were made, in this order. -/
def MadeSince (history : List Request) (kinds : List Primitive) (requests : List Request) : Prop :=
  ∃ made : List Request, requests = made ++ history ∧ made.reverse.map Request.primitive = kinds

namespace MadeSince

variable {history middle requests : List Request} {kinds : List Primitive}

theorem none (history : List Request) : MadeSince history [] history := ⟨[], rfl, rfl⟩

theorem ask (h : MadeSince history kinds requests) (request : Request) :
    MadeSince history (kinds ++ [request.primitive]) (request :: requests) := by
  obtain ⟨made, rfl, rfl⟩ := h
  refine ⟨request :: made, rfl, ?_⟩
  rw [List.reverse_cons, List.map_append]
  rfl

theorem exists_replicate (h : MadeSince history kinds middle) {primitive : Primitive}
    (hmore : ∃ made : List Request, requests = made ++ middle ∧
      ∀ request ∈ made, request.primitive = primitive) :
    ∃ count, MadeSince history (kinds ++ List.replicate count primitive) requests := by
  obtain ⟨made, rfl, hmade⟩ := hmore
  induction made with
  | nil =>
    refine ⟨0, ?_⟩
    rwa [List.replicate_zero, List.append_nil]
  | cons request made ih =>
    obtain ⟨hrequest, hmade⟩ := List.forall_mem_cons.mp hmade
    obtain ⟨count, hcount⟩ := ih hmade
    have hnext := hcount.ask request
    rw [hrequest, List.append_assoc, ← List.replicate_succ'] at hnext
    exact ⟨count + 1, hnext⟩

end MadeSince

/-! ## Answered and refused requests -/

namespace Provider

/-- Since some history, only requests of these kinds were made, and all of them were answered. -/
inductive AnsweredAll (provider : Provider) (kinds : Primitive → Prop) (history : List Request) :
    List Request → Prop
  | none : AnsweredAll provider kinds history history
  | ask {requests : List Request} {request : Request} {answer : request.Answer}
    (h : AnsweredAll provider kinds history requests) (hkind : kinds request.primitive)
    (hanswer : provider.answer requests request = .ok answer) :
    AnsweredAll provider kinds history (request :: requests)

/-- Since some history, only requests of these kinds were made. The latest was refused, and all
before were answered. -/
inductive RefusedLast (provider : Provider) (kinds : Primitive → Prop) (history : List Request) :
    List Request → Prop
  | intro {requests : List Request} {request : Request} {failure : Failure}
    (h : AnsweredAll provider kinds history requests) (hkind : kinds request.primitive)
    (hanswer : provider.answer requests request = .error failure) :
    RefusedLast provider kinds history (request :: requests)

variable {provider : Provider} {kinds kinds' : Primitive → Prop}
  {history middle requests : List Request}

namespace AnsweredAll

theorem trans (h : provider.AnsweredAll kinds history middle)
    (h' : provider.AnsweredAll kinds middle requests) :
    provider.AnsweredAll kinds history requests := by
  induction h' with
  | none => exact h
  | ask _ hkind hanswer ih => exact .ask ih hkind hanswer

theorem mono (h : provider.AnsweredAll kinds history requests)
    (hkinds : ∀ primitive, kinds primitive → kinds' primitive) :
    provider.AnsweredAll kinds' history requests := by
  induction h with
  | none => exact .none
  | ask _ hkind hanswer ih => exact .ask ih (hkinds _ hkind) hanswer

theorem exists_append (h : provider.AnsweredAll kinds history requests) :
    ∃ made : List Request, requests = made ++ history ∧
      ∀ request ∈ made, kinds request.primitive := by
  induction h with
  | none => exact ⟨[], rfl, nofun⟩
  | @ask _ request _ _ hkind _ ih =>
    obtain ⟨made, rfl, hmade⟩ := ih
    exact ⟨request :: made, rfl, List.forall_mem_cons.mpr ⟨hkind, hmade⟩⟩

theorem exists_answer (h : provider.AnsweredAll kinds history requests) {request : Request}
    (hsince : history <:+ middle) (hmade : request :: middle <:+ requests) :
    ∃ answer, provider.answer middle request = .ok answer := by
  induction h with
  | none =>
    have hlonger : (request :: middle).length ≤ middle.length :=
      Nat.le_trans hmade.length_le hsince.length_le
    exact absurd hlonger (Nat.not_succ_le_self _)
  | ask _ _ hanswer ih =>
    rcases List.suffix_cons_iff.mp hmade with hlast | hearlier
    · obtain ⟨rfl, rfl⟩ := List.cons.inj hlast
      exact ⟨_, hanswer⟩
    · exact ih hearlier

end AnsweredAll

namespace RefusedLast

theorem trans (h : provider.AnsweredAll kinds history middle)
    (h' : provider.RefusedLast kinds middle requests) :
    provider.RefusedLast kinds history requests := by
  obtain ⟨hbefore, hkind, hanswer⟩ := h'
  exact .intro (h.trans hbefore) hkind hanswer

theorem mono (h : provider.RefusedLast kinds history requests)
    (hkinds : ∀ primitive, kinds primitive → kinds' primitive) :
    provider.RefusedLast kinds' history requests := by
  obtain ⟨hbefore, hkind, hanswer⟩ := h
  exact .intro (hbefore.mono hkinds) (hkinds _ hkind) hanswer

theorem exists_append (h : provider.RefusedLast kinds history requests) :
    ∃ made : List Request, requests = made ++ history ∧
      ∀ request ∈ made, kinds request.primitive := by
  obtain ⟨hbefore, hkind, -⟩ := h
  obtain ⟨made, rfl, hmade⟩ := hbefore.exists_append
  exact ⟨_ :: made, rfl, List.forall_mem_cons.mpr ⟨hkind, hmade⟩⟩

theorem not_reliable (h : provider.RefusedLast (· = .hmacSha256) history requests) :
    ¬provider.Reliable .hmacSha256 := by
  intro hreliable
  obtain @⟨requests, request, failure, -, hkind, hanswer⟩ := h
  have hfeasible : request.Feasible := by
    cases request with
    | hmacSha256 => trivial
    | hkdf | aeadEncrypt | aeadDecrypt | verify => cases hkind
  obtain ⟨answer, hok⟩ := hreliable request hkind hfeasible requests
  cases hanswer.symm.trans hok

end RefusedLast

end Provider

namespace Action

variable {σ τ ε ε' α β : Type} {provider : Provider} {kinds : Primitive → Prop}

/-! ## Stopping at a refusal -/

/-- The action makes requests of some kinds only, and fails as soon as one is refused, but for no
other reason. -/
structure StopsAtRefusal (provider : Provider) (kinds : Primitive → Prop) (action : Action σ ε α) :
    Prop where
  of_ok : ∀ {state journal a}, (action state journal).result = .ok a →
    provider.AnsweredAll kinds journal.requests (action state journal).journal.requests
  of_error : ∀ {state journal fault}, (action state journal).result = .error fault →
    provider.RefusedLast kinds journal.requests (action state journal).journal.requests

namespace StopsAtRefusal

theorem pure (a : α) : StopsAtRefusal provider kinds (pure a : Action σ ε α) :=
  ⟨fun _ ↦ .none, nofun⟩

theorem get : StopsAtRefusal provider kinds (get : Action σ ε σ) := ⟨fun _ ↦ .none, nofun⟩

theorem modify (change : σ → σ) :
    StopsAtRefusal provider kinds (modify change : Action σ ε PUnit) := ⟨fun _ ↦ .none, nofun⟩

theorem log (event : Event) : StopsAtRefusal provider kinds (log event : Action σ ε Unit) :=
  ⟨fun _ ↦ .none, nofun⟩

theorem request {r : Request} (hkind : kinds r.primitive) :
    StopsAtRefusal provider kinds (request provider r : Action σ Failure r.Answer) :=
  ⟨fun hanswer ↦ .ask .none hkind hanswer, fun hanswer ↦ .intro .none hkind hanswer⟩

theorem mapError {action : Action σ ε α} (h : StopsAtRefusal provider kinds action)
    (rename : ε → ε') : StopsAtRefusal provider kinds (mapError rename action) where
  of_ok hresult := h.of_ok (result_mapError_eq_ok_iff.mp hresult)
  of_error hresult := by
    obtain ⟨cause, hcause, -⟩ := result_mapError_eq_error_iff.mp hresult
    exact h.of_error hcause

theorem bind {action : Action σ ε α} {next : α → Action σ ε β}
    (h : StopsAtRefusal provider kinds action)
    (hnext : ∀ a, StopsAtRefusal provider kinds (next a)) :
    StopsAtRefusal provider kinds (action >>= next) where
  of_ok hresult := by
    obtain ⟨a, hfirst, hsecond⟩ := result_bind_eq_ok_iff.mp hresult
    rw [bind_apply_ok hfirst]
    exact (h.of_ok hfirst).trans ((hnext a).of_ok hsecond)
  of_error hresult := by
    rcases result_bind_eq_error_iff.mp hresult with hfirst | ⟨a, hfirst, hsecond⟩
    · rw [bind_apply_error hfirst]
      exact h.of_error hfirst
    · rw [bind_apply_ok hfirst]
      exact .trans (h.of_ok hfirst) ((hnext a).of_error hsecond)

/-- An action that only makes hashes succeeds if none of them fails. -/
theorem exists_result_of_reliable {action : Action σ ε α}
    (h : StopsAtRefusal provider (· = .hmacSha256) action)
    (hreliable : provider.Reliable .hmacSha256) (state : σ) (journal : Journal) :
    ∃ a, (action state journal).result = .ok a := by
  cases hresult : (action state journal).result with
  | ok a => exact ⟨a, rfl⟩
  | error fault => exact absurd hreliable (h.of_error hresult).not_reliable

end StopsAtRefusal

/-! ## Behind a check -/

section Bind

variable {state after : σ} {journal journal' : Journal} {rename : ε → ε'}

theorem mapError_bind_of_ok {action : Action σ ε α} {a : α} {next : α → Action σ ε' β}
    (h : action state journal = ⟨.ok a, after, journal'⟩) :
    (mapError rename action >>= next) state journal = next a after journal' := by
  rw [bind_apply, mapError, h]
  rfl

theorem mapError_bind_of_error {action : Action σ ε α} {fault : ε} {next : α → Action σ ε' β}
    (h : action state journal = ⟨.error fault, after, journal'⟩) :
    (mapError rename action >>= next) state journal = ⟨.error (rename fault), after, journal'⟩ := by
  rw [bind_apply, mapError, h]
  rfl

theorem request_bind_of_ok {r : Request} {rename : Failure → ε} {answer : r.Answer}
    {next : r.Answer → Action σ ε β}
    (h : provider.answer journal.requests r = .ok answer) :
    (mapError rename (request provider r) >>= next) state journal =
      next answer state (journal.ask r) := by
  refine mapError_bind_of_ok ?_
  rw [request_apply, h]
  rfl

theorem request_bind_of_error {r : Request} {rename : Failure → ε} {failure : Failure}
    {next : r.Answer → Action σ ε β}
    (h : provider.answer journal.requests r = .error failure) :
    (mapError rename (request provider r) >>= next) state journal =
      ⟨.error (rename failure), state, journal.ask r⟩ := by
  refine mapError_bind_of_error ?_
  rw [request_apply, h]
  rfl

theorem onCopy_bind_of_ok {action : Action τ ε α} {value : τ} {a : α} {next : τ → Action σ ε' β}
    (h : (action value journal).result = .ok a) :
    (mapError rename (onCopy action value) >>= next) state journal =
      next (action value journal).state state (action value journal).journal := by
  refine mapError_bind_of_ok ?_
  rw [onCopy, h]
  rfl

theorem onCopy_bind_of_error {action : Action τ ε α} {value : τ} {fault : ε}
    {next : τ → Action σ ε' β} (h : (action value journal).result = .error fault) :
    (mapError rename (onCopy action value) >>= next) state journal =
      ⟨.error (rename fault), state, (action value journal).journal⟩ := by
  refine mapError_bind_of_error ?_
  rw [onCopy, h]
  rfl

end Bind

/-! ## Deciding exactly -/

/-- All that is to be known of an operation that accepts some inputs and rejects the others: what it
answers, what it leaves, and which requests have been made in the end. What is rejected changes
nothing. -/
structure DecidesExactly (outcome : Outcome σ ε α) (before : σ)
    (accepts : α → σ → List Request → Prop) (rejects : ε → List Request → Prop) : Prop where
  ok_iff : ∀ a, outcome.result = .ok a ↔ ∃ after requests, accepts a after requests
  accepts_of_ok : ∀ a, outcome.result = .ok a →
    accepts a outcome.state outcome.journal.requests
  error_iff : ∀ fault, outcome.result = .error fault ↔ ∃ requests, rejects fault requests
  rejects_of_error : ∀ fault, outcome.result = .error fault →
    rejects fault outcome.journal.requests ∧ outcome.state = before

/-- It is enough to know what follows from accepting and from rejecting, if there is always one or
the other. -/
theorem DecidesExactly.of_cases {outcome : Outcome σ ε α} {before : σ}
    {accepts : α → σ → List Request → Prop} {rejects : ε → List Request → Prop}
    (haccepts : ∀ a after requests, accepts a after requests →
      outcome.result = .ok a ∧ outcome.state = after ∧ outcome.journal.requests = requests)
    (hrejects : ∀ fault requests, rejects fault requests →
      outcome.result = .error fault ∧ outcome.state = before ∧
        outcome.journal.requests = requests)
    (hcases : (∃ a after requests, accepts a after requests) ∨
      ∃ fault requests, rejects fault requests) :
    DecidesExactly outcome before accepts rejects := by
  have hok_of (a : α) (h : ∃ after requests, accepts a after requests) :
      outcome.result = .ok a := by
    obtain ⟨after, requests, h⟩ := h
    exact (haccepts a after requests h).1
  have herror_of (fault : ε) (h : ∃ requests, rejects fault requests) :
      outcome.result = .error fault := by
    obtain ⟨requests, h⟩ := h
    exact (hrejects fault requests h).1
  rcases hcases with ⟨a, after, requests, haccept⟩ | ⟨fault, requests, hreject⟩
  · obtain ⟨hresult, rfl, rfl⟩ := haccepts a after requests haccept
    have haccept_of (b : α) (hok : outcome.result = .ok b) :
        accepts b outcome.state outcome.journal.requests := by
      obtain rfl := Except.ok.inj (hresult.symm.trans hok)
      exact haccept
    refine ⟨fun b ↦ ⟨fun hok ↦ ⟨_, _, haccept_of b hok⟩, hok_of b⟩, haccept_of,
      fun fault ↦ ⟨fun herror ↦ ?_, herror_of fault⟩, fun fault herror ↦ ?_⟩
    · cases hresult.symm.trans herror
    · cases hresult.symm.trans herror
  · obtain ⟨hresult, hstate, rfl⟩ := hrejects fault requests hreject
    have hreject_of (other : ε) (herror : outcome.result = .error other) :
        rejects other outcome.journal.requests := by
      obtain rfl := Except.error.inj (hresult.symm.trans herror)
      exact hreject
    refine ⟨fun a ↦ ⟨fun hok ↦ ?_, hok_of a⟩, fun a hok ↦ ?_,
      fun other ↦ ⟨fun herror ↦ ⟨_, hreject_of other herror⟩, herror_of other⟩,
      fun other herror ↦ ⟨hreject_of other herror, hstate⟩⟩
    · cases hresult.symm.trans hok
    · cases hresult.symm.trans hok

end Action

end GroupSession
