import GroupSession.Cbor.Error

/-!
# Reading CBOR

A `Reader` takes bytes off the front of what is left of the input and counts them, so that an error
can say where it happened.

## Repetition

All repetition is `Reader.loop`: a step is taken again and again until it gives an answer. A step
that does not give one has taken at least a byte, so the input that is left bounds the repetition.
A step that took nothing would go on for ever; it counts as reading past the end.

## Positions

The position of an item is that of its first byte. Some headers are looked at before they are read
in earnest, to find out how to go on. Such a header is remembered in its shortest form only, and so
the position of its item is counted back from the end of the header by the length of that form
(`settledPosition`).
-/

namespace GroupSession

namespace Cbor

/-- The place that reading has come to. -/
structure Cursor where
  /-- What is left of the input. -/
  rest : Bytes
  /-- How many bytes have been read. -/
  position : Nat

/-- What takes bytes off the input and gives an answer or an error. -/
abbrev Reader := StateT Cursor (Except DecodeError)

namespace Reader

variable {σ α : Type}

/-- The position of the next byte. -/
def position : Reader Nat := do return (← get).position

/-- The next `size` bytes. -/
def take (size : Nat) : Reader Bytes := fun cursor ↦
  if size ≤ cursor.rest.length then
    .ok (cursor.rest.take size, ⟨cursor.rest.drop size, cursor.position + size⟩)
  else .error .endOfInput

/-- The next byte. -/
def byte : Reader UInt8 := fun cursor ↦
  match cursor.rest with
  | [] => .error .endOfInput
  | first :: rest => .ok (first, ⟨rest, cursor.position + 1⟩)

/-- Repeats a step until it gives an answer. -/
def loop (step : σ → Reader (σ ⊕ α)) (state : σ) : Reader α := fun cursor ↦
  match step state cursor with
  | .error fault => .error fault
  | .ok (.inr answer, next) => .ok (answer, next)
  | .ok (.inl state, next) =>
    if next.rest.length < cursor.rest.length then loop step state next else .error .endOfInput
termination_by cursor => cursor.rest.length

/-- What a repeated step says to go on. -/
def again (state : σ) : Reader (σ ⊕ α) := pure (.inl state)

/-- What a repeated step says to end. -/
def done (answer : α) : Reader (σ ⊕ α) := pure (.inr answer)

/-- Fails because of an item whose place is not known. -/
def fail (problem : Problem) : Reader α := throw (.unsuitable none problem)

/-! ## Headers -/

/-- The argument of a header, and whether there is one: the low five bits of the first byte hold
it, or say how many bytes hold it, or that there is none. -/
def argument (start low : Nat) : Reader (Option Nat) := do
  if low < 24 then return some low
  else if low < 28 then return some (Bytes.toNatBE (← take (2 ^ (low - 24))))
  else if low < 31 then throw (.malformed start)
  else return none

/-- An item that is no string, number or collection, given how many bytes its argument has and
which. -/
def special (low : Nat) (argument? : Option Nat) : Header :=
  match argument? with
  | none => .stop
  | some n =>
    if low = 25 then .float (Decimal.widen 5 10 n)
    else if low = 26 then .float (Decimal.widen 8 23 n)
    else if low = 27 then .float (UInt64.ofNat n)
    else .simple n

/-- The next header. -/
def header : Reader Header := do
  let start ← position
  let first ← byte
  let low := first.toNat % 32
  let argument? ← argument start low
  match first.toNat / 32, argument? with
  | 0, some n => return .positive n
  | 1, some n => return .negative n
  | 2, size => return .bytes size
  | 3, size => return .text size
  | 4, size => return .array size
  | 5, size => return .map size
  | 6, some n => return .tag n
  | 7, argument? => return special low argument?
  | _, _ => throw (.malformed start)

/-- The position of a string of so many bytes whose header was looked at before and has just been
read. -/
def settledPosition (size : Nat) : Reader Nat := do return (← position) - (1 + argumentSize size)

/-- The next header behind any tags, and its position. -/
def untagged : Reader (Nat × Header) :=
  loop (fun _ ↦ do
    let start ← position
    match ← header with
    | .tag _ => again ()
    | found => done (start, found))
    ()

/-! ## Items of a collection -/

/-- Reads items up to as many as are wanted. There are fewer if the collection ends before: it has
the given size, or ends with a break. -/
def items (item : Reader α) : (size : Option Nat) → (wanted : Nat) → Reader (List α)
  | _, 0 => pure []
  | some 0, _ => pure []
  | some (size + 1), wanted + 1 => do return (← item) :: (← items item (some size) wanted)
  | none, wanted + 1 => do
    let before ← get
    match ← header with
    | .stop => return []
    | _ =>
      set before
      return (← item) :: (← items item none wanted)

end Reader

end Cbor

end GroupSession
