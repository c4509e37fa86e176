import GroupSession.Cbor.Text

/-!
# Reading over values

A value that nobody wants is read all the same, since only its items say where it ends, and it must
be well formed.

## The construction

One header is read after the other, with a stack of the collections and tags that are still open,
the innermost first. Each of them is a level, of which only so many may be open at a time. A
collection that has got all its items is closed before the next header is read; the value has been
read when nothing is open any more.

A collection takes its level before anything in it is read. A tag takes it after the header behind
it, since that header decides whether the two make a number, which takes no level (`bigSize?`). So
bytes that end or are malformed right behind a tag are found before a tag that is nested too deeply.
-/

namespace GroupSession

namespace Cbor

/-- Something that is open and waits for items. -/
inductive Frame
  /-- It waits for so many more items. -/
  | items (left : Nat)
  /-- It waits for items up to a break. -/
  | sequence
  /-- It waits for a key or a break. -/
  | pairs
  /-- It waits for the value of a key. -/
  | value
deriving DecidableEq, Repr

namespace Frame

/-- Whether a break closes what is open. -/
def endsWithBreak : Frame → Bool
  | sequence | pairs => true
  | items _ | value => false

/-- What is still waited for when one item has come. -/
def next : Frame → Frame
  | items left => items (left - 1)
  | sequence => sequence
  | pairs => value
  | value => pairs

/-- The frames that are not closed by having got all their items. -/
def dropFull : List Frame → List Frame
  | items 0 :: outer => dropFull outer
  | frames => frames

end Frame

namespace Reader

/-- The greatest size of a byte string that makes a tag before it the mark of a great number. -/
def mostBigBytes : Nat := 16

/-- Opens one more level, if `levels` allows it. The outermost frame is the value itself and no
level. -/
def enter (levels : Nat) (frame : Frame) (frames : List Frame) : Reader (List Frame) :=
  if levels < frames.length then throw .tooDeep else return frame :: frames

/-- The size of the bytes behind a tag that marks a great number, if there are few enough. -/
def bigSize? (tag : Nat) : Header → Option Nat
  | .bytes (some size) => if (tag = 2 ∨ tag = 3) ∧ size ≤ mostBigBytes then some size else none
  | _ => none

/-- Reads over a great number behind its tag. Any other tag takes a level for the item it marks, but
not before that item's header has been looked at. -/
def skipTag (levels : Nat) (frames : List Frame) (tag : Nat) : Reader (List Frame) := do
  let before ← get
  match bigSize? tag (← header) with
  | some size =>
    let n := Bytes.toNatBE (← take size)
    if tag = 3 ∧ 2 ^ 127 ≤ n then fail .integerTooLarge
    return frames
  | none =>
    set before
    enter levels (.items 1) frames

/-- Reads over an item whose header has just been read, up to the items in it. -/
def skipItem (levels : Nat) (frames : List Frame) : Header → Reader (List Frame)
  | .positive _ | .negative _ | .float _ => return frames
  | .bytes size => do
    skipBytes size
    return frames
  | .text size => do
    skipText size
    return frames
  | .array (some size) => enter levels (.items size) frames
  | .array none => enter levels .sequence frames
  | .map (some size) => enter levels (.items (2 * size)) frames
  | .map none => enter levels .pairs frames
  | .tag n => skipTag levels frames n
  | .simple n =>
    if 20 ≤ n ∧ n ≤ 23 then return frames else fail (.unexpected (.simple n) .knownSimple)
  | .stop => fail (.unexpected .stop .noBreak)

/-- Reads over a value that may open `levels` levels. -/
def skip (levels : Nat) : Reader Unit :=
  loop (fun frames ↦ do
    match Frame.dropFull frames with
    | [] => done ()
    | frame :: outer =>
      let found ← header
      if found = .stop ∧ frame.endsWithBreak then again outer
      else again (← skipItem levels (frame.next :: outer) found))
    [.items 1]

end Reader

end Cbor

end GroupSession
