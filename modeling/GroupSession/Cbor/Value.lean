import GroupSession.Cbor.Skip

/-!
# Reading wanted values

Numbers, truth values, byte strings of a fixed length and maps with named fields, each read with
the leniency that its reader has: tags in front are skipped, numbers may be great numbers with
leading zeros, byte strings may be arrays of numbers, and the fields of a map may stand in any
order, between others that are read over.

A collection is left where the last wanted item of it ends. What it holds beyond that is then read
as the next item of the collection around it.
-/

namespace GroupSession

namespace Cbor

namespace Reader

variable {σ α : Type}

/-! ## Numbers -/

/-- The first size of a number that has more than 128 bits. -/
def bigBound : Nat := 2 ^ 128

/-- The number continued by further bytes. -/
def extendBig (n : Nat) (bytes : Bytes) : Reader Nat :=
  bytes.foldlM
    (fun n b ↦ do
      let n := 256 * n + b.toNat
      if n < bigBound then return n else fail .bigintTooLarge)
    n

/-- The number continued by the bytes of a segment, read in small pieces. -/
def bigSegment (size n : Nat) : Reader Nat :=
  loop (fun (left, n) ↦ do
    if left = 0 then done n
    else
      let count := min mostBigBytes left
      let n ← extendBig n (← take count)
      again (left - count, n))
    (size, n)

/-- The number behind a tag that marks great numbers. -/
def big : Reader Nat := do
  match ← header with
  | .bytes (some size) => bigSegment size 0
  | .bytes none => segments bytesSize? (fun _ size n ↦ bigSegment size n) 0
  | found => fail (.unexpected found .bytes)

/-- A number, and whether it is the argument of a negative one. -/
def integer : Reader (Bool × Nat) :=
  loop (fun _ ↦ do
    match ← header with
    | .positive n => done (false, n)
    | .negative n => done (true, n)
    | .tag 2 => done (false, ← big)
    | .tag 3 => done (true, ← big)
    | .tag _ => again ()
    | found => fail (.unexpected found .integer))
    ()

/-- A number of a width. -/
def unsigned (width : Width) : Reader Nat := do
  let (isNegative, n) ← integer
  if isNegative then fail .negativeInteger
  else if 2 ^ 64 ≤ n then fail .integerTooLarge
  else if width.bound ≤ n then fail (.outOfRange n width)
  else return n

/-- A number of 32 bits. -/
def uint32 : Reader UInt32 := do return UInt32.ofNat (← unsigned .bits32)

/-- A byte as a number. -/
def uint8 : Reader UInt8 := do return UInt8.ofNat (← unsigned .bits8)

/-! ## Truth values -/

/-- A truth value. -/
def bool : Reader Bool := do
  match ← untagged with
  | (_, .simple 20) => return false
  | (_, .simple 21) => return true
  | (start, _) => throw (.unsuitable (some start) .noBool)

/-! ## Byte strings of a fixed length -/

/-- The bytes as a key or a part of a ratchet. -/
def asKey (bytes : Bytes) : Reader (FixedBytes 32) :=
  match FixedBytes.ofList? 32 bytes with
  | some bytes => pure bytes
  | none => fail (.invalidLength bytes.length .bytes)

/-- A key or a part of a ratchet, as a byte string or an array of numbers. -/
def key : Reader (FixedBytes 32) := do
  let (_, found) ← untagged
  match found with
  | .bytes (some size) =>
    if size ≤ pieceSize then asKey (← take size) else fail (.unexpected found .bytes)
  | .array size => asKey (← items uint8 size 32)
  | _ => fail (.unexpected found .bytes)

/-- The parts of a ratchet. A byte string in their place is read to its end, but none of its bytes
is a part. -/
def parts : Reader (Vector (FixedBytes 32) 4) := do
  let (_, found) ← untagged
  match found with
  | .array size =>
    match ← items key size 4 with
    | [a, b, c, d] => return #v[a, b, c, d]
    | fewer => fail (.invalidLength fewer.length .parts)
  | .bytes size =>
    match ← wholeBytes size with
    | [] => fail (.invalidLength 0 .parts)
    | first :: _ => fail (.unexpected (.positive first.toNat) .secret)
  | _ => fail (.unexpected found .array)

/-! ## Maps -/

/-- The name of a field, from the header that it begins with. A name is a text or a byte string.
The position of a text counts only if the text is malformed: it is the given one, or that of a
header which was looked at before. -/
def fieldName (start? : Option Nat) (found : Header) : Reader Bytes := do
  match found with
  | .text (some size) =>
    if size ≤ pieceSize then
      let start ← match start? with
        | some start => pure start
        | none => settledPosition size
      let name ← take size
      if Utf8.isText name then return name else throw (.malformed start)
    else fail (.unexpected found .key)
  | .bytes (some size) => if size ≤ pieceSize then take size else fail (.unexpected found .key)
  | _ => fail (.unexpected found .key)

/-- The name of the next field of a map whose size is known, behind any tags. -/
def nextName : Reader Bytes := do
  let (start, found) ← untagged
  fieldName (some start) found

/-- The name of the next field of a map that ends with a break, if the break has not come. -/
def nextName? : Reader (Option Bytes) := do
  match ← header with
  | .stop => return none
  | .tag _ => return some (← nextName)
  | found => return some (← fieldName none found)

/-- Reads the fields of a map, each of which changes what has been read so far. -/
def fields (field : Bytes → σ → Reader σ) (size : Option Nat) (state : σ) : Reader σ :=
  loop (fun (size, state) ↦ do
    match size with
    | some 0 => done state
    | some (left + 1) => again (some left, ← field (← nextName) state)
    | none =>
      match ← nextName? with
      | none => done state
      | some name => again (none, ← field name state))
    (size, state)

/-- A map with named fields. -/
def record (field : Bytes → σ → Reader σ) (state : σ) : Reader σ := do
  match ← untagged with
  | (_, .map size) => fields field size state
  | (_, found) => fail (.unexpected found .map)

/-- The value of a field that must not have come before. -/
def once (name : String) (before : Option α) (value : Reader α) : Reader (Option α) :=
  match before with
  | some _ => fail (.duplicateField name)
  | none => some <$> value

/-- The value of a field that must have come. -/
def need (name : String) : Option α → Reader α
  | some value => pure value
  | none => fail (.missingField name)

end Reader

end Cbor

end GroupSession
