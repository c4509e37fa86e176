import GroupSession.Cbor.Reader

/-!
# Strings in segments

A byte string or a text has its size in its header, or consists of segments, which are strings of
the same kind up to a break and may again consist of segments.

A text is read in pieces that fit into a buffer of 4096 bytes. A character that a piece ends in the
middle of is kept for the next piece, and what is left over at the end of a segment is malformed,
as is anything in a piece that cannot be the start of a character: each segment is a text of its
own.
-/

namespace GroupSession

namespace Cbor

/-! ## UTF-8 -/

namespace Utf8

/-- Whether a byte continues a character. -/
def continues (b : UInt8) : Bool := 0x80 ≤ b && b ≤ 0xbf

/-- Whether two bytes are a character. -/
def isPair (a b : UInt8) : Bool := 0xc2 ≤ a && a ≤ 0xdf && continues b

/-- Whether three bytes are a character: not one that has a shorter form, and no surrogate. -/
def isTriple (a b c : UInt8) : Bool :=
  0xe0 ≤ a && a ≤ 0xef && (a != 0xe0 || 0xa0 ≤ b) && (a != 0xed || b ≤ 0x9f) &&
    continues b && continues c

/-- Whether four bytes are a character: not one that has a shorter form, and none above the
greatest. -/
def isQuadruple (a b c d : UInt8) : Bool :=
  0xf0 ≤ a && a ≤ 0xf4 && (a != 0xf0 || 0x90 ≤ b) && (a != 0xf4 || b ≤ 0x8f) &&
    continues b && continues c && continues d

/-- What follows the characters at the front: nothing, if the bytes are a text. -/
def unread : Bytes → Bytes
  | [] => []
  | a :: rest =>
    if a < 0x80 then unread rest
    else match rest with
      | [] => [a]
      | b :: rest =>
        if isPair a b then unread rest
        else match rest with
          | [] => [a, b]
          | c :: rest =>
            if isTriple a b c then unread rest
            else match rest with
              | [] => [a, b, c]
              | d :: rest =>
                if isQuadruple a b c d then unread rest else a :: b :: c :: d :: rest

/-- Whether bytes are a text. -/
def isText (bytes : Bytes) : Bool := (unread bytes).isEmpty

end Utf8

namespace Reader

variable {σ : Type}

/-! ## Segments -/

/-- The most bytes that are read in one piece. -/
def pieceSize : Nat := 4096

/-- The most bytes of a text that may wait for the rest of their character. -/
def mostKept : Nat := 3

/-- Reads a string: one segment if its size is known, else all up to the break that belongs to it.
A segment is read with the position of its header and its size. -/
def segments (sizeOf? : Header → Option (Option Nat)) (segment : Nat → Nat → σ → Reader σ)
    (state : σ) : Reader σ :=
  loop (fun (open?, state) ↦ do
    let start ← position
    match ← header, open? with
    | .stop, 0 => done state
    | .stop, open? + 1 => again (open?, state)
    | found, open? =>
      match sizeOf? found with
      | some (some size) => again (open?, ← segment start size state)
      | some none => again (open? + 1, state)
      | none => throw (.malformed start))
    ((0 : Nat), state)

/-- The size of a byte string, if the header is that of one. -/
def bytesSize? : Header → Option (Option Nat)
  | .bytes size => some size
  | _ => none

/-- The size of a text, if the header is that of one. -/
def textSize? : Header → Option (Option Nat)
  | .text size => some size
  | _ => none

/-! ## Contents -/

/-- Reads the bytes of one segment of a text. -/
def textSegment (start size : Nat) : Reader Unit :=
  loop (fun (left, kept) ↦ do
    if left = 0 then
      if kept.isEmpty then done () else throw (.malformed start)
    else
      let count := min (pieceSize - kept.length) left
      let kept := Utf8.unread (kept ++ (← take count))
      if mostKept < kept.length then throw (.malformed start)
      else again (left - count, kept))
    (size, ([] : Bytes))

/-- Reads over a text whose header was looked at before and has just been read. -/
def skipText : Option Nat → Reader Unit
  | some size => do textSegment (← settledPosition size) size
  | none => segments textSize? (fun start size _ ↦ textSegment start size) ()

/-- Reads over a byte string whose header has just been read. -/
def skipBytes : Option Nat → Reader Unit
  | some size => do let _ ← take size
  | none => segments bytesSize? (fun _ size _ ↦ do let _ ← take size) ()

/-- A byte string whose header has just been read. -/
def wholeBytes : Option Nat → Reader Bytes
  | some size => take size
  | none => segments bytesSize? (fun _ size before ↦ do return before ++ (← take size)) []

end Reader

end Cbor

end GroupSession
