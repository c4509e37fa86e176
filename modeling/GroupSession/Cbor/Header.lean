import GroupSession.Bytes
import GroupSession.Decimal

/-!
# Headers of CBOR items

An item begins with a header: one byte with a major type in its three high bits, and an argument
that stands in the other five bits or in the bytes that follow. The argument is the item's value,
its size, or the number of items in it. `Header` is what a header says, whatever the form of its
argument; `head` writes one in its shortest form.
-/

namespace GroupSession

namespace Cbor

/-- What an item is, as its first bytes say. -/
inductive Header
  /-- The number itself. -/
  | positive (n : Nat)
  /-- The number `-1 - n`. -/
  | negative (n : Nat)
  /-- A byte string of some size, or in segments up to a break. -/
  | bytes (size : Option Nat)
  /-- A text of some size in bytes, or in segments up to a break. -/
  | text (size : Option Nat)
  /-- So many items, or all up to a break. -/
  | array (size : Option Nat)
  /-- So many pairs of a key and a value, or all up to a break. -/
  | map (size : Option Nat)
  /-- A mark on the item that follows. -/
  | tag (n : Nat)
  /-- One of the values that have only a number. -/
  | simple (n : Nat)
  /-- A floating point number, brought to 64 bits. -/
  | float (bits : UInt64)
  /-- A break: the end of something whose size was not said. -/
  | stop
deriving DecidableEq, Repr

/-! ## Writing -/

/-- How many bytes follow the first one for an argument in its shortest form. -/
def argumentSize (n : Nat) : Nat :=
  if n < 24 then 0
  else if n < 2 ^ 8 then 1
  else if n < 2 ^ 16 then 2
  else if n < 2 ^ 32 then 4
  else 8

/-- The low five bits of the first byte for an argument in its shortest form. -/
def minor (n : Nat) : Nat :=
  if n < 24 then n
  else if n < 2 ^ 8 then 24
  else if n < 2 ^ 16 then 25
  else if n < 2 ^ 32 then 26
  else 27

/-- A header with its argument in the shortest form. -/
def head (major n : Nat) : Bytes :=
  UInt8.ofNat (32 * major + minor n) :: Bytes.ofNatBE (argumentSize n) n

/-- A number. -/
def writeUnsigned (n : Nat) : Bytes := head 0 n

/-- A byte string. -/
def writeBytes (bytes : Bytes) : Bytes := head 2 bytes.length ++ bytes

/-- A text of ASCII characters. -/
def writeText (text : String) : Bytes := head 3 (Bytes.ofAscii text).length ++ Bytes.ofAscii text

/-- The header of an array of so many items. -/
def arrayHead (size : Nat) : Bytes := head 4 size

/-- The header of a map of so many pairs. -/
def mapHead (size : Nat) : Bytes := head 5 size

/-- A truth value. -/
def writeBool (b : Bool) : Bytes := head 7 (if b then 21 else 20)

/-! ## Describing -/

/-- What a header is, for someone who wanted something else. A negative number is shown as the
number of 64 bits, counting from `-2 ^ 63` on, that has all bits of the argument inverted. -/
def Header.describe : Header → String
  | positive n => "integer `" ++ n.repr ++ "`"
  | negative n => "integer `" ++ toString (Int.bmod (-1 - n) (2 ^ 64)) ++ "`"
  | bytes _ => "bytes"
  | text _ => "string"
  | array _ => "sequence"
  | map _ => "map"
  | tag _ => "tag"
  | simple 20 => "boolean `false`"
  | simple 21 => "boolean `true`"
  | simple 22 => "null"
  | simple 23 => "undefined"
  | simple _ => "simple"
  | float bits => "floating point `" ++ Decimal.text bits ++ "`"
  | stop => "break"

end Cbor

end GroupSession
