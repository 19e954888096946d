import Moo.Text.Quoted

/-!
# Text from bytes

`Utf8.decode` reads the characters that bytes encode in UTF-8, or says where
they encode none. It goes byte by byte and keeps what a character that has
begun still needs. The range of a character's second byte rules out what
could be encoded shorter, surrogates, and what lies behind the last code
point.

`unifyNewlines` turns the line ends `\r\n` and `\r` into `\n`.
-/
namespace Moo

namespace Utf8

inductive Flaw
  | start | continuation | unfinished

/-- Where bytes are no text: the first `length` bytes of a character, from the byte at `position` on. -/
structure DecodeError where
  position : Nat
  length : Nat
  first : UInt8
  flaw : Flaw

def Flaw.text : Flaw → String
  | start => "invalid start byte"
  | continuation => "invalid continuation byte"
  | unfinished => "unexpected end of data"

namespace DecodeError

def message (error : DecodeError) : String :=
  let place :=
    if error.length = 1 then
      "byte 0x" ++ String.ofList (hex 2 error.first.toNat) ++ " in position "
        ++ toString error.position
    else
      "bytes in position " ++ toString error.position ++ "-"
        ++ toString (error.position + error.length - 1)
  "'utf-8' codec can't decode " ++ place ++ ": " ++ error.flaw.text

end DecodeError

/-- A character that has begun. -/
structure Begun where
  position : Nat
  first : UInt8
  /-- How many of its bytes were read. -/
  length : Nat
  /-- How many are still to come. -/
  missing : Nat
  /-- The range of the next one. -/
  low : UInt8
  high : UInt8
  /-- The bits of the code point so far. -/
  bits : Nat

def Begun.error (begun : Begun) (flaw : Flaw) : DecodeError :=
  ⟨begun.position, begun.length, begun.first, flaw⟩

/-- The character that starts with a byte above 127. -/
def begin? (position : Nat) (byte : UInt8) : Option Begun :=
  let begun := fun (missing : Nat) (low high : UInt8) (bits : UInt8) =>
    some ⟨position, byte, 1, missing, low, high, bits.toNat⟩
  if byte < 0xC2 then none
  else if byte < 0xE0 then begun 1 0x80 0xBF (byte - 0xC0)
  else if byte = 0xE0 then begun 2 0xA0 0xBF 0
  else if byte = 0xED then begun 2 0x80 0x9F (byte - 0xE0)
  else if byte < 0xF0 then begun 2 0x80 0xBF (byte - 0xE0)
  else if byte = 0xF0 then begun 3 0x90 0xBF 0
  else if byte < 0xF4 then begun 3 0x80 0xBF (byte - 0xF0)
  else if byte = 0xF4 then begun 3 0x80 0x8F (byte - 0xF0)
  else none

/-- Decodes the bytes from a position on, behind the characters `read`, newest first. -/
def decodeFrom (position : Nat) (read : List Char) :
    Option Begun → List UInt8 → Except DecodeError (List Char)
  | none, [] => .ok read.reverse
  | some begun, [] => .error (begun.error .unfinished)
  | none, byte :: bytes =>
    if byte < 0x80 then decodeFrom (position + 1) (Char.ofUInt8 byte :: read) none bytes
    else
      match begin? position byte with
      | some begun => decodeFrom (position + 1) read (some begun) bytes
      | none => .error ⟨position, 1, byte, .start⟩
  | some begun, byte :: bytes =>
    if byte < begun.low || begun.high < byte then .error (begun.error .continuation)
    else
      let bits := begun.bits * 64 + (byte - 0x80).toNat
      if begun.missing ≤ 1 then decodeFrom (position + 1) (Char.ofNat bits :: read) none bytes
      else
        decodeFrom (position + 1) read
          (some { begun with
            length := begun.length + 1, missing := begun.missing - 1, low := 0x80, high := 0xBF, bits })
          bytes

def decode (bytes : List UInt8) : Except DecodeError (List Char) :=
  decodeFrom 0 [] none bytes

end Utf8

/-- A text whose lines all end with a line feed. -/
def unifyNewlines : List Char → List Char
  | '\r' :: '\n' :: text => '\n' :: unifyNewlines text
  | c :: text => (if c = '\r' then '\n' else c) :: unifyNewlines text
  | [] => []

end Moo
