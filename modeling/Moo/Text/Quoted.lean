import Moo.Text.Printable

/-!
# Quoted names

How a message quotes a name that it did not choose itself: between single
quotes, or between double quotes if the name holds single ones only. A
backslash and the quote at the ends are written behind a backslash, and so
is every character that cannot be shown.
-/
namespace Moo

/-- A number in hexadecimal, with at least `width` digits. -/
def hex (width n : Nat) : List Char :=
  let digits := Nat.toDigits 16 n
  List.replicate (width - digits.length) '0' ++ digits

namespace Quoted

/-- The quote at both ends. -/
def mark (text : List Char) : Char :=
  if text.contains '\'' && !text.contains '"' then '"' else '\''

/-- A character of a quoted text. -/
def encodeChar (mark c : Char) : List Char :=
  if c = mark || c = '\\' then ['\\', c]
  else if c = '\n' then ['\\', 'n']
  else if c = '\r' then ['\\', 'r']
  else if c = '\t' then ['\\', 't']
  else if isPrintable c then [c]
  else if c.toNat < 0x100 then '\\' :: 'x' :: hex 2 c.toNat
  else if c.toNat < 0x10000 then '\\' :: 'u' :: hex 4 c.toNat
  else '\\' :: 'U' :: hex 8 c.toNat

def encode (text : List Char) : List Char :=
  let mark := mark text
  mark :: text.flatMap (encodeChar mark) ++ [mark]

end Quoted

/-- A text in quotes. -/
def quoted (text : String) : String :=
  String.ofList (Quoted.encode text.toList)

end Moo
