/-!
# Texts of code points

A text that was never decoded from bytes may hold halves of the pairs in
which UTF-16 writes the characters from U+10000 on, in any order. They are
code points, but no characters, so such a text is no `String`.
-/
namespace Moo

inductive CodePoint
  | char (c : Char)
  /-- The first half of a pair, U+D800 for 0. -/
  | high (offset : Fin 0x400)
  /-- The second half of a pair, U+DC00 for 0. -/
  | low (offset : Fin 0x400)
deriving DecidableEq

abbrev Text := List CodePoint

/-- The unit of UTF-16 that is the first half of a pair. -/
def highUnit (offset : Nat) : UInt16 := .ofNat (0xD800 + offset)

/-- The unit of UTF-16 that is the second half of a pair. -/
def lowUnit (offset : Nat) : UInt16 := .ofNat (0xDC00 + offset)

/-- A code point in UTF-16. A half that stands alone is the unit that it is. -/
def CodePoint.units : CodePoint → List UInt16
  | char c =>
    if c.toNat < 0x10000 then [.ofNat c.toNat]
    else [highUnit ((c.toNat - 0x10000) / 0x400), lowUnit ((c.toNat - 0x10000) % 0x400)]
  | high offset => [highUnit offset]
  | low offset => [lowUnit offset]

def utf16 (text : Text) : List UInt16 :=
  text.flatMap CodePoint.units

/-- The text of the characters of a string. -/
def Text.ofString (text : String) : Text :=
  text.toList.map .char

end Moo
