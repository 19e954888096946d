import Moo.Reading
import Moo.Tree.Dump
import Moo.Tree.Same

/-!
# Programs with the text they were read from

A text that holds halves of pairs can be read, and in the words of a program
they stand in string literals only. There, and in comments, they are read as
one character each, like U+FFFD, which no other word holds either. So the
words of a text and their locations are those of the string that shows
U+FFFD for each half. But what a string literal is the string cannot say: it
is what stands in the text at the location of the literal.
-/
namespace Moo

/-- The character that a code point is read as. -/
def CodePoint.shown : CodePoint → Char
  | char c => c
  | high _ | low _ => '\uFFFD'

namespace Text

/-- The string that a text is read as. -/
def shown (text : Text) : String :=
  String.ofList (text.map CodePoint.shown)

/-- What is left of a text, which starts at `loc`, from a location on. -/
def startingAt (target : Loc) : (loc : Loc) → Text → Text
  | _, [] => []
  | loc, c :: rest => if loc = target then c :: rest else startingAt target (loc.next c.shown) rest

/-- The word at a location, by how it is shown. Without a location it is what is shown. -/
def wordAt (text : Text) (word : String) : Option Loc → Text
  | some loc => (startingAt loc .start text).take word.length
  | none => .ofString word

end Text

/-- A program with the text that its literals stand in. -/
structure Sourced where
  text : Text
  program : Program

namespace Sourced

/-- A program as JSON text. -/
def dump (p : Sourced) : String :=
  p.program.dumpBy fun word loc => utf16 (p.text.wordAt word loc)

/-- Whether two programs are the same, with literals compared by a view of them. -/
def sameBy {α : Type} [BEq α] (view : Text → α) (p q : Sourced) : Bool :=
  let literal : LiteralSame := fun word loc word' loc' =>
    view (p.text.wordAt word loc) == view (q.text.wordAt word' loc') && loc == loc'
  p.program.sameBy literal q.program

/-- Whether two programs are the same. Literals are if they have the same code points. -/
def same (p q : Sourced) : Bool :=
  p.sameBy id q

end Sourced

/-- The program that a text is read as. There is none for a text that is refused. -/
def Text.parse (text : Text) : Option Sourced :=
  (Moo.parse text.shown).toOption.map (⟨text, ·⟩)

end Moo
