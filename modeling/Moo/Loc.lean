/-!
# Locations in a text

A location is a line and a column. In a text both count from one, a line
ends with its line feed only, and every other character, a carriage return
included, takes one column.

* `Loc.past_append`: moving past two texts is moving past the first, then
  past the second.
-/
namespace Moo

/-- A line and a column. A tree that was not read from a text may hold any numbers. -/
structure Loc where
  line : Int
  column : Int
deriving DecidableEq

namespace Loc

/-- Where every text starts. -/
def start : Loc := ⟨1, 1⟩

/-- Where the character after `c` stands. -/
def next (loc : Loc) (c : Char) : Loc :=
  if c = '\n' then ⟨loc.line + 1, 1⟩ else ⟨loc.line, loc.column + 1⟩

/-- Where the character after a whole text stands. -/
def past (loc : Loc) (text : List Char) : Loc :=
  text.foldl next loc

@[simp]
theorem past_nil (loc : Loc) : loc.past [] = loc := rfl

@[simp]
theorem past_cons (loc : Loc) (c : Char) (text : List Char) :
    loc.past (c :: text) = (loc.next c).past text := rfl

theorem past_append (loc : Loc) (a b : List Char) : loc.past (a ++ b) = (loc.past a).past b :=
  List.foldl_append

end Loc

end Moo
