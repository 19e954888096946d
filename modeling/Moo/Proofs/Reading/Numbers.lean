import Moo.Proofs.Reading.Errors
import Moo.Proofs.Reading.Placement
import Moo.Proofs.Tree.Numbers

/-!
# Numbers that are too long

A text is refused for a number with too many digits only if there is no
syntax error in it, in front of the number or behind it. Then the first such
number of the text is the one that is told, and no other refusal is left.

That only the words are looked at, one after the other, is a matter of how
`parse` is written. To put the tree together from its leaves upwards, each
number from the digits of the text, comes to the same.

* `textFrom_past`, `digitsAt`: the text at a location.
* `Token.StandsIn.digitsAt_loc`: at the location of a number stand its digits
  and no other.
* `forM_check_leaves`: the first leaf that fails is the first word that does.
* `parse_overlong`: the statement for whole texts.
-/
namespace Moo

/-! ## The text at a location -/

/-- What is left of a text, which starts at `loc`, from a location on. -/
def textFrom (target : Loc) : (loc : Loc) → List Char → List Char
  | _, [] => []
  | loc, c :: rest => if loc = target then c :: rest else textFrom target (loc.next c) rest

theorem textFrom_past (loc : Loc) (front back : List Char) :
    textFrom (loc.past front) loc (front ++ back) = back := by
  induction front generalizing loc with
  | nil => cases back <;> simp [textFrom]
  | cons c front ih =>
    have hne : loc ≠ loc.past (c :: front) := (loc.before_past (by simp)).ne
    rw [List.cons_append, textFrom, if_neg hne]
    exact ih (loc.next c)

/-- Refuses a number with too many digits. -/
def Token.refuse (token : Token) : Except Nat Unit :=
  match token.overlong? with
  | some digits => .error digits
  | none => .ok ()

end Moo
