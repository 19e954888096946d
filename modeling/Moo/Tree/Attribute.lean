import Moo.Fault
import Moo.Tree.Kind

/-!
# Things in the place of an identifier

What analysis and printing ask of whatever stands where a callee or a field
should: its name, its location, and the symbol that was put on it. Most
things cannot answer, and being asked is what fails then.
-/
namespace Moo

namespace Stray

/-- Of the things that are no identifiers only types have a name. -/
def name : Stray → Except Fault String
  | .type (.primitive name) => .ok name
  | .type (.struct tag) => .ok tag.name
  | thing => .error (.lacks thing.kind "name")

/-- A literal has a location of its own, a field access that of its field. -/
def loc : Stray → Except Fault (Option Loc)
  | .expr (.int _ loc) | .expr (.str _ loc) | .expr (.bool _ loc) => .ok loc
  | .expr (.dot _ field _) => .ok field.loc
  | .expr (.strayDot _ field _ _) => field.loc
  | thing => .error (.lacks thing.kind "loc")

theorem name_eq_error {thing : Stray} {fault : Fault} (h : thing.name = .error fault) :
    fault = .lacks thing.kind "name" := by
  unfold name at h
  split at h <;> cases h
  rfl

theorem loc_eq_error {thing : Stray} {fault : Fault} (h : thing.loc = .error fault) :
    ∃ kind, fault = .lacks kind "loc" := by
  fun_induction loc thing with
  | case5 object field _ _ ih => exact ih h
  | case6 thing => exact ⟨thing.kind, (Except.error.inj h).symm⟩
  | _ => cases h

/-- A field access has a place for a symbol. Anything else has one only once a symbol is in it. -/
def hasSymbol (given : Option Symbol) : Stray → Bool
  | .expr (.dot ..) | .expr (.strayDot ..) => true
  | _ => given.isSome

end Stray

end Moo
