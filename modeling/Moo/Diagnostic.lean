import Moo.Text.Lines
import Moo.Tree

/-!
# Diagnostics

What name analysis reports about a program: where, and which misuse of a
name.
-/
namespace Moo

/-- A wrong use of a name, or a wrong declaration. -/
inductive Misuse
  | undeclared
  | redeclared
  /-- A variable, field or formal of type `void`. -/
  | voidVariable
  /-- A struct type whose tag is none. -/
  | unknownStruct
  /-- A dot after something that is no struct. -/
  | notAStruct
  | unknownField
deriving DecidableEq

def Misuse.text : Misuse → String
  | undeclared => "Undeclared identifier"
  | redeclared => "Multiply declared identifier"
  | voidVariable => "Non-function declared void"
  | unknownStruct => "Invalid name of struct type"
  | notAStruct => "Dot-access of a non-struct type"
  | unknownField => "Invalid struct field name"

structure Diagnostic where
  loc : Loc
  misuse : Misuse
deriving DecidableEq

/-- The diagnostic about an identifier; one without a location is reported at 0:0. -/
def Diagnostic.about (id : Ident) (misuse : Misuse) : Diagnostic :=
  ⟨id.loc.getD ⟨0, 0⟩, misuse⟩

/-- Where a message stands and that it is an error. -/
def errorLine (loc : Loc) (text : String) : String :=
  toString loc.line ++ ":" ++ toString loc.column ++ " ***ERROR*** " ++ text

def Diagnostic.text (diagnostic : Diagnostic) : String :=
  errorLine diagnostic.loc diagnostic.misuse.text

/-- Diagnostics as they are echoed, a line each. -/
def Diagnostic.echo (diagnostics : List Diagnostic) : String :=
  unlines (diagnostics.map Diagnostic.text)

end Moo
