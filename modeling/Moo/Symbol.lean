/-!
# Symbols

What a name of a Moo program can stand for: a value of some type, a
function, a struct type, or a variable of a struct type. A struct type
carries the symbols of its members, and a variable of it carries the struct
type, so a field access needs nothing but the symbol in front of the dot.

Two symbols may look alike, so each has an `Origin` that tells which
declaration made it; `Symbol.is` compares origins only.
-/
namespace Moo

/-- The lists of declarations and statements that a node may hold. -/
inductive Part
  | formals | fields | decls | stmts | elseDecls | elseStmts
deriving DecidableEq

/-- The way to a declaration through a program, by which the symbol that it makes is known. -/
structure Origin where
  /-- How many steps the way has, so that most ways are told apart at once. -/
  depth : Nat
  /-- A list and an index in it for each step, innermost first. -/
  steps : List (Part × Nat)
deriving DecidableEq

namespace Origin

/-- A declaration at top level, counted since the first one ever analysed. -/
def top (index : Nat) : Origin :=
  ⟨1, [(.decls, index)]⟩

/-- One step further in. -/
def child (origin : Origin) (part : Part) (index : Nat) : Origin :=
  ⟨origin.depth + 1, (part, index) :: origin.steps⟩

end Origin

mutual

inductive Symbol
  /-- A name that holds a value of a type other than a struct. -/
  | value (origin : Origin) (type : String)
  | function (origin : Origin) (returns : String) (params : List String)
  /-- The tag of a struct type. -/
  | structType (definition : StructType)
  /-- A name that holds a struct. -/
  | structValue (origin : Origin) (type : String) (definition : StructType)

inductive StructType
  | mk (origin : Origin) (name : String) (members : List (String × Symbol))

end

namespace StructType

def origin : StructType → Origin
  | mk origin _ _ => origin

def name : StructType → String
  | mk _ name _ => name

/-- The members in the order of their declarations. -/
def members : StructType → List (String × Symbol)
  | mk _ _ members => members

end StructType

namespace Symbol

/-- The type recorded for a name that was wrongly declared `void`. -/
def errorType : String := "<error>"

def origin : Symbol → Origin
  | value origin _ | function origin _ _ | structValue origin _ _ => origin
  | structType definition => definition.origin

/-- The type of the name; for a function the type that it returns. -/
def typeName : Symbol → String
  | value _ type | structValue _ type _ => type
  | function _ returns _ => returns
  | structType definition => definition.name

/-- How a symbol is shown: a function by its signature, all others by their type. -/
def text : Symbol → String
  | function _ returns params => ",".intercalate params ++ "->" ++ returns
  | symbol => symbol.typeName

/-- Whether two symbols come from the same declaration. -/
def is (a b : Symbol) : Bool :=
  a.origin == b.origin

/-- The symbols that a symbol leads to: the members of a struct type, the struct type of a variable. -/
def parts : Symbol → List Symbol
  | structType definition => definition.members.map Prod.snd
  | structValue _ _ definition => [structType definition]
  | value .. | function .. => []

end Symbol

end Moo
