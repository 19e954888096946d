import Moo.Table

/-!
# Faults

Why name analysis or printing gives up: never something a program that was
read from a text can cause, only a tree with things in the wrong places or a
table with the wrong scopes.
-/
namespace Moo

/-- The places of a tree where one of several kinds of node is expected. -/
inductive Position
  | declaration | statement | expression | type

inductive Fault
  /-- Analysis met a kind of node that its place does not know. -/
  | unknown (position : Position) (kind : String)
  /-- Printing met a kind of node that its place does not know. -/
  | unprintable (position : Position) (kind : String)
  /-- A part was asked for that the kind of node does not have. -/
  | lacks (kind part : String)
  | table (error : TableError)
  /-- Analysis did not end with the global scope alone. -/
  | depth (scopes : Nat)

namespace Fault

def message : Fault → String
  | unknown .declaration kind => "Unknown declaration: " ++ kind
  | unknown .statement kind => "Unknown statement: " ++ kind
  | unknown .expression kind => "Unknown expression: " ++ kind
  | unknown .type kind => "Unknown type node: " ++ kind
  | unprintable .declaration kind => "Cannot unparse declaration " ++ kind
  | unprintable .statement kind => "Cannot unparse statement " ++ kind
  | unprintable .expression kind => "Cannot unparse expression " ++ kind
  | unprintable .type kind => "Cannot unparse type " ++ kind
  | lacks kind part => "'" ++ kind ++ "' object has no attribute '" ++ part ++ "'"
  | table error => error.message
  | depth scopes => "Scope stack left at depth " ++ toString scopes ++ " after name analysis"

end Fault

end Moo
