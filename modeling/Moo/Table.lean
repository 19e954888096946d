import Moo.Symbol

/-!
# The symbol table

A table is a stack of scopes, and a scope lists its names in the order of
their declarations. A name is looked up from the innermost scope outwards,
so an inner declaration hides an outer one of the same name.
-/
namespace Moo

/-- The names of one scope with their symbols, oldest first. No name occurs twice. -/
abbrev Scope := List (String × Symbol)

namespace Scope

def find? (scope : Scope) (name : String) : Option Symbol :=
  List.lookup name scope

/-- Adds a name, unless the scope has it. -/
def declare? (scope : Scope) (name : String) (symbol : Symbol) : Option Scope :=
  if (scope.find? name).isSome then none else some (scope ++ [(name, symbol)])

theorem find?_eq_some_iff {scope : Scope} (h : (scope.map Prod.fst).Nodup) {name : String}
    {symbol : Symbol} : scope.find? name = some symbol ↔ (name, symbol) ∈ scope := by
  induction scope with
  | nil => simp [Scope.find?]
  | cons entry scope ih =>
    obtain ⟨own, first⟩ := entry
    obtain ⟨hnew, hrest⟩ := List.nodup_cons.1 h
    simp only [Scope.find?] at ih
    by_cases hname : name = own
    · subst hname
      have hno : (name, symbol) ∉ scope := fun hm => hnew (List.mem_map.2 ⟨_, hm, rfl⟩)
      simp [Scope.find?, hno, eq_comm]
    · have hne : (name == own) = false := by simpa using hname
      simp [Scope.find?, List.lookup_cons, hne, ih hrest, hname]

theorem find?_snoc_self {scope : Scope} {name : String} (h : scope.find? name = none)
    (symbol : Symbol) : find? (scope ++ [(name, symbol)]) name = some symbol := by
  rw [find?, List.lookup_append, ← find?, h]
  simp

theorem declare?_eq_some_iff {scope after : Scope} {name : String} {symbol : Symbol} :
    scope.declare? name symbol = some after ↔
      scope.find? name = none ∧ after = scope ++ [(name, symbol)] := by
  unfold Scope.declare?
  cases hf : scope.find? name with
  | none => simp [eq_comm]
  | some old => simp

def text (scope : Scope) : String :=
  "\x7b" ++ ", ".intercalate (scope.map fun (name, symbol) => name ++ ": " ++ symbol.text) ++ "\x7d"

end Scope

/-- The symbol of a member, if the symbol is a struct's and the struct has the member. -/
def Symbol.member? (symbol : Symbol) (name : String) : Option Symbol :=
  match symbol with
  | .structValue _ _ definition => Scope.find? definition.members name
  | _ => none

/-- Why a table refuses an operation. -/
inductive TableError
  | duplicate (name : String)
  | nowhereToDeclare (name : String)
  | nothingToClose

namespace TableError

def message : TableError → String
  | duplicate name => "Symbol already declared in this scope: '" ++ name ++ "'"
  | nowhereToDeclare name => "Cannot declare '" ++ name ++ "' in an empty symbol table"
  | nothingToClose => "Cannot remove a scope from an empty symbol table"

end TableError

/-- The open scopes, innermost first. -/
structure Table where
  scopes : List Scope

namespace Table

/-- A new table has one scope, the global one. -/
def new : Table := ⟨[[]]⟩

def depth (table : Table) : Nat :=
  table.scopes.length

/-- Opens an empty scope inside all others. -/
def push (table : Table) : Table :=
  ⟨[] :: table.scopes⟩

/-- Closes the innermost scope and returns it. -/
def pop (table : Table) : Except TableError (Scope × Table) :=
  match table.scopes with
  | [] => .error .nothingToClose
  | scope :: scopes => .ok (scope, ⟨scopes⟩)

/-- Adds a name to the innermost scope. -/
def declare (table : Table) (name : String) (symbol : Symbol) : Except TableError Table :=
  match table.scopes with
  | [] => .error (.nowhereToDeclare name)
  | scope :: scopes =>
    match scope.declare? name symbol with
    | none => .error (.duplicate name)
    | some scope => .ok ⟨scope :: scopes⟩

/-- The innermost scope; without scopes there are no names. -/
def locals (table : Table) : Scope :=
  table.scopes.headD []

def lookupLocal (table : Table) (name : String) : Option Symbol :=
  table.locals.find? name

def lookup (table : Table) (name : String) : Option Symbol :=
  table.scopes.findSome? (·.find? name)

/-- A heading, then a line per scope, innermost first. -/
def dump (table : Table) : String :=
  "\n".intercalate ("=== Symbol Table ===" :: table.scopes.map Scope.text)

end Table

end Moo
