import Moo.Diagnostic
import Moo.Tree.Attribute

/-!
# The walk of name analysis

Name analysis walks over a tree, rebuilds it with symbols, and carries along
the table, what has happened so far, and a fault if there was one. A fault
stops everything that could be seen of the walk: what is left of the tree is
given back as it was, nothing more is reported or declared, and the scopes
that are open are closed.

Most steps of the walk only look at the table: `Walk.look` is what they all
do, and each of them is its answer to the table it finds. Only `Walk.bind`
and `Walk.inScope` change the table.
-/
namespace Moo

/-- What an observer of name analysis sees, besides its result. -/
inductive Event
  | reported (diagnostic : Diagnostic)
  /-- The declaration of a function has been made; its body follows. -/
  | entered (function : String)
  /-- A scope was opened, and so many are open now. -/
  | opened (depth : Nat)
  /-- A scope was closed, and so many are open now. -/
  | closed (depth : Nat)

structure WalkState where
  table : Table
  /-- Newest first. -/
  events : List Event
  fault : Option Fault

abbrev Walk := StateM WalkState

/-- What a step of the walk has to say besides its result. -/
inductive Remark
  | nothing
  | misuse (id : Ident) (misuse : Misuse)
  | fault (fault : Fault)

/-- What is said of a misuse of something in the place of an identifier. -/
def Stray.remark (thing : Stray) (misuse : Misuse) : Remark :=
  match thing.loc with
  | .ok loc => .misuse ⟨thing.kind, loc, none⟩ misuse
  | .error fault => .fault fault

/-- A name bound in a scope, if there is a symbol for it. What the name stands for afterwards is
what the scope says. -/
def Scope.enter (scope : Scope) (id : Ident) (symbol : Option Symbol) : (Ident × Scope) × Remark :=
  match symbol with
  | none => (({ id with symbol := scope.find? id.name }, scope), .nothing)
  | some symbol =>
    match scope.declare? id.name symbol with
    | some scope => (({ id with symbol := scope.find? id.name }, scope), .nothing)
    | none => (({ id with symbol := scope.find? id.name }, scope), .misuse id .redeclared)

namespace Scope

@[simp]
theorem enter_none (scope : Scope) (id : Ident) :
    scope.enter id none = (({ id with symbol := scope.find? id.name }, scope), .nothing) := rfl

theorem enter_new {scope : Scope} {id : Ident} (h : scope.find? id.name = none) (symbol : Symbol) :
    scope.enter id (some symbol) =
      (({ id with symbol := some symbol }, scope ++ [(id.name, symbol)]), .nothing) := by
  have hadd : scope.declare? id.name symbol = some (scope ++ [(id.name, symbol)]) :=
    declare?_eq_some_iff.2 ⟨h, rfl⟩
  simp only [enter, hadd, find?_snoc_self h]

theorem enter_old {scope : Scope} {id : Ident} {old : Symbol} (h : scope.find? id.name = some old)
    (symbol : Symbol) :
    scope.enter id (some symbol) =
      (({ id with symbol := some old }, scope), .misuse id .redeclared) := by
  simp [enter, declare?, h]

/-- What the name stands for afterwards is what the scope says, and nothing else of it changes. -/
theorem enter_ident (scope : Scope) (id : Ident) (symbol : Option Symbol) :
    (scope.enter id symbol).1.1 =
      { id with symbol := (scope.enter id symbol).1.2.find? id.name } := by
  unfold enter
  split
  · rfl
  · split <;> rfl

end Scope

namespace Walk

variable {α : Type}

/-- An action that is left out after a fault; its result is then `kept`. -/
def unlessFaulted (kept : α) (action : Walk α) : Walk α := fun state =>
  if state.fault.isSome then (kept, state) else action state

def note (event : Event) : Walk Unit :=
  unlessFaulted () fun state => ((), { state with events := event :: state.events })

def report (id : Ident) (misuse : Misuse) : Walk Unit :=
  note (.reported (.about id misuse))

/-- Gives up, for the given reason unless there is one already. -/
def fail (fault : Fault) : Walk Unit :=
  unlessFaulted () fun state => ((), { state with fault := some fault })

def remark : Remark → Walk Unit
  | .nothing => pure ()
  | .misuse id misuse => report id misuse
  | .fault fault => fail fault

/-- A step that looks at the table. After a fault its result is `kept`. -/
def look (kept : α) (answer : Table → α × Remark) : Walk α :=
  unlessFaulted kept do
    let found := answer (← get).table
    remark found.2
    pure found.1

def openScope : Walk Unit := fun state =>
  let table := state.table.push
  ((), { state with table, events := .opened table.depth :: state.events })

def closeScope : Walk Unit := fun state =>
  match state.table.pop with
  | .ok (_, table) => ((), { state with table, events := .closed table.depth :: state.events })
  | .error _ => ((), state)

/-- An action in a scope of its own, which is closed also after a fault inside it. -/
def inScope (action : Walk α) : Walk α := fun state =>
  if state.fault.isSome then action state
  else (do openScope; let result ← action; closeScope; pure result : Walk α) state

/-- Binds a name in the innermost scope. -/
def bind (id : Ident) (symbol : Option Symbol) : Walk Ident :=
  unlessFaulted id do
    match (← get).table.scopes, symbol with
    | scope :: scopes, _ =>
      let entered := scope.enter id symbol
      remark entered.2
      modify fun state => { state with table := ⟨entered.1.2 :: scopes⟩ }
      pure entered.1.1
    | [], none => pure { id with symbol := none }
    | [], some _ => do fail (.table (.nowhereToDeclare id.name)); pure id

/-- Binds a name among the members of a struct. -/
def bindMember (members : Scope) (id : Ident) (symbol : Option Symbol) : Walk (Ident × Scope) :=
  look (id, members) fun _ => members.enter id symbol

/-- What a used name stands for. -/
def resolve (id : Ident) : Walk (Ident × Option Symbol) :=
  look (id, none) fun table =>
    match table.lookup id.name with
    | some symbol => (({ id with symbol := some symbol }, some symbol), .nothing)
    | none => (({ id with symbol := none }, none), .misuse id .undeclared)

/-- What something stands for that is used like a name, which is put on it. -/
def resolveStray (thing : Stray) (given : Option Symbol) : Walk (Option Symbol) :=
  look given fun table =>
    match thing.name with
    | .error fault => (given, .fault fault)
    | .ok name =>
      match table.lookup name with
      | some symbol => (some symbol, .nothing)
      | none => (given, thing.remark .undeclared)

/-- The struct type that a tag names. The tag keeps an older symbol if it names none. -/
def resolveTag (tag : Ident) : Walk (Ident × Option StructType) :=
  look (tag, none) fun table =>
    match table.lookup tag.name with
    | some (.structType definition) =>
      (({ tag with symbol := some (.structType definition) }, some definition), .nothing)
    | _ => ((tag, none), .misuse tag .unknownStruct)

end Walk

end Moo
