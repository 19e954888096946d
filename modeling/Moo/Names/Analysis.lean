import Moo.Names.Walk
import Moo.Tree.Kind

/-!
# Name analysis

Binds every identifier of a program to its declaration.

* A declaration is visible from its own place to the end of its scope, and
  in the blocks inside it. A function is visible in its own body.
* The formals and the body of a function are one scope; every other block is
  one of its own. The condition in front of a block belongs outside.
* The fields of a struct are a list of their own. Their types are looked up
  in front of the struct.
* A name in front of the first dot is looked up like any other; each name
  behind a dot is looked up among the members of what stands in front of it.

A misuse is reported and the walk goes on, as if a name without a meaning
were not there: a variable of an unknown struct type is not declared, while
a variable of type `void` is.
-/
namespace Moo

/-! ## Expressions -/

/-- What is said of a wrong dot behind an expression that ends in a name, or in something in the
place of one: it is said of that. -/
def Expr.blame? : Expr → Option Remark
  | .name id | .dot _ id _ => some (.misuse id .notAStruct)
  | .strayDot _ thing _ _ => some (thing.remark .notAStruct)
  | _ => none

/-- A step behind a dot: the field and the symbol of the whole access, where it has one, and what
the access denotes. `old` is the symbol that the access had before. -/
def narrow (object : Expr) (base : Option Symbol) (field : Ident) (old : Option Symbol) :
    Walk (Ident × Option Symbol × Option Symbol) :=
  Walk.look (field, old, none) fun _ =>
    match base with
    | some (.structValue _ _ definition) =>
      match Scope.find? definition.members field.name with
      | some symbol => (({ field with symbol := some symbol }, some symbol, some symbol), .nothing)
      | none => ((field, old, none), .misuse field .unknownField)
    | _ => ((field, old, none), object.blame?.getD (.misuse field .notAStruct))

/-- A step behind a dot to something that is no identifier: the symbol that is put on it, the one of
the whole access, and what the access denotes. -/
def narrowStray (object : Expr) (base : Option Symbol) (field : Stray) (given old : Option Symbol) :
    Walk (Option Symbol × Option Symbol × Option Symbol) :=
  Walk.look (given, old, none) fun _ =>
    match base with
    | some (.structValue _ _ definition) =>
      match field.name with
      | .error fault => ((given, old, none), .fault fault)
      | .ok name =>
        match Scope.find? definition.members name with
        | some symbol => ((some symbol, some symbol, some symbol), .nothing)
        | none => ((given, old, none), field.remark .unknownField)
    | _ => ((given, old, none), object.blame?.getD (field.remark .notAStruct))

mutual

/-- Resolves every name in an expression. The second result is what the expression denotes, if it is a
name or a field access. -/
def Expr.resolve : Expr → Walk (Expr × Option Symbol)
  | .name id => do
    let id ← Walk.resolve id
    pure (.name id.1, id.2)
  | .dot object field symbol => do
    let object ← object.resolve
    let step ← narrow object.1 object.2 field symbol
    pure (.dot object.1 step.1 step.2.1, step.2.2)
  | .assign target value => do
    let target ← target.resolve
    let value ← value.resolve
    pure (.assign target.1 value.1, none)
  | .call callee args => do
    let callee ← Walk.resolve callee
    let args ← Expr.resolveAll args
    pure (.call callee.1 args, none)
  | .unary op operand => do
    let operand ← operand.resolve
    pure (.unary op operand.1, none)
  | .binary op left right => do
    let left ← left.resolve
    let right ← right.resolve
    pure (.binary op left.1 right.1, none)
  | .strayDot object field given symbol => do
    let object ← object.resolve
    let step ← narrowStray object.1 object.2 field given symbol
    pure (.strayDot object.1 field step.1 step.2.1, step.2.2)
  | .strayCall callee given args => do
    let given ← Walk.resolveStray callee given
    let args ← Expr.resolveAll args
    pure (.strayCall callee given args, none)
  | .int value loc => pure (.int value loc, none)
  | .str text loc => pure (.str text loc, none)
  | .bool value loc => pure (.bool value loc, none)
  | .stray thing => do
    Walk.fail (.unknown .expression thing.kind)
    pure (.stray thing, none)

def Expr.resolveAll : List Expr → Walk (List Expr)
  | [] => pure []
  | expr :: exprs => do
    let expr ← expr.resolve
    let exprs ← Expr.resolveAll exprs
    pure (expr.1 :: exprs)

end

/-! ## Variables -/

/-- The symbol of a variable of a written type, unless the type is no type. -/
def TypeExpr.resolve (origin : Origin) (id : Ident) : TypeExpr → Walk (TypeExpr × Option Symbol)
  | .primitive name =>
    if name = "void" then do
      Walk.report id .voidVariable
      pure (.primitive name, some (.value origin Symbol.errorType))
    else pure (.primitive name, some (.value origin name))
  | .struct tag => do
    let tag ← Walk.resolveTag tag
    pure (.struct tag.1, tag.2.map fun definition => .structValue origin definition.name definition)
  | .stray thing => do
    Walk.fail (.unknown .type thing.kind)
    pure (.stray thing, none)

/-- Declares a variable or formal in the innermost scope. -/
def Decl.analyzeVariable (origin : Origin) : Decl → Walk Decl
  | .var type id => do
    let type ← type.resolve origin id
    let id ← Walk.bind id type.2
    pure (.var type.1 id)
  | .formal type id => do
    let type ← type.resolve origin id
    let id ← Walk.bind id type.2
    pure (.formal type.1 id)
  | decl => do
    Walk.fail (.lacks decl.kind "type")
    pure decl

/-- Declares the variables of a list, which is a part of the node at `path`, from an index on. -/
def Decl.analyzeVariables (path : Origin) (part : Part) (index : Nat) :
    List Decl → Walk (List Decl)
  | [] => pure []
  | decl :: decls => do
    let decl ← decl.analyzeVariable (path.child part index)
    let decls ← Decl.analyzeVariables path part (index + 1) decls
    pure (decl :: decls)

/-- Declares a field of a struct among its members. -/
def Decl.analyzeField (origin : Origin) (members : Scope) : Decl → Walk (Decl × Scope)
  | .var type id => do
    let type ← type.resolve origin id
    let id ← Walk.bindMember members id type.2
    pure (.var type.1 id.1, id.2)
  | .formal type id => do
    let type ← type.resolve origin id
    let id ← Walk.bindMember members id type.2
    pure (.formal type.1 id.1, id.2)
  | decl => do
    Walk.fail (.lacks decl.kind "type")
    pure (decl, members)

/-- Declares the fields of the struct at `path`, from an index on. -/
def Decl.analyzeFields (path : Origin) (index : Nat) (members : Scope) :
    List Decl → Walk (List Decl × Scope)
  | [] => pure ([], members)
  | decl :: decls => do
    let decl ← decl.analyzeField (path.child .fields index) members
    let decls ← Decl.analyzeFields path (index + 1) decl.2 decls
    pure (decl.1 :: decls.1, decls.2)

/-! ## Statements -/

mutual

def Stmt.analyze (path : Origin) : Stmt → Walk Stmt
  | .assign assignment => do
    let assignment ← assignment.resolve
    pure (.assign assignment.1)
  | .increment target => do
    let target ← target.resolve
    pure (.increment target.1)
  | .decrement target => do
    let target ← target.resolve
    pure (.decrement target.1)
  | .read target => do
    let target ← target.resolve
    pure (.read target.1)
  | .write value => do
    let value ← value.resolve
    pure (.write value.1)
  | .ifThen condition decls stmts => do
    let condition ← condition.resolve
    Walk.inScope do
      let decls ← Decl.analyzeVariables path .decls 0 decls
      let stmts ← Stmt.analyzeAll path .stmts 0 stmts
      pure (.ifThen condition.1 decls stmts)
  | .ifElse condition thenDecls thenStmts elseDecls elseStmts => do
    let condition ← condition.resolve
    let thenBlock ← Walk.inScope do
      let decls ← Decl.analyzeVariables path .decls 0 thenDecls
      let stmts ← Stmt.analyzeAll path .stmts 0 thenStmts
      pure (decls, stmts)
    Walk.inScope do
      let decls ← Decl.analyzeVariables path .elseDecls 0 elseDecls
      let stmts ← Stmt.analyzeAll path .elseStmts 0 elseStmts
      pure (.ifElse condition.1 thenBlock.1 thenBlock.2 decls stmts)
  | .loop condition decls stmts => do
    let condition ← condition.resolve
    Walk.inScope do
      let decls ← Decl.analyzeVariables path .decls 0 decls
      let stmts ← Stmt.analyzeAll path .stmts 0 stmts
      pure (.loop condition.1 decls stmts)
  | .call expr => do
    let expr ← expr.resolve
    pure (.call expr.1)
  | .returnNothing => pure .returnNothing
  | .returnValue value => do
    let value ← value.resolve
    pure (.returnValue value.1)
  | .stray thing => do
    Walk.fail (.unknown .statement thing.kind)
    pure (.stray thing)

def Stmt.analyzeAll (path : Origin) (part : Part) (index : Nat) : List Stmt → Walk (List Stmt)
  | [] => pure []
  | stmt :: stmts => do
    let stmt ← stmt.analyze (path.child part index)
    let stmts ← Stmt.analyzeAll path part (index + 1) stmts
    pure (stmt :: stmts)

end

/-! ## Declarations at top level -/

/-- The type name of a formal. -/
def Decl.formalType : Decl → Except Fault String
  | .var type _ | .formal type _ =>
    match type.name? with
    | some name => .ok name
    | none => .error (.lacks type.kind "name")
  | decl => .error (.lacks decl.kind "type")

/-- The symbol of a function. -/
def functionSymbol (origin : Origin) (returns : TypeExpr) (formals : List Decl) :
    Except Fault Symbol := do
  let params ← formals.mapM Decl.formalType
  match returns.name? with
  | some name => .ok (.function origin name params)
  | none => .error (.lacks returns.kind "name")

/-- Looks up the tag of a function's type, if that is a struct type. -/
def TypeExpr.resolveReturn : TypeExpr → Walk TypeExpr
  | .struct tag => do
    let tag ← Walk.resolveTag tag
    pure (.struct tag.1)
  | type => pure type

/-- Declares a function. -/
def bindFunction (origin : Origin) (id : Ident) (returns : TypeExpr) (formals : List Decl) :
    Walk Ident :=
  match functionSymbol origin returns formals with
  | .ok symbol => do
    let id ← Walk.bind id (some symbol)
    Walk.note (.entered id.name)
    pure id
  | .error fault => do
    Walk.fail fault
    pure id

def Decl.analyze (origin : Origin) : Decl → Walk Decl
  | .var type id => Decl.analyzeVariable origin (.var type id)
  | .function returns id formals decls stmts => do
    let returns ← returns.resolveReturn
    let id ← bindFunction origin id returns formals
    Walk.inScope do
      let formals ← Decl.analyzeVariables origin .formals 0 formals
      let decls ← Decl.analyzeVariables origin .decls 0 decls
      let stmts ← Stmt.analyzeAll origin .stmts 0 stmts
      pure (.function returns id formals decls stmts)
  | .struct tag fields => do
    let fields ← Decl.analyzeFields origin 0 [] fields
    let tag ← Walk.bind tag (some (.structType (.mk origin tag.name fields.2)))
    pure (.struct tag fields.1)
  | .formal type id => do
    Walk.fail (.unknown .declaration (Decl.formal type id).kind)
    pure (.formal type id)
  | .stray thing => do
    Walk.fail (.unknown .declaration thing.kind)
    pure (.stray thing)

/-- Analyses the declarations of a program. `clock` counts those that were analysed before. -/
def Decl.analyzeAll (clock : Nat) : List Decl → Walk (List Decl)
  | [] => pure []
  | decl :: decls => do
    let decl ← decl.analyze (.top clock)
    let decls ← Decl.analyzeAll (clock + 1) decls
    pure (decl :: decls)

/-- What name analysis of a program comes to. -/
structure Analysis where
  /-- The program with the symbols found, also those found in front of a fault. -/
  program : Program
  table : Table
  /-- Oldest first. -/
  events : List Event
  fault : Option Fault

namespace Analysis

def diagnostics (analysis : Analysis) : List Diagnostic :=
  analysis.events.filterMap fun
    | .reported diagnostic => some diagnostic
    | _ => none

end Analysis

/-- Name analysis that starts with a table. It fails also if the global scope is not the only one
in the end. -/
def Program.analyzeWith (table : Table) (clock : Nat) (program : Program) : Analysis :=
  let (decls, state) := Decl.analyzeAll clock program.decls ⟨table, [], none⟩
  let fault :=
    if state.fault.isNone && state.table.depth ≠ 1 then some (.depth state.table.depth)
    else state.fault
  ⟨⟨decls⟩, state.table, state.events.reverse, fault⟩

/-- Name analysis of a program on its own. -/
def Program.analyze (program : Program) : Analysis :=
  program.analyzeWith .new 0

end Moo
