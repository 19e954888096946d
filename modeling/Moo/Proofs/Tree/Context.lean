import Moo.Fault
import Moo.Proofs.Tree.WellFormed

/-!
# Programs with a place left open

A context is a tree that lacks one thing: a statement of a function body or a
block, or an expression that stands anywhere in one. `fill` puts a thing in
the place that is left open. There is one context for each way down to the
place, and the contexts of lists go over the list one by one, as analysis
does.

* `Expr.Context`, `Stmt.Context`, `Program.Context`: contexts, and what
  becomes of them with a thing in their place.
* `Program.Context.occurrences_fill`: the occurrences of a filled context are
  those in front of the place, those of the thing, and those behind the place.
-/
namespace Moo

/-! ## Things in a place -/

/-- A thing where an expression belongs. -/
def Stray.asExpr : Stray → Expr
  | .expr e => e
  | thing => .stray thing

/-- A thing where a statement belongs. -/
def Stray.asStmt : Stray → Stmt
  | .stmt s => s
  | thing => .stray thing

theorem Stray.occurrences_asExpr (thing : Stray) :
    thing.asExpr.occurrences = thing.occurrences := by
  cases thing <;> rfl

theorem Stray.occurrences_asStmt (thing : Stray) :
    thing.asStmt.occurrences = thing.occurrences := by
  cases thing <;> rfl

/-! ## Expressions -/

mutual

/-- An expression that lacks one of the expressions in it, or all of itself. -/
inductive Expr.Context
  | here
  | dot (object : Expr.Context) (field : Ident) (symbol : Option Symbol)
  | assignTo (target : Expr.Context) (value : Expr)
  | assignOf (target : Expr) (value : Expr.Context)
  | call (callee : Ident) (args : Expr.ContextAll)
  | unary (op : String) (operand : Expr.Context)
  | binaryLeft (op : String) (left : Expr.Context) (right : Expr)
  | binaryRight (op : String) (left : Expr) (right : Expr.Context)

inductive Expr.ContextAll
  | first (expr : Expr.Context) (exprs : List Expr)
  | later (expr : Expr) (exprs : Expr.ContextAll)

end

mutual

@[simp]
def Expr.Context.fill (thing : Stray) : Expr.Context → Expr
  | .here => thing.asExpr
  | .dot object field symbol => .dot (object.fill thing) field symbol
  | .assignTo target value => .assign (target.fill thing) value
  | .assignOf target value => .assign target (value.fill thing)
  | .call callee args => .call callee (args.fill thing)
  | .unary op operand => .unary op (operand.fill thing)
  | .binaryLeft op left right => .binary op (left.fill thing) right
  | .binaryRight op left right => .binary op left (right.fill thing)

@[simp]
def Expr.ContextAll.fill (thing : Stray) : Expr.ContextAll → List Expr
  | .first expr exprs => expr.fill thing :: exprs
  | .later expr exprs => expr :: exprs.fill thing

end

mutual

/-- The occurrences in front of the place. -/
@[simp]
def Expr.Context.before : Expr.Context → List Occurrence
  | .here => []
  | .dot object field symbol => .dot field symbol :: object.before
  | .assignTo target _ => target.before
  | .assignOf target value => target.occurrences ++ value.before
  | .call callee args => .ident callee :: args.before
  | .unary _ operand => operand.before
  | .binaryLeft _ left _ => left.before
  | .binaryRight _ left right => left.occurrences ++ right.before

@[simp]
def Expr.ContextAll.before : Expr.ContextAll → List Occurrence
  | .first expr _ => expr.before
  | .later expr exprs => expr.occurrences ++ exprs.before

end

mutual

/-- The occurrences behind the place. -/
@[simp]
def Expr.Context.after : Expr.Context → List Occurrence
  | .here => []
  | .dot object field _ => object.after ++ [.ident field]
  | .assignTo target value => target.after ++ value.occurrences
  | .assignOf _ value => value.after
  | .call _ args => args.after
  | .unary _ operand => operand.after
  | .binaryLeft _ left right => left.after ++ right.occurrences
  | .binaryRight _ _ right => right.after

@[simp]
def Expr.ContextAll.after : Expr.ContextAll → List Occurrence
  | .first expr exprs => expr.after ++ Expr.occurrencesAll exprs
  | .later _ exprs => exprs.after

end

/-! ## Statements -/

mutual

/-- A statement that lacks an expression or statement in it, or all of itself. -/
inductive Stmt.Context
  | here
  | assign (assignment : Expr.Context)
  | increment (target : Expr.Context)
  | decrement (target : Expr.Context)
  | read (target : Expr.Context)
  | write (value : Expr.Context)
  | ifCondition (condition : Expr.Context) (decls : List Decl) (stmts : List Stmt)
  | ifThen (condition : Expr) (decls : List Decl) (stmts : Stmt.ContextAll)
  | elseCondition (condition : Expr.Context) (thenDecls : List Decl) (thenStmts : List Stmt)
      (elseDecls : List Decl) (elseStmts : List Stmt)
  | elseThen (condition : Expr) (thenDecls : List Decl) (thenStmts : Stmt.ContextAll)
      (elseDecls : List Decl) (elseStmts : List Stmt)
  | elseElse (condition : Expr) (thenDecls : List Decl) (thenStmts : List Stmt)
      (elseDecls : List Decl) (elseStmts : Stmt.ContextAll)
  | loopCondition (condition : Expr.Context) (decls : List Decl) (stmts : List Stmt)
  | loop (condition : Expr) (decls : List Decl) (stmts : Stmt.ContextAll)
  | call (call : Expr.Context)
  | returnValue (value : Expr.Context)

inductive Stmt.ContextAll
  | first (stmt : Stmt.Context) (stmts : List Stmt)
  | later (stmt : Stmt) (stmts : Stmt.ContextAll)

end

mutual

@[simp]
def Stmt.Context.fill (thing : Stray) : Stmt.Context → Stmt
  | .here => thing.asStmt
  | .assign assignment => .assign (assignment.fill thing)
  | .increment target => .increment (target.fill thing)
  | .decrement target => .decrement (target.fill thing)
  | .read target => .read (target.fill thing)
  | .write value => .write (value.fill thing)
  | .ifCondition condition decls stmts => .ifThen (condition.fill thing) decls stmts
  | .ifThen condition decls stmts => .ifThen condition decls (stmts.fill thing)
  | .elseCondition condition thenDecls thenStmts elseDecls elseStmts =>
    .ifElse (condition.fill thing) thenDecls thenStmts elseDecls elseStmts
  | .elseThen condition thenDecls thenStmts elseDecls elseStmts =>
    .ifElse condition thenDecls (thenStmts.fill thing) elseDecls elseStmts
  | .elseElse condition thenDecls thenStmts elseDecls elseStmts =>
    .ifElse condition thenDecls thenStmts elseDecls (elseStmts.fill thing)
  | .loopCondition condition decls stmts => .loop (condition.fill thing) decls stmts
  | .loop condition decls stmts => .loop condition decls (stmts.fill thing)
  | .call expr => .call (expr.fill thing)
  | .returnValue value => .returnValue (value.fill thing)

@[simp]
def Stmt.ContextAll.fill (thing : Stray) : Stmt.ContextAll → List Stmt
  | .first stmt stmts => stmt.fill thing :: stmts
  | .later stmt stmts => stmt :: stmts.fill thing

end

mutual

/-- What belongs in the place. -/
@[simp]
def Stmt.Context.position : Stmt.Context → Position
  | .here => .statement
  | .ifThen _ _ stmts | .elseThen _ _ stmts _ _ | .elseElse _ _ _ _ stmts | .loop _ _ stmts =>
    stmts.position
  | .assign _ | .increment _ | .decrement _ | .read _ | .write _ | .ifCondition ..
  | .elseCondition .. | .loopCondition .. | .call _ | .returnValue _ => .expression

@[simp]
def Stmt.ContextAll.position : Stmt.ContextAll → Position
  | .first stmt _ => stmt.position
  | .later _ stmts => stmts.position

end

mutual

/-- The occurrences in front of the place. -/
@[simp]
def Stmt.Context.before : Stmt.Context → List Occurrence
  | .here => []
  | .assign expr | .increment expr | .decrement expr | .read expr | .write expr | .call expr
  | .returnValue expr => expr.before
  | .ifCondition condition _ _ | .elseCondition condition _ _ _ _
  | .loopCondition condition _ _ => condition.before
  | .ifThen condition decls stmts | .elseThen condition decls stmts _ _
  | .loop condition decls stmts =>
    condition.occurrences ++ Decl.occurrencesAll decls ++ stmts.before
  | .elseElse condition thenDecls thenStmts elseDecls elseStmts =>
    condition.occurrences ++ Decl.occurrencesAll thenDecls ++ Stmt.occurrencesAll thenStmts
      ++ Decl.occurrencesAll elseDecls ++ elseStmts.before

@[simp]
def Stmt.ContextAll.before : Stmt.ContextAll → List Occurrence
  | .first stmt _ => stmt.before
  | .later stmt stmts => stmt.occurrences ++ stmts.before

end

mutual

/-- The occurrences behind the place. -/
@[simp]
def Stmt.Context.after : Stmt.Context → List Occurrence
  | .here => []
  | .assign expr | .increment expr | .decrement expr | .read expr | .write expr | .call expr
  | .returnValue expr => expr.after
  | .ifCondition condition decls stmts | .loopCondition condition decls stmts =>
    condition.after ++ Decl.occurrencesAll decls ++ Stmt.occurrencesAll stmts
  | .elseCondition condition thenDecls thenStmts elseDecls elseStmts =>
    condition.after ++ Decl.occurrencesAll thenDecls ++ Stmt.occurrencesAll thenStmts
      ++ Decl.occurrencesAll elseDecls ++ Stmt.occurrencesAll elseStmts
  | .elseThen _ _ stmts elseDecls elseStmts =>
    stmts.after ++ Decl.occurrencesAll elseDecls ++ Stmt.occurrencesAll elseStmts
  | .ifThen _ _ stmts | .elseElse _ _ _ _ stmts | .loop _ _ stmts => stmts.after

@[simp]
def Stmt.ContextAll.after : Stmt.ContextAll → List Occurrence
  | .first stmt stmts => stmt.after ++ Stmt.occurrencesAll stmts
  | .later _ stmts => stmts.after

end

/-! ## Programs -/

/-- A program that lacks a thing in the body of one of its functions. -/
structure Program.Context where
  front : List Decl
  returns : TypeExpr
  id : Ident
  formals : List Decl
  decls : List Decl
  stmts : Stmt.ContextAll
  back : List Decl

namespace Program.Context

variable (context : Program.Context)

/-- The function with a thing in its body. -/
def function (thing : Stray) : Decl :=
  .function context.returns context.id context.formals context.decls (context.stmts.fill thing)

def fill (thing : Stray) : Program :=
  ⟨context.front ++ context.function thing :: context.back⟩

def position : Position :=
  context.stmts.position

/-- The occurrences of the function in front of the place. -/
def functionBefore : List Occurrence :=
  context.returns.occurrences ++ .ident context.id :: Decl.occurrencesAll context.formals
    ++ Decl.occurrencesAll context.decls ++ context.stmts.before

/-- The occurrences in front of the place. -/
def before : List Occurrence :=
  Decl.occurrencesAll context.front ++ context.functionBefore

/-- The occurrences behind the place. -/
def after : List Occurrence :=
  context.stmts.after ++ Decl.occurrencesAll context.back

end Program.Context

/-! ## The occurrences of a filled context -/

section Occurrences

variable (thing : Stray)

mutual

theorem Expr.Context.occurrences_fill : ∀ context : Expr.Context,
    (context.fill thing).occurrences = context.before ++ thing.occurrences ++ context.after
  | .here => by simp [thing.occurrences_asExpr]
  | .dot object _ _ => by simp [Expr.occurrences, object.occurrences_fill]
  | .assignTo expr _ | .assignOf _ expr | .unary _ expr | .binaryLeft _ expr _
  | .binaryRight _ _ expr => by
    simp [Expr.occurrences, expr.occurrences_fill]
  | .call _ args => by simp [Expr.occurrences, args.occurrences_fill]

theorem Expr.ContextAll.occurrences_fill : ∀ context : Expr.ContextAll,
    Expr.occurrencesAll (context.fill thing) =
      context.before ++ thing.occurrences ++ context.after
  | .first expr _ => by simp [Expr.occurrencesAll, expr.occurrences_fill]
  | .later _ exprs => by simp [Expr.occurrencesAll, exprs.occurrences_fill]

end

mutual

theorem Stmt.Context.occurrences_fill : ∀ context : Stmt.Context,
    (context.fill thing).occurrences = context.before ++ thing.occurrences ++ context.after
  | .here => by simp [thing.occurrences_asStmt]
  | .assign expr | .increment expr | .decrement expr | .read expr | .write expr | .call expr
  | .returnValue expr | .ifCondition expr _ _ | .elseCondition expr _ _ _ _
  | .loopCondition expr _ _ => by
    simp [Stmt.occurrences, expr.occurrences_fill]
  | .ifThen _ _ stmts | .elseThen _ _ stmts _ _ | .elseElse _ _ _ _ stmts | .loop _ _ stmts => by
    simp [Stmt.occurrences, stmts.occurrences_fill]

theorem Stmt.ContextAll.occurrences_fill : ∀ context : Stmt.ContextAll,
    Stmt.occurrencesAll (context.fill thing) =
      context.before ++ thing.occurrences ++ context.after
  | .first stmt _ => by simp [Stmt.occurrencesAll, stmt.occurrences_fill]
  | .later _ stmts => by simp [Stmt.occurrencesAll, stmts.occurrences_fill]

end

/-- The occurrences in front of the place, those of the thing in it, and those behind. -/
theorem Program.Context.occurrences_fill (context : Program.Context) :
    (context.fill thing).occurrences = context.before ++ thing.occurrences ++ context.after := by
  simp [fill, function, before, functionBefore, after, Program.occurrences,
    Decl.occurrencesAll_append, Decl.occurrencesAll, Decl.occurrences,
    context.stmts.occurrences_fill]

end Occurrences

end Moo
