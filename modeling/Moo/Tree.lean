import Moo.Loc
import Moo.Symbol

/-!
# Program trees

The tree of a Moo program: declarations, statements, expressions and types.
An identifier carries its location and the symbol that name analysis found
for it.

A tree need not come from a text, so each place that expects a declaration,
a statement, an expression or a type may hold something else: a `Stray`.
Nothing looks inside a stray thing; what it is called is all that analysis
and printing need in order to refuse it. Where the name of a callee or of a
field is expected it is not refused at once, but asked for a name and for a
location as an identifier would be.
-/
namespace Moo

/-- One occurrence of an identifier. -/
structure Ident where
  name : String
  loc : Option Loc
  symbol : Option Symbol

mutual

/-- A written type. -/
inductive TypeExpr
  | primitive (name : String)
  | struct (tag : Ident)
  | stray (thing : Stray)

inductive Expr
  | int (value : Int) (loc : Option Loc)
  /-- A string literal, as written and with its quotes. -/
  | str (text : String) (loc : Option Loc)
  | bool (value : Bool) (loc : Option Loc)
  | name (id : Ident)
  | dot (object : Expr) (field : Ident) (symbol : Option Symbol)
  | assign (target value : Expr)
  | call (callee : Ident) (args : List Expr)
  | unary (op : String) (operand : Expr)
  | binary (op : String) (left right : Expr)
  /-- A field access with something behind the dot that is no identifier. `given` is the symbol
  that analysis has put on that. -/
  | strayDot (object : Expr) (field : Stray) (given symbol : Option Symbol)
  /-- A call of something that is no identifier, with the symbol that analysis has put on that. -/
  | strayCall (callee : Stray) (given : Option Symbol) (args : List Expr)
  | stray (thing : Stray)

inductive Decl
  | var (type : TypeExpr) (id : Ident)
  | formal (type : TypeExpr) (id : Ident)
  | function (returns : TypeExpr) (id : Ident) (formals : List Decl)
      (decls : List Decl) (stmts : List Stmt)
  | struct (tag : Ident) (fields : List Decl)
  | stray (thing : Stray)

inductive Stmt
  | assign (assignment : Expr)
  | increment (target : Expr)
  | decrement (target : Expr)
  | read (target : Expr)
  | write (value : Expr)
  | ifThen (condition : Expr) (decls : List Decl) (stmts : List Stmt)
  | ifElse (condition : Expr) (thenDecls : List Decl) (thenStmts : List Stmt)
      (elseDecls : List Decl) (elseStmts : List Stmt)
  | loop (condition : Expr) (decls : List Decl) (stmts : List Stmt)
  | call (call : Expr)
  | returnNothing
  | returnValue (value : Expr)
  | stray (thing : Stray)

/-- Something that stands where the tree expects another kind of thing. -/
inductive Stray
  /-- An object of a kind that no tree is made of. It equals nothing. -/
  | object (kind : String)
  | text (value : String)
  | flag (value : Bool)
  | nothing
  | type (type : TypeExpr)
  | expr (expr : Expr)
  | decl (decl : Decl)
  | stmt (stmt : Stmt)
  | body (decls : List Decl) (stmts : List Stmt)
  | program (decls : List Decl)

end

/-- A whole program: its declarations at top level. -/
structure Program where
  decls : List Decl

/-- The name that a written type is known by. An identifier that strayed into the place of a
type has one too. -/
def TypeExpr.name? : TypeExpr → Option String
  | primitive name => some name
  | struct tag => some tag.name
  | stray (.expr (.name id)) => some id.name
  | stray _ => none

end Moo
