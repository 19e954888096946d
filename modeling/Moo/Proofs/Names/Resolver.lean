import Moo.Diagnostic
import Moo.Tree.Occurrence

/-!
# Name resolution by environments

What every name of a program stands for, said without a symbol table. An
environment is a list of scopes, innermost first, that is handed down by
value: what a block declares is not in the environment of anything outside it,
because nothing hands it back.

* A function enters the scope around it before its formals and its body, which
  extend one new scope together.
* Every block of a statement has a scope of its own; the condition in front is
  looked up outside.
* The fields of a struct are a list of their own, with their types looked up
  outside. The tag enters the scope after them.
* A name is the entry of the innermost scope that has it. A name behind a dot
  is looked up among the members of what stands in front.
-/
namespace Moo

/-- What a name stands for: its declaration, and the members if it is the tag of a struct type
or a variable of one. -/
inductive Meaning
  | plain (decl : Origin)
  | tag (decl : Origin) (members : List (String × Meaning))
  | record (decl : Origin) (members : List (String × Meaning))

def Meaning.decl : Meaning → Origin
  | plain decl | tag decl _ | record decl _ => decl

/-- The names of one scope, oldest first. -/
abbrev Names := List (String × Meaning)

/-- The scopes around a place, innermost first. -/
abbrev Env := List Names

def Env.find? (env : Env) (name : String) : Option Meaning :=
  env.findSome? (List.lookup name)

/-- An identifier or a field access with the declaration that it stands for. -/
structure Use where
  name : String
  loc : Option Loc
  decl : Option Origin
deriving DecidableEq

def Ident.asUse (id : Ident) (meaning : Option Meaning) : Use :=
  ⟨id.name, id.loc, meaning.map Meaning.decl⟩

/-- What resolution finds in a part of a program: its errors in the order of their discovery, and its
uses in the order in which they are written. -/
structure Resolution where
  errors : List Diagnostic
  uses : List Use

namespace Resolution

def none : Resolution := ⟨[], []⟩

/-- First the one part, then the other. -/
def andThen (a b : Resolution) : Resolution :=
  ⟨a.errors ++ b.errors, a.uses ++ b.uses⟩

end Resolution

/-! ## Expressions -/

/-- The identifier at the right end of a name or a field access. -/
def Expr.lastIdent? : Expr → Option Ident
  | .name id => some id
  | .dot _ field _ => some field
  | _ => none

/-- The identifier that a wrong dot is reported at: the last one in front of it, or the field if
there is none. -/
def dotAnchor (object : Expr) (field : Ident) : Ident :=
  match object with
  | .name id => id
  | .dot _ inner _ => inner
  | _ => field

def Ident.resolveIn (env : Env) (id : Ident) : Option Meaning × Resolution :=
  match env.find? id.name with
  | some meaning => (some meaning, ⟨[], [id.asUse (some meaning)]⟩)
  | none => (none, ⟨[.about id .undeclared], [id.asUse none]⟩)

/-- What a field access means, and the error if it means nothing. -/
def memberOf (object : Expr) (base : Option Meaning) (field : Ident) :
    Option Meaning × List Diagnostic :=
  match base with
  | some (.record _ members) =>
    match members.lookup field.name with
    | some meaning => (some meaning, [])
    | none => (none, [.about field .unknownField])
  | _ => (none, [.about (object.lastIdent?.getD field) .notAStruct])

mutual

/-- What an expression means, if it is a name or a field access. -/
def Expr.resolveIn (env : Env) : Expr → Option Meaning × Resolution
  | .int .. | .str .. | .bool .. | .strayDot .. | .strayCall .. | .stray _ => (none, .none)
  | .name id => id.resolveIn env
  | .dot object field _ =>
    let (base, found) := object.resolveIn env
    let (meaning, errors) := memberOf object base field
    let use := field.asUse meaning
    (meaning, ⟨found.errors ++ errors, use :: found.uses ++ [use]⟩)
  | .assign target value => (none, (target.resolveIn env).2.andThen (value.resolveIn env).2)
  | .call callee args => (none, (callee.resolveIn env).2.andThen (Expr.resolveAllIn env args))
  | .unary _ operand => (none, (operand.resolveIn env).2)
  | .binary _ left right => (none, (left.resolveIn env).2.andThen (right.resolveIn env).2)

def Expr.resolveAllIn (env : Env) : List Expr → Resolution
  | [] => .none
  | expr :: exprs => (expr.resolveIn env).2.andThen (Expr.resolveAllIn env exprs)

end

/-! ## Variables -/

/-- The scope after a declaration in it. A name keeps its first meaning. -/
def Names.declare (names : Names) (id : Ident) : Option Meaning → Names × List Diagnostic
  | none => (names, [])
  | some meaning =>
    match names.lookup id.name with
    | some _ => (names, [.about id .redeclared])
    | none => (names ++ [(id.name, meaning)], [])

/-- The members of the struct type that a tag names. -/
def tagIn (env : Env) (tag : Ident) : Option Names × Resolution :=
  match env.find? tag.name with
  | some (.tag decl members) => (some members, ⟨[], [tag.asUse (some (.tag decl members))]⟩)
  | _ => (none, ⟨[.about tag .unknownStruct], [tag.asUse none]⟩)

/-- What a variable of a written type means. -/
def TypeExpr.resolveIn (env : Env) (decl : Origin) (id : Ident) :
    TypeExpr → Option Meaning × Resolution
  | .primitive name =>
    (some (.plain decl), ⟨if name = "void" then [.about id .voidVariable] else [], []⟩)
  | .struct tag =>
    let (members, found) := tagIn env tag
    (members.map (.record decl), found)
  | .stray _ => (none, .none)

/-- A variable, formal or field enters the scope `names`; its type is looked up in `env`. -/
def Decl.enter (env : Env) (names : Names) (decl : Origin) : Decl → Names × Resolution
  | .var type id | .formal type id =>
    let (meaning, found) := type.resolveIn env decl id
    let (names, errors) := names.declare id meaning
    (names, ⟨found.errors ++ errors, found.uses ++ [id.asUse (names.lookup id.name)]⟩)
  | _ => (names, .none)

/-- The declarations of a block enter its scope one after the other. -/
def Decl.enterAll (outer : Env) (names : Names) (path : Origin) (part : Part) (index : Nat) :
    List Decl → Names × Resolution
  | [] => (names, .none)
  | decl :: decls =>
    let first := decl.enter (names :: outer) names (path.child part index)
    let others := Decl.enterAll outer first.1 path part (index + 1) decls
    (others.1, first.2.andThen others.2)

/-- The fields of a struct, apart from the scopes that their types are looked up in. -/
def Decl.enterFields (env : Env) (members : Names) (path : Origin) (index : Nat) :
    List Decl → Names × Resolution
  | [] => (members, .none)
  | field :: fields =>
    let first := field.enter env members (path.child .fields index)
    let others := Decl.enterFields env first.1 path (index + 1) fields
    (others.1, first.2.andThen others.2)

/-! ## Statements -/

mutual

def Stmt.resolveIn (env : Env) (path : Origin) : Stmt → Resolution
  | .assign expr | .increment expr | .decrement expr | .read expr | .write expr | .call expr
  | .returnValue expr => (expr.resolveIn env).2
  | .ifThen condition decls stmts | .loop condition decls stmts =>
    let block := Decl.enterAll env [] path .decls 0 decls
    (condition.resolveIn env).2.andThen
      (block.2.andThen (Stmt.resolveAllIn (block.1 :: env) path .stmts 0 stmts))
  | .ifElse condition thenDecls thenStmts elseDecls elseStmts =>
    let thenBlock := Decl.enterAll env [] path .decls 0 thenDecls
    let elseBlock := Decl.enterAll env [] path .elseDecls 0 elseDecls
    (condition.resolveIn env).2.andThen
      ((thenBlock.2.andThen (Stmt.resolveAllIn (thenBlock.1 :: env) path .stmts 0 thenStmts)).andThen
        (elseBlock.2.andThen
          (Stmt.resolveAllIn (elseBlock.1 :: env) path .elseStmts 0 elseStmts)))
  | .returnNothing | .stray _ => .none

def Stmt.resolveAllIn (env : Env) (path : Origin) (part : Part) (index : Nat) :
    List Stmt → Resolution
  | [] => .none
  | stmt :: stmts =>
    (stmt.resolveIn env (path.child part index)).andThen
      (Stmt.resolveAllIn env path part (index + 1) stmts)

end

/-! ## Declarations at top level -/

/-- The tag of a function's type is looked up; other types need no look. -/
def TypeExpr.returnIn (env : Env) : TypeExpr → Resolution
  | .struct tag => (tagIn env tag).2
  | _ => .none

/-- The global scope after a declaration at top level. -/
def Decl.resolveIn (names : Names) (path : Origin) : Decl → Names × Resolution
  | .function returns id formals decls stmts =>
    let globals := names.declare id (some (.plain path))
    let head := (returns.returnIn [names]).andThen
      ⟨globals.2, [id.asUse (globals.1.lookup id.name)]⟩
    let inner := Decl.enterAll [globals.1] [] path .formals 0 formals
    let locals := Decl.enterAll [globals.1] inner.1 path .decls 0 decls
    let body := Stmt.resolveAllIn [locals.1, globals.1] path .stmts 0 stmts
    (globals.1, head.andThen (inner.2.andThen (locals.2.andThen body)))
  | .struct tag fields =>
    let inner := Decl.enterFields [names] [] path 0 fields
    let globals := names.declare tag (some (.tag path inner.1))
    (globals.1,
      ⟨inner.2.errors ++ globals.2, tag.asUse (globals.1.lookup tag.name) :: inner.2.uses⟩)
  | decl => decl.enter [names] names path

/-- The declarations of a program; `index` counts those in front. -/
def Decl.resolveAllIn (names : Names) (index : Nat) : List Decl → Names × Resolution
  | [] => (names, .none)
  | decl :: decls =>
    let first := decl.resolveIn names (.top index)
    let others := Decl.resolveAllIn first.1 (index + 1) decls
    (others.1, first.2.andThen others.2)

/-- What the names of a program stand for, and what is wrong with them. -/
def Program.resolve (program : Program) : Resolution :=
  (Decl.resolveAllIn [] 0 program.decls).2

end Moo
