import Moo.Tree

/-!
# Equal trees

Two trees are the same if they have the same nodes with the same names,
values and locations. Symbols do not count, so analysis makes no difference.
An object of a foreign kind is the same as no other.

What a string literal is may be more than the text in the tree says, so how
literals are compared is a parameter.
-/
namespace Moo

def Ident.same (a b : Ident) : Bool :=
  a.name == b.name && a.loc == b.loc

/-- How string literals are compared, by their texts in the two trees and their locations. -/
abbrev LiteralSame := String → Option Loc → String → Option Loc → Bool

/-- Literals that are what the trees say. -/
def LiteralSame.plain : LiteralSame :=
  fun a l b m => a == b && l == m

section

variable (literal : LiteralSame)

mutual

def TypeExpr.same : TypeExpr → TypeExpr → Bool
  | .primitive a, .primitive b => a == b
  | .struct a, .struct b => a.same b
  | .stray a, .stray b => a.same b
  | _, _ => false

def Expr.same : Expr → Expr → Bool
  | .int a l, .int b m => a == b && l == m
  | .str a l, .str b m => literal a l b m
  | .bool a l, .bool b m => a == b && l == m
  | .name a, .name b => a.same b
  | .dot a f _, .dot b g _ => a.same b && f.same g
  | .assign a v, .assign b w => a.same b && v.same w
  | .call a as, .call b bs => a.same b && Expr.sameAll as bs
  | .unary o a, .unary p b => o == p && a.same b
  | .binary o a c, .binary p b d => o == p && a.same b && c.same d
  | .strayDot a f _ _, .strayDot b g _ _ => a.same b && f.same g
  | .strayCall a _ as, .strayCall b _ bs => a.same b && Expr.sameAll as bs
  | .stray a, .stray b => a.same b
  | _, _ => false

def Expr.sameAll : List Expr → List Expr → Bool
  | [], [] => true
  | a :: as, b :: bs => a.same b && Expr.sameAll as bs
  | _, _ => false

def Decl.same : Decl → Decl → Bool
  | .var t a, .var u b => t.same u && a.same b
  | .formal t a, .formal u b => t.same u && a.same b
  | .function t a fs ds ss, .function u b gs es rs =>
    t.same u && a.same b && Decl.sameAll fs gs && Decl.sameAll ds es && Stmt.sameAll ss rs
  | .struct a fs, .struct b gs => a.same b && Decl.sameAll fs gs
  | .stray a, .stray b => a.same b
  | _, _ => false

def Decl.sameAll : List Decl → List Decl → Bool
  | [], [] => true
  | a :: as, b :: bs => a.same b && Decl.sameAll as bs
  | _, _ => false

def Stmt.same : Stmt → Stmt → Bool
  | .assign a, .assign b => a.same b
  | .increment a, .increment b => a.same b
  | .decrement a, .decrement b => a.same b
  | .read a, .read b => a.same b
  | .write a, .write b => a.same b
  | .ifThen a ds ss, .ifThen b es rs => a.same b && Decl.sameAll ds es && Stmt.sameAll ss rs
  | .ifElse a ds ss ds' ss', .ifElse b es rs es' rs' =>
    a.same b && Decl.sameAll ds es && Stmt.sameAll ss rs && Decl.sameAll ds' es'
      && Stmt.sameAll ss' rs'
  | .loop a ds ss, .loop b es rs => a.same b && Decl.sameAll ds es && Stmt.sameAll ss rs
  | .call a, .call b => a.same b
  | .returnNothing, .returnNothing => true
  | .returnValue a, .returnValue b => a.same b
  | .stray a, .stray b => a.same b
  | _, _ => false

def Stmt.sameAll : List Stmt → List Stmt → Bool
  | [], [] => true
  | a :: as, b :: bs => a.same b && Stmt.sameAll as bs
  | _, _ => false

def Stray.same : Stray → Stray → Bool
  | .text a, .text b => a == b
  | .flag a, .flag b => a == b
  | .nothing, .nothing => true
  | .type a, .type b => a.same b
  | .expr a, .expr b => a.same b
  | .decl a, .decl b => a.same b
  | .stmt a, .stmt b => a.same b
  | .body ds ss, .body es rs => Decl.sameAll ds es && Stmt.sameAll ss rs
  | .program ds, .program es => Decl.sameAll ds es
  | _, _ => false

end

def Program.sameBy (a b : Program) : Bool :=
  Decl.sameAll literal a.decls b.decls

end

def Program.same (a b : Program) : Bool :=
  a.sameBy .plain b

end Moo
