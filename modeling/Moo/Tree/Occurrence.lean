import Moo.Tree

/-!
# Occurrences of names

The identifiers and field accesses of a tree, each node before its parts and
the parts in the order in which they are written. A field access comes
before what stands in front of its dot, and its field after that. Something
else in the place of a field or a callee is no name that occurs, but it can
have a symbol.
-/
namespace Moo

inductive Occurrence
  | ident (id : Ident)
  /-- A whole field access: its field and its own symbol. -/
  | dot (field : Ident) (symbol : Option Symbol)
  /-- Something in the place of a name, or the field access that it stands in. -/
  | stray (symbol : Option Symbol)

def Occurrence.id : Occurrence → Ident
  | ident id => id
  | dot field _ => field
  | stray symbol => ⟨"", none, symbol⟩

def Occurrence.symbol : Occurrence → Option Symbol
  | ident id => id.symbol
  | dot _ symbol | stray symbol => symbol

mutual

def TypeExpr.occurrences : TypeExpr → List Occurrence
  | .primitive _ => []
  | .struct tag => [.ident tag]
  | .stray thing => thing.occurrences

def Expr.occurrences : Expr → List Occurrence
  | .int .. | .str .. | .bool .. => []
  | .name id => [.ident id]
  | .dot object field symbol => .dot field symbol :: object.occurrences ++ [.ident field]
  | .assign target value => target.occurrences ++ value.occurrences
  | .call callee args => .ident callee :: Expr.occurrencesAll args
  | .unary _ operand => operand.occurrences
  | .binary _ left right => left.occurrences ++ right.occurrences
  | .strayDot object field given symbol =>
    .stray symbol :: object.occurrences ++ .stray given :: field.occurrences
  | .strayCall callee given args =>
    .stray given :: callee.occurrences ++ Expr.occurrencesAll args
  | .stray thing => thing.occurrences

def Expr.occurrencesAll : List Expr → List Occurrence
  | [] => []
  | expr :: exprs => expr.occurrences ++ Expr.occurrencesAll exprs

def Decl.occurrences : Decl → List Occurrence
  | .var type id | .formal type id => type.occurrences ++ [.ident id]
  | .function returns id formals decls stmts =>
    returns.occurrences ++ .ident id :: Decl.occurrencesAll formals
      ++ Decl.occurrencesAll decls ++ Stmt.occurrencesAll stmts
  | .struct tag fields => .ident tag :: Decl.occurrencesAll fields
  | .stray thing => thing.occurrences

def Decl.occurrencesAll : List Decl → List Occurrence
  | [] => []
  | decl :: decls => decl.occurrences ++ Decl.occurrencesAll decls

def Stmt.occurrences : Stmt → List Occurrence
  | .assign expr | .increment expr | .decrement expr | .read expr | .write expr | .call expr
  | .returnValue expr => expr.occurrences
  | .ifThen condition decls stmts | .loop condition decls stmts =>
    condition.occurrences ++ Decl.occurrencesAll decls ++ Stmt.occurrencesAll stmts
  | .ifElse condition thenDecls thenStmts elseDecls elseStmts =>
    condition.occurrences ++ Decl.occurrencesAll thenDecls ++ Stmt.occurrencesAll thenStmts
      ++ Decl.occurrencesAll elseDecls ++ Stmt.occurrencesAll elseStmts
  | .returnNothing => []
  | .stray thing => thing.occurrences

def Stmt.occurrencesAll : List Stmt → List Occurrence
  | [] => []
  | stmt :: stmts => stmt.occurrences ++ Stmt.occurrencesAll stmts

def Stray.occurrences : Stray → List Occurrence
  | .object _ | .text _ | .flag _ | .nothing => []
  | .type type => type.occurrences
  | .expr expr => expr.occurrences
  | .decl decl => decl.occurrences
  | .stmt stmt => stmt.occurrences
  | .body decls stmts => Decl.occurrencesAll decls ++ Stmt.occurrencesAll stmts
  | .program decls => Decl.occurrencesAll decls

end

def Program.occurrences (program : Program) : List Occurrence :=
  Decl.occurrencesAll program.decls

theorem Expr.occurrencesAll_append (es fs : List Expr) :
    Expr.occurrencesAll (es ++ fs) = Expr.occurrencesAll es ++ Expr.occurrencesAll fs := by
  induction es with
  | nil => rfl
  | cons e es ih => simp [Expr.occurrencesAll, ih]

theorem Decl.occurrencesAll_append (ds es : List Decl) :
    Decl.occurrencesAll (ds ++ es) = Decl.occurrencesAll ds ++ Decl.occurrencesAll es := by
  induction ds with
  | nil => rfl
  | cons d ds ih => simp [Decl.occurrencesAll, ih]

theorem Stmt.occurrencesAll_append (ss ts : List Stmt) :
    Stmt.occurrencesAll (ss ++ ts) = Stmt.occurrencesAll ss ++ Stmt.occurrencesAll ts := by
  induction ss with
  | nil => rfl
  | cons s ss ih => simp [Stmt.occurrencesAll, ih]

end Moo
