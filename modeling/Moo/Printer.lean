import Moo.Fault
import Moo.Text.Lines
import Moo.Tree.Attribute

/-!
# Printing

A tree as Moo source, one line per declaration, statement and brace, four
columns per block. Operators are put in parentheses wherever they stand in
an expression, and so is what stands in front of a dot; an assignment that
is a statement is not.

With `annotate` every use of a name that has a symbol is followed by the
symbol's type in parentheses, and a called function by its signature too.
Names that are being declared, and the tags of struct types, stay bare.

Numbers of any size are printed. No program that was read holds one of more
than `maxDigits` digits; past that many the conversion of a number to text is
not modelled.
-/
namespace Moo

/-- A name where it is used. -/
def Ident.use (annotate : Bool) (id : Ident) : String :=
  match annotate, id.symbol with
  | true, some symbol => id.name ++ "(" ++ symbol.typeName ++ ")"
  | _, _ => id.name

/-- A name where it is called. -/
def Ident.callee (annotate : Bool) (id : Ident) : String :=
  match annotate, id.symbol with
  | true, some (.function origin returns params) =>
    id.use true ++ "(" ++ (Symbol.function origin returns params).text ++ ")"
  | _, _ => id.use annotate

/-- The name that something in the place of an identifier is printed with. With annotations it is
asked for a symbol first. -/
def Stray.printedName (annotate : Bool) (given : Option Symbol) (thing : Stray) :
    Except Fault String :=
  if annotate && !thing.hasSymbol given then .error (.lacks thing.kind "symbol") else thing.name

def TypeExpr.print : TypeExpr → Except Fault String
  | primitive name => .ok name
  | struct tag => .ok ("struct " ++ tag.name)
  | stray thing => .error (.unprintable .type thing.kind)

mutual

def Expr.print (annotate : Bool) : Expr → Except Fault String
  | .int value _ => .ok (toString value)
  | .str text _ => .ok text
  | .bool value _ => .ok (if value then "true" else "false")
  | .name id => .ok (id.use annotate)
  | .dot object field _ => do
    let object ← object.print annotate
    .ok ("(" ++ object ++ ")." ++ field.use annotate)
  | .assign target value => do
    let target ← target.print annotate
    let value ← value.print annotate
    .ok ("(" ++ target ++ " = " ++ value ++ ")")
  | .call callee args => do
    let args ← Expr.printAll annotate args
    .ok (callee.callee annotate ++ "(" ++ ", ".intercalate args ++ ")")
  | .unary op operand => do
    let operand ← operand.print annotate
    .ok ("(" ++ op ++ operand ++ ")")
  | .binary op left right => do
    let left ← left.print annotate
    let right ← right.print annotate
    .ok ("(" ++ left ++ " " ++ op ++ " " ++ right ++ ")")
  | .strayDot object field given _ => do
    let object ← object.print annotate
    let name ← field.printedName annotate given
    .ok ("(" ++ object ++ ")." ++ Ident.use annotate ⟨name, none, given⟩)
  | .strayCall callee given args => do
    let args ← Expr.printAll annotate args
    let name ← callee.printedName annotate given
    .ok (Ident.callee annotate ⟨name, none, given⟩ ++ "(" ++ ", ".intercalate args ++ ")")
  | .stray thing => .error (.unprintable .expression thing.kind)

def Expr.printAll (annotate : Bool) : List Expr → Except Fault (List String)
  | [] => .ok []
  | expr :: exprs => do
    let text ← expr.print annotate
    let texts ← Expr.printAll annotate exprs
    .ok (text :: texts)

end

/-- An assignment that is a statement. -/
def Expr.printAssignment (annotate : Bool) : Expr → Except Fault String
  | .assign target value => do
    let target ← target.print annotate
    let value ← value.print annotate
    .ok (target ++ " = " ++ value)
  | expr => .error (.lacks expr.kind "lhs")

def Decl.printFormal : Decl → Except Fault String
  | .var type id | .formal type id => do
    let type ← type.print
    .ok (type ++ " " ++ id.name)
  | decl => .error (.lacks decl.kind "type")

/-- A line of text, indented by a number of columns. -/
def line (indent : Nat) (text : String) : String :=
  String.ofList (List.replicate indent ' ') ++ text

/-- How far a block is indented inside what it belongs to. -/
def indentStep : Nat := 4

/-- The line that opens a block. -/
def openLine (indent : Nat) (head : String) : String :=
  line indent (head ++ " \x7b")

/-- The line that closes a block. -/
def closeLine (indent : Nat) : String :=
  line indent "\x7d"

mutual

def Decl.lines (annotate : Bool) (indent : Nat) : Decl → Except Fault (List String)
  | .var type id => do
    let type ← type.print
    .ok [line indent (type ++ " " ++ id.name ++ ";")]
  | .function returns id formals decls stmts => do
    let formals ← formals.mapM Decl.printFormal
    let returns ← returns.print
    let decls ← Decl.linesAll annotate (indent + indentStep) decls
    let stmts ← Stmt.linesAll annotate (indent + indentStep) stmts
    let head := returns ++ " " ++ id.name ++ "(" ++ ", ".intercalate formals ++ ")"
    .ok (openLine indent head :: decls ++ stmts ++ [closeLine indent, ""])
  | .struct tag fields => do
    let fields ← Decl.linesAll annotate (indent + indentStep) fields
    .ok (openLine indent ("struct " ++ tag.name) :: fields ++ [line indent "\x7d;", ""])
  | .formal type id => .error (.unprintable .declaration (Decl.formal type id).kind)
  | .stray thing => .error (.unprintable .declaration thing.kind)

def Decl.linesAll (annotate : Bool) (indent : Nat) : List Decl → Except Fault (List String)
  | [] => .ok []
  | decl :: decls => do
    let first ← decl.lines annotate indent
    let others ← Decl.linesAll annotate indent decls
    .ok (first ++ others)

def Stmt.lines (annotate : Bool) (indent : Nat) : Stmt → Except Fault (List String)
  | .assign assignment => do
    let text ← assignment.printAssignment annotate
    .ok [line indent (text ++ ";")]
  | .increment target => do
    let text ← target.print annotate
    .ok [line indent (text ++ "++;")]
  | .decrement target => do
    let text ← target.print annotate
    .ok [line indent (text ++ "--;")]
  | .read target => do
    let text ← target.print annotate
    .ok [line indent ("cin >> " ++ text ++ ";")]
  | .write value => do
    let text ← value.print annotate
    .ok [line indent ("cout << " ++ text ++ ";")]
  | .ifThen condition decls stmts => do
    let condition ← condition.print annotate
    let decls ← Decl.linesAll annotate (indent + indentStep) decls
    let stmts ← Stmt.linesAll annotate (indent + indentStep) stmts
    .ok (openLine indent ("if (" ++ condition ++ ")") :: decls ++ stmts ++ [closeLine indent])
  | .ifElse condition thenDecls thenStmts elseDecls elseStmts => do
    let condition ← condition.print annotate
    let thenDecls ← Decl.linesAll annotate (indent + indentStep) thenDecls
    let thenStmts ← Stmt.linesAll annotate (indent + indentStep) thenStmts
    let elseDecls ← Decl.linesAll annotate (indent + indentStep) elseDecls
    let elseStmts ← Stmt.linesAll annotate (indent + indentStep) elseStmts
    .ok (openLine indent ("if (" ++ condition ++ ")") :: thenDecls ++ thenStmts
      ++ closeLine indent :: openLine indent "else" :: elseDecls ++ elseStmts
      ++ [closeLine indent])
  | .loop condition decls stmts => do
    let condition ← condition.print annotate
    let decls ← Decl.linesAll annotate (indent + indentStep) decls
    let stmts ← Stmt.linesAll annotate (indent + indentStep) stmts
    .ok (openLine indent ("while (" ++ condition ++ ")") :: decls ++ stmts ++ [closeLine indent])
  | .call call => do
    let text ← call.print annotate
    .ok [line indent (text ++ ";")]
  | .returnNothing => .ok [line indent "return;"]
  | .returnValue value => do
    let text ← value.print annotate
    .ok [line indent ("return " ++ text ++ ";")]
  | .stray thing => .error (.unprintable .statement thing.kind)

def Stmt.linesAll (annotate : Bool) (indent : Nat) : List Stmt → Except Fault (List String)
  | [] => .ok []
  | stmt :: stmts => do
    let first ← stmt.lines annotate indent
    let others ← Stmt.linesAll annotate indent stmts
    .ok (first ++ others)

end

/-- A program as source text; every line is ended. -/
def Program.print (annotate : Bool) (program : Program) : Except Fault String := do
  let lines ← Decl.linesAll annotate 0 program.decls
  .ok (unlines lines)

end Moo
