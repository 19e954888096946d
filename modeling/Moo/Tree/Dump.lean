import Moo.Json
import Moo.Tree.Kind

/-!
# Trees as JSON

A node is an object that starts with its kind and has a field per part. A
field access has no location of its own. Symbols are left out.

What a string literal is may be more than the text in the tree says, so that
is a parameter. In a tree that was read from a string it is this text.
-/
namespace Moo

/-- What a string literal is in UTF-16, by its text in the tree and its location. -/
abbrev Literals := String → Option Loc → List UInt16

/-- Literals that are what the tree says. -/
def Literals.plain : Literals :=
  fun text _ => utf16 (.ofString text)

/-- A node of a kind with its parts. -/
def Json.node (kind : String) (parts : List (String × Json)) : Json :=
  .object (("_type", .word kind) :: parts)

def Loc.dump : Option Loc → Json
  | none => .null
  | some loc =>
    .node "SourceLocation" [("line", .number loc.line), ("column", .number loc.column)]

def Ident.dump (id : Ident) : Json :=
  .node (Expr.name id).kind [("name", .word id.name), ("loc", Loc.dump id.loc)]

section

variable (literal : Literals)

mutual

def TypeExpr.dump : TypeExpr → Json
  | type@(.primitive name) => .node type.kind [("name", .word name)]
  | type@(.struct tag) => .node type.kind [("id", tag.dump)]
  | .stray thing => thing.dump

def Expr.dump : Expr → Json
  | expr@(.int value loc) => .node expr.kind [("value", .number value), ("loc", Loc.dump loc)]
  | expr@(.str text loc) =>
    .node expr.kind [("value", .string (literal text loc)), ("loc", Loc.dump loc)]
  | expr@(.bool value loc) => .node expr.kind [("value", .bool value), ("loc", Loc.dump loc)]
  | .name id => id.dump
  | expr@(.dot object field _) => .node expr.kind [("object", object.dump), ("field", field.dump)]
  | expr@(.assign target value) => .node expr.kind [("lhs", target.dump), ("rhs", value.dump)]
  | expr@(.call callee args) =>
    .node expr.kind [("callee", callee.dump), ("args", .array (Expr.dumpAll args))]
  | expr@(.unary op operand) => .node expr.kind [("op", .word op), ("operand", operand.dump)]
  | expr@(.binary op left right) =>
    .node expr.kind [("op", .word op), ("left", left.dump), ("right", right.dump)]
  | expr@(.strayDot object field _ _) =>
    .node expr.kind [("object", object.dump), ("field", field.dump)]
  | expr@(.strayCall callee _ args) =>
    .node expr.kind [("callee", callee.dump), ("args", .array (Expr.dumpAll args))]
  | .stray thing => thing.dump

def Expr.dumpAll : List Expr → List Json
  | [] => []
  | expr :: exprs => expr.dump :: Expr.dumpAll exprs

def Decl.dump : Decl → Json
  | decl@(.var type id) => .node decl.kind [("type", type.dump), ("id", id.dump)]
  | decl@(.formal type id) => .node decl.kind [("type", type.dump), ("id", id.dump)]
  | decl@(.function returns id formals decls stmts) =>
    .node decl.kind
      [("return_type", returns.dump), ("id", id.dump), ("formals", .array (Decl.dumpAll formals)),
        ("body", .node (Stray.body decls stmts).kind
          [("decls", .array (Decl.dumpAll decls)), ("stmts", .array (Stmt.dumpAll stmts))])]
  | decl@(.struct tag fields) =>
    .node decl.kind [("id", tag.dump), ("fields", .array (Decl.dumpAll fields))]
  | .stray thing => thing.dump

def Decl.dumpAll : List Decl → List Json
  | [] => []
  | decl :: decls => decl.dump :: Decl.dumpAll decls

def Stmt.dump : Stmt → Json
  | stmt@(.assign assignment) => .node stmt.kind [("assign", assignment.dump)]
  | stmt@(.increment target) => .node stmt.kind [("exp", target.dump)]
  | stmt@(.decrement target) => .node stmt.kind [("exp", target.dump)]
  | stmt@(.read target) => .node stmt.kind [("exp", target.dump)]
  | stmt@(.write value) => .node stmt.kind [("exp", value.dump)]
  | stmt@(.ifThen condition decls stmts) =>
    .node stmt.kind
      [("condition", condition.dump), ("decls", .array (Decl.dumpAll decls)),
        ("stmts", .array (Stmt.dumpAll stmts))]
  | stmt@(.ifElse condition thenDecls thenStmts elseDecls elseStmts) =>
    .node stmt.kind
      [("condition", condition.dump), ("then_decls", .array (Decl.dumpAll thenDecls)),
        ("then_stmts", .array (Stmt.dumpAll thenStmts)),
        ("else_decls", .array (Decl.dumpAll elseDecls)),
        ("else_stmts", .array (Stmt.dumpAll elseStmts))]
  | stmt@(.loop condition decls stmts) =>
    .node stmt.kind
      [("condition", condition.dump), ("decls", .array (Decl.dumpAll decls)),
        ("stmts", .array (Stmt.dumpAll stmts))]
  | stmt@(.call call) => .node stmt.kind [("call", call.dump)]
  | stmt@.returnNothing => .node stmt.kind [("exp", .null)]
  | stmt@(.returnValue value) => .node stmt.kind [("exp", value.dump)]
  | .stray thing => thing.dump

def Stmt.dumpAll : List Stmt → List Json
  | [] => []
  | stmt :: stmts => stmt.dump :: Stmt.dumpAll stmts

def Stray.dump : Stray → Json
  | .object kind => .word kind
  | .text value => .word value
  | .flag value => .bool value
  | .nothing => .null
  | .type type => type.dump
  | .expr expr => expr.dump
  | .decl decl => decl.dump
  | .stmt stmt => stmt.dump
  | thing@(.body decls stmts) =>
    .node thing.kind
      [("decls", .array (Decl.dumpAll decls)), ("stmts", .array (Stmt.dumpAll stmts))]
  | thing@(.program decls) => .node thing.kind [("decls", .array (Decl.dumpAll decls))]

end

/-- A program as JSON text. -/
def Program.dumpBy (program : Program) : String :=
  ((Stray.program program.decls).dump literal).text

end

def Program.dump (program : Program) : String :=
  program.dumpBy .plain

end Moo
