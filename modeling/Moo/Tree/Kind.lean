import Moo.Tree

/-!
# Kinds of nodes

The name of each kind of node, by which messages and dumps call it.
-/
namespace Moo

mutual

def TypeExpr.kind : TypeExpr → String
  | .primitive _ => "PrimitiveType"
  | .struct _ => "StructType"
  | .stray thing => thing.kind

def Expr.kind : Expr → String
  | .int .. => "IntLit"
  | .str .. => "StrLit"
  | .bool .. => "BoolLit"
  | .name _ => "Id"
  | .dot .. | .strayDot .. => "DotAccess"
  | .assign .. => "AssignExp"
  | .call .. | .strayCall .. => "CallExp"
  | .unary .. => "UnaryOp"
  | .binary .. => "BinaryOp"
  | .stray thing => thing.kind

def Decl.kind : Decl → String
  | .var .. => "VarDecl"
  | .formal .. => "FormalDecl"
  | .function .. => "FnDecl"
  | .struct .. => "StructDecl"
  | .stray thing => thing.kind

def Stmt.kind : Stmt → String
  | .assign _ => "AssignStmt"
  | .increment _ => "PostIncStmt"
  | .decrement _ => "PostDecStmt"
  | .read _ => "ReadStmt"
  | .write _ => "WriteStmt"
  | .ifThen .. => "IfStmt"
  | .ifElse .. => "IfElseStmt"
  | .loop .. => "WhileStmt"
  | .call _ => "CallStmt"
  | .returnNothing | .returnValue _ => "ReturnStmt"
  | .stray thing => thing.kind

def Stray.kind : Stray → String
  | .object kind => kind
  | .text _ => "str"
  | .flag _ => "bool"
  | .nothing => "NoneType"
  | .type type => type.kind
  | .expr expr => expr.kind
  | .decl decl => decl.kind
  | .stmt stmt => stmt.kind
  | .body .. => "FnBody"
  | .program _ => "Program"

end

end Moo
