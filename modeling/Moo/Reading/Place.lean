import Moo.Reading.Spot
import Moo.Tree

/-!
# Places

A place is a partly read program: what has been read, put together as far as
it can be, and what it stands in. Lists are kept newest first while they
grow.

An expression grows by operands. What is still to be combined with the
operand being read is a list of `Pending` work, innermost first; what the
whole expression is for is its `Hole`.
-/
namespace Moo

/-- The head of a function, with the declarations in front of it. -/
structure Header where
  before : List Decl
  returns : TypeExpr
  id : Ident
  formals : List Decl

/-- What an open block belongs to. -/
inductive Opener
  | loop (condition : Expr)
  | ifThen (condition : Expr)
  | ifElse (condition : Expr) (thenDecls : List Decl) (thenStmts : List Stmt)

/-- An open block with the declarations and statements read in it, and the blocks around it. -/
inductive Block
  | function (header : Header) (decls : List Decl) (stmts : List Stmt)
  | nested (opener : Opener) (outer : Block) (decls : List Decl) (stmts : List Stmt)

/-- Where a type and a name are being read. -/
inductive Slot
  | top (decls : List Decl)
  | field (before : List Decl) (tag : Ident) (fields : List Decl)
  | formal (header : Header)
  | inner (block : Block)

/-- What waits for the operand being read. -/
inductive Pending
  | assign (target : Expr)
  | binary (binding : Nat) (op : String) (left : Expr)
  | unary (op : String)

/-- What an expression is read for. -/
inductive Hole
  | assigned (block : Block) (target : Expr)
  | written (block : Block)
  | returned (block : Block)
  | ifCondition (block : Block)
  | loopCondition (block : Block)
  /-- An argument of a call that is a statement. -/
  | argumentOfCall (block : Block) (callee : Ident) (args : List Expr)
  /-- An argument of a call that is an operand. -/
  | argument (callee : Ident) (args : List Expr) (pending : List Pending) (outer : Hole)
  | group (pending : List Pending) (outer : Hole)

/-- What a name, or a chain of names and dots, is read for. -/
inductive Seat
  | read (block : Block)
  /-- A statement that starts with it. -/
  | head (block : Block)
  | operand (pending : List Pending) (hole : Hole)

inductive Place
  /-- Between two declarations at top level. -/
  | between (decls : List Decl)
  /-- After `struct`. -/
  | structWord (slot : Slot)
  /-- After `struct` and a name at top level: a struct type is declared, or used. -/
  | tagged (decls : List Decl) (tag : Ident)
  | typed (slot : Slot) (type : TypeExpr)
  | named (slot : Slot) (type : TypeExpr) (id : Ident)
  /-- In the braces of a struct, where a field starts. -/
  | inStruct (before : List Decl) (tag : Ident) (fields : List Decl)
  /-- After the brace that closes a struct. -/
  | structEnd (before : List Decl) (tag : Ident) (fields : List Decl)
  /-- In the parentheses of a function's head, where a formal starts. -/
  | inFormals (header : Header)
  /-- After the parenthesis that closes them. -/
  | headed (header : Header)
  /-- In a block, where a declaration or a statement starts. -/
  | inBlock (block : Block)
  | ifWord (block : Block)
  | whileWord (block : Block)
  /-- After the parenthesis that closes a condition. -/
  | opened (block : Block) (opener : Opener)
  | cinWord (block : Block)
  | readArrow (block : Block)
  | coutWord (block : Block)
  /-- Where an operand starts. -/
  | atOperand (pending : List Pending) (hole : Hole)
  /-- After a name or a chain of names and dots. -/
  | afterTarget (seat : Seat) (target : Expr)
  /-- After the dot behind it. -/
  | afterDot (seat : Seat) (object : Expr)
  /-- After an operand that is no target. -/
  | afterValue (pending : List Pending) (hole : Hole) (operand : Expr)
  /-- A statement that lacks only its semicolon. -/
  | counted (block : Block) (stmt : Stmt)
  /-- A call that is a statement and lacks only its semicolon. -/
  | called (block : Block) (call : Expr)

namespace Block

def decls : Block → List Decl
  | function _ decls _ | nested _ _ decls _ => decls

def stmts : Block → List Stmt
  | function _ _ stmts | nested _ _ _ stmts => stmts

def addDecl (decl : Decl) : Block → Block
  | function header decls stmts => function header (decl :: decls) stmts
  | nested opener outer decls stmts => nested opener outer (decl :: decls) stmts

def withStmts (stmts : List Stmt) : Block → Block
  | function header decls _ => function header decls stmts
  | nested opener outer decls _ => nested opener outer decls stmts

def addStmt (stmt : Stmt) (block : Block) : Block :=
  block.withStmts (stmt :: block.stmts)

/-- Takes back a statement `if` without `else` that has just been read. -/
def reopenIf? (block : Block) : Option (Block × Opener) :=
  match block.stmts with
  | .ifThen condition decls stmts :: before =>
    some (block.withStmts before, .ifElse condition decls stmts)
  | _ => none

def spot (block : Block) : Spot :=
  match block.stmts, block.decls with
  | [], [] => .blockStart
  | [], _ :: _ => .afterVariable
  | .ifThen .. :: _, _ | .ifElse .. :: _, _ | .loop .. :: _, _ => .afterBlock
  | _ :: _, _ => .afterStatement

end Block

namespace Place

/-- What the reader sees of a place before it knows the next word. -/
def spot : Place → Spot
  | between (.var .. :: _) => .afterVariable
  | between _ => .declaration
  | structWord _ => .name
  | tagged .. => .nameOrBrace
  | typed .. => .name
  | named (.top _) .. => .variableOrFunction
  | named (.formal _) .. => .afterFormal
  | named .. => .semicolon
  | inStruct _ _ [] => .type
  | inStruct .. => .afterVariable
  | structEnd .. => .semicolon
  | inFormals ⟨_, _, _, []⟩ => .formals
  | inFormals _ => .type
  | headed _ => .brace
  | inBlock inner => inner.spot
  | ifWord _ => .paren
  | whileWord _ => .paren
  | opened .. => .brace
  | cinWord _ => .readArrow
  | readArrow _ => .name
  | coutWord _ => .writeArrow
  | atOperand [] (.returned _) => .operandOrSemicolon
  | atOperand [] (.argumentOfCall _ _ []) => .operandOrParen
  | atOperand [] (.argument _ [] _ _) => .operandOrParen
  | atOperand .. => .operand
  | afterTarget (.read _) (.name _) => .afterRead
  | afterTarget _ (.name _) => .afterName
  | afterTarget .. => .afterField
  | afterDot .. => .name
  | afterValue .. => .afterValue
  | counted .. => .semicolon
  | called .. => .afterValue

end Place

end Moo
