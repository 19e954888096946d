import Moo.Reading.Place

/-!
# Steps

`Place.step? place token` is the place after one more word, or nothing if no
program goes on that way. A program ends only between two declarations.
-/
namespace Moo

/-- A word of a text, where it starts and what it is read as. -/
structure Token where
  terminal : Terminal
  text : String
  loc : Loc

namespace Token

def ident (token : Token) : Ident :=
  ⟨token.text, some token.loc, none⟩

/-- The number that the digits of a word write. -/
def number (token : Token) : Int :=
  Nat.ofDigitChars 10 token.text.toList 0

end Token

namespace Header

/-- The function whose body has been read. -/
def close (header : Header) (decls : List Decl) (stmts : List Stmt) : Decl :=
  .function header.returns header.id header.formals.reverse decls.reverse stmts.reverse

end Header

namespace Opener

/-- The statement whose block has been read. -/
def close (decls : List Decl) (stmts : List Stmt) : Opener → Stmt
  | loop condition => .loop condition decls.reverse stmts.reverse
  | ifThen condition => .ifThen condition decls.reverse stmts.reverse
  | ifElse condition thenDecls thenStmts =>
    .ifElse condition thenDecls thenStmts decls.reverse stmts.reverse

end Opener

namespace Block

/-- After the brace that closes a block. -/
def close : Block → Place
  | function header decls stmts => .between (header.close decls stmts :: header.before)
  | nested opener outer decls stmts => .inBlock (outer.addStmt (opener.close decls stmts))

def step? (block : Block) (token : Token) : Option Place :=
  match token.terminal with
  | .ident => some (.afterTarget (.head block) (.name token.ident))
  | .fixed word =>
    match word with
    | .int | .bool | .void =>
      if block.stmts.isEmpty then some (.typed (.inner block) (.primitive word.spelling)) else none
    | .struct => if block.stmts.isEmpty then some (.structWord (.inner block)) else none
    | .cin => some (.cinWord block)
    | .cout => some (.coutWord block)
    | .ifWord => some (.ifWord block)
    | .whileWord => some (.whileWord block)
    | .returnWord => some (.atOperand [] (.returned block))
    | .elseWord => block.reopenIf?.map fun (outer, opener) => .opened outer opener
    | .closeBrace => some block.close
    | _ => none
  | _ => none

end Block

namespace Slot

/-- After a type and a name. -/
def step? (type : TypeExpr) (id : Ident) (token : Token) : Slot → Option Place
  | top decls =>
    match token.terminal with
    | .fixed .semicolon => some (.between (.var type id :: decls))
    | .fixed .openParen => some (.inFormals ⟨decls, type, id, []⟩)
    | _ => none
  | field before tag fields =>
    match token.terminal with
    | .fixed .semicolon => some (.inStruct before tag (.var type id :: fields))
    | _ => none
  | formal header =>
    let header := { header with formals := .formal type id :: header.formals }
    match token.terminal with
    | .fixed .comma => some (.inFormals header)
    | .fixed .closeParen => some (.headed header)
    | _ => none
  | inner block =>
    match token.terminal with
    | .fixed .semicolon => some (.inBlock (block.addDecl (.var type id)))
    | _ => none

/-- Where a type starts. -/
def typeStep? (slot : Slot) (token : Token) : Option Place :=
  match token.terminal with
  | .fixed .struct => some (.structWord slot)
  | .fixed word => if word.isPrimitiveType then some (.typed slot (.primitive word.spelling)) else none
  | _ => none

end Slot

/-- Combines an operand with all pending work that binds at least as tightly as `binding`:
an assignment binds least, at 0, and a sign in front of an operand most. -/
def settle (binding : Nat) (operand : Expr) : List Pending → Expr × List Pending
  | [] => (operand, [])
  | .unary op :: pending => settle binding (.unary op operand) pending
  | .binary own op left :: pending =>
    if binding ≤ own then settle binding (.binary op left operand) pending
    else (operand, .binary own op left :: pending)
  | .assign target :: pending =>
    if binding = 0 then settle binding (.assign target operand) pending
    else (operand, .assign target :: pending)

/-- The whole expression that an operand ends. -/
def settleAll (operand : Expr) (pending : List Pending) : Expr :=
  (settle 0 operand pending).1

/-- The pending work after an operator of the given binding. Operators of one binding group to
the left, except that a comparison is no operand of another. -/
def pendOperator? (binding : Nat) (op : String) (operand : Expr) (pending : List Pending) :
    Option (List Pending) :=
  if binding = 3 then
    match settle 4 operand pending with
    | (_, .binary 3 _ _ :: _) => none
    | (left, pending) => some (.binary binding op left :: pending)
  else
    let (left, pending) := settle binding operand pending
    some (.binary binding op left :: pending)

/-- Only assignments may wait for a target of another assignment. -/
def onlyAssigns : List Pending → Bool
  | [] | .assign _ :: _ => true
  | _ => false

namespace Hole

/-- After the word that ends an expression. -/
def close? (expr : Expr) (token : Token) : Hole → Option Place
  | assigned block target =>
    match token.terminal with
    | .fixed .semicolon => some (.inBlock (block.addStmt (.assign (.assign target expr))))
    | _ => none
  | written block =>
    match token.terminal with
    | .fixed .semicolon => some (.inBlock (block.addStmt (.write expr)))
    | _ => none
  | returned block =>
    match token.terminal with
    | .fixed .semicolon => some (.inBlock (block.addStmt (.returnValue expr)))
    | _ => none
  | ifCondition block =>
    match token.terminal with
    | .fixed .closeParen => some (.opened block (.ifThen expr))
    | _ => none
  | loopCondition block =>
    match token.terminal with
    | .fixed .closeParen => some (.opened block (.loop expr))
    | _ => none
  | argumentOfCall block callee args =>
    match token.terminal with
    | .fixed .closeParen => some (.called block (.call callee (expr :: args).reverse))
    | .fixed .comma => some (.atOperand [] (argumentOfCall block callee (expr :: args)))
    | _ => none
  | argument callee args pending outer =>
    match token.terminal with
    | .fixed .closeParen => some (.afterValue pending outer (.call callee (expr :: args).reverse))
    | .fixed .comma => some (.atOperand [] (argument callee (expr :: args) pending outer))
    | _ => none
  | group pending outer =>
    match token.terminal with
    | .fixed .closeParen => some (.afterValue pending outer expr)
    | _ => none

/-- After the word that stands where an operand could start, if that ends what is being read:
`return` needs no expression, and a call no arguments. -/
def closeEmpty? (token : Token) : Hole → Option Place
  | returned block =>
    match token.terminal with
    | .fixed .semicolon => some (.inBlock (block.addStmt .returnNothing))
    | _ => none
  | argumentOfCall block callee [] =>
    match token.terminal with
    | .fixed .closeParen => some (.called block (.call callee []))
    | _ => none
  | argument callee [] pending outer =>
    match token.terminal with
    | .fixed .closeParen => some (.afterValue pending outer (.call callee []))
    | _ => none
  | _ => none

end Hole

/-- After an operand. -/
def valueStep? (pending : List Pending) (hole : Hole) (operand : Expr) (token : Token) :
    Option Place :=
  match token.terminal with
  | .fixed word =>
    match word.binding? with
    | some binding =>
      (pendOperator? binding word.spelling operand pending).map (.atOperand · hole)
    | none => hole.close? (settleAll operand pending) token
  | _ => none

/-- Where an operand starts. -/
def operandStep? (pending : List Pending) (hole : Hole) (token : Token) : Option Place :=
  match token.terminal with
  | .ident => some (.afterTarget (.operand pending hole) (.name token.ident))
  | .number => some (.afterValue pending hole (.int token.number token.loc))
  | .text => some (.afterValue pending hole (.str token.text token.loc))
  | .fixed .trueWord => some (.afterValue pending hole (.bool true token.loc))
  | .fixed .falseWord => some (.afterValue pending hole (.bool false token.loc))
  | .fixed .openParen => some (.atOperand [] (.group pending hole))
  | .fixed .minus => some (.atOperand (.unary Fixed.minus.spelling :: pending) hole)
  | .fixed .not => some (.atOperand (.unary Fixed.not.spelling :: pending) hole)
  | _ => if pending.isEmpty then hole.closeEmpty? token else none

namespace Seat

/-- After a name or a chain of names and dots, where no dot follows. -/
def step? (target : Expr) (token : Token) : Seat → Option Place
  | read block =>
    match token.terminal with
    | .fixed .semicolon => some (.inBlock (block.addStmt (.read target)))
    | _ => none
  | head block =>
    match token.terminal, target with
    | .fixed .becomes, _ => some (.atOperand [] (.assigned block target))
    | .fixed .increment, _ => some (.counted block (.increment target))
    | .fixed .decrement, _ => some (.counted block (.decrement target))
    | .fixed .openParen, .name callee => some (.atOperand [] (.argumentOfCall block callee []))
    | _, _ => none
  | operand pending hole =>
    match token.terminal, target with
    | .fixed .becomes, _ =>
      if onlyAssigns pending then some (.atOperand (.assign target :: pending) hole) else none
    | .fixed .openParen, .name callee => some (.atOperand [] (.argument callee [] pending hole))
    | _, _ => valueStep? pending hole target token

end Seat

namespace Place

/-- The place after one more word. -/
def step? (token : Token) : Place → Option Place
  | between decls => (Slot.top decls).typeStep? token
  | structWord slot =>
    match token.terminal, slot with
    | .ident, .top decls => some (.tagged decls token.ident)
    | .ident, slot => some (.typed slot (.struct token.ident))
    | _, _ => none
  | tagged decls tag =>
    match token.terminal with
    | .fixed .openBrace => some (.inStruct decls tag [])
    | .ident => some (.named (.top decls) (.struct tag) token.ident)
    | _ => none
  | typed slot type =>
    match token.terminal with
    | .ident => some (.named slot type token.ident)
    | _ => none
  | named slot type id => slot.step? type id token
  | inStruct before tag fields =>
    match token.terminal, fields with
    | .fixed .closeBrace, _ :: _ => some (.structEnd before tag fields)
    | _, _ => (Slot.field before tag fields).typeStep? token
  | structEnd before tag fields =>
    match token.terminal with
    | .fixed .semicolon => some (.between (.struct tag fields.reverse :: before))
    | _ => none
  | inFormals header =>
    match token.terminal, header.formals with
    | .fixed .closeParen, [] => some (.headed header)
    | _, _ => (Slot.formal header).typeStep? token
  | headed head =>
    match token.terminal with
    | .fixed .openBrace => some (.inBlock (.function head [] []))
    | _ => none
  | inBlock inner => inner.step? token
  | ifWord block =>
    match token.terminal with
    | .fixed .openParen => some (.atOperand [] (.ifCondition block))
    | _ => none
  | whileWord block =>
    match token.terminal with
    | .fixed .openParen => some (.atOperand [] (.loopCondition block))
    | _ => none
  | opened outer opener =>
    match token.terminal with
    | .fixed .openBrace => some (.inBlock (.nested opener outer [] []))
    | _ => none
  | cinWord block =>
    match token.terminal with
    | .fixed .readArrow => some (.readArrow block)
    | _ => none
  | readArrow block =>
    match token.terminal with
    | .ident => some (.afterTarget (.read block) (.name token.ident))
    | _ => none
  | coutWord block =>
    match token.terminal with
    | .fixed .writeArrow => some (.atOperand [] (.written block))
    | _ => none
  | atOperand pending hole => operandStep? pending hole token
  | afterTarget seat target =>
    match token.terminal with
    | .fixed .dot => some (.afterDot seat target)
    | _ => seat.step? target token
  | afterDot seat object =>
    match token.terminal with
    | .ident => some (.afterTarget seat (.dot object token.ident none))
    | _ => none
  | afterValue pending hole operand => valueStep? pending hole operand token
  | counted block stmt =>
    match token.terminal with
    | .fixed .semicolon => some (.inBlock (block.addStmt stmt))
    | _ => none
  | called block call =>
    match token.terminal with
    | .fixed .semicolon => some (.inBlock (block.addStmt (.call call)))
    | _ => none

/-- The program, where it may end. -/
def program? : Place → Option Program
  | between decls => some ⟨decls.reverse⟩
  | _ => none

end Place

end Moo
