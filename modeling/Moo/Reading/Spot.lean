import Moo.Terminal

/-!
# Spots

What the reader looks at before it knows the next word: the word it has just
read, and as much of the place as tells which words may follow in some
program. What encloses the place is not part of the spot: after an operand
a closing parenthesis is offered whether or not one is open.
-/
namespace Moo

inductive Spot
  /-- Where a declaration at top level starts. -/
  | declaration
  /-- After the semicolon of a variable, wherever it is declared. -/
  | afterVariable
  /-- Where a type has to follow: after the brace of a struct, after the comma between formals. -/
  | type
  /-- After the parenthesis that opens a list of formals. -/
  | formals
  | name
  | nameOrBrace
  /-- After the name of a declaration at top level. -/
  | variableOrFunction
  /-- After the name of a formal. -/
  | afterFormal
  | semicolon
  | brace
  | paren
  | readArrow
  | writeArrow
  /-- After the brace of a function body or a block. -/
  | blockStart
  /-- After the semicolon of a statement. -/
  | afterStatement
  /-- After the brace that closes a block. -/
  | afterBlock
  | operand
  /-- After `return`. -/
  | operandOrSemicolon
  /-- After the parenthesis that opens a list of arguments. -/
  | operandOrParen
  /-- After an operand that is no target: a literal, a call, or something in parentheses. -/
  | afterValue
  /-- After the name that starts a statement or an operand. -/
  | afterName
  /-- After the name behind a dot. -/
  | afterField
  /-- After the name that a value is read into. -/
  | afterRead
deriving DecidableEq

namespace Spot

/-- The keywords that a type starts with. -/
def typeWords : List Terminal :=
  [.fixed .struct, .fixed .int, .fixed .bool, .fixed .void]

/-- What a statement starts with. -/
def statementWords : List Terminal :=
  [.ident, .fixed .cin, .fixed .cout, .fixed .ifWord, .fixed .whileWord, .fixed .returnWord]

/-- What an operand starts with. -/
def operandWords : List Terminal :=
  [.ident, .number, .text, .fixed .trueWord, .fixed .falseWord, .fixed .openParen,
    .fixed .minus, .fixed .not]

/-- What may follow an operand: an operator or the end of the expression. -/
def operandEnds : List Terminal :=
  [.fixed .disjunction, .fixed .conjunction, .fixed .equal, .fixed .notEqual, .fixed .less,
    .fixed .greater, .fixed .lessEqual, .fixed .greaterEqual, .fixed .plus, .fixed .minus,
    .fixed .times, .fixed .divide, .fixed .closeParen, .fixed .comma, .fixed .semicolon]

/-- What may follow a target besides: a step into it, and what is done with it. -/
def targetEnds : List Terminal :=
  [.fixed .dot, .fixed .becomes, .fixed .increment, .fixed .decrement]

/-- The terminals that may follow a spot in some program. -/
def terminals : Spot → List Terminal
  | declaration => typeWords
  | afterVariable => .fixed .closeBrace :: typeWords ++ statementWords
  | type => typeWords
  | formals => .fixed .closeParen :: typeWords
  | name => [.ident]
  | nameOrBrace => [.ident, .fixed .openBrace]
  | variableOrFunction => [.fixed .semicolon, .fixed .openParen]
  | afterFormal => [.fixed .closeParen, .fixed .comma]
  | semicolon => [.fixed .semicolon]
  | brace => [.fixed .openBrace]
  | paren => [.fixed .openParen]
  | readArrow => [.fixed .readArrow]
  | writeArrow => [.fixed .writeArrow]
  | blockStart => .fixed .closeBrace :: typeWords ++ statementWords
  | afterStatement => .fixed .closeBrace :: statementWords
  | afterBlock => .fixed .closeBrace :: .fixed .elseWord :: statementWords
  | operand => operandWords
  | operandOrSemicolon => .fixed .semicolon :: operandWords
  | operandOrParen => .fixed .closeParen :: operandWords
  | afterValue => operandEnds
  | afterName => .fixed .openParen :: operandEnds ++ targetEnds
  | afterField => operandEnds ++ targetEnds
  | afterRead => [.fixed .dot, .fixed .semicolon]

def offers (spot : Spot) (terminal : Terminal) : Bool :=
  spot.terminals.contains terminal

end Spot

end Moo
